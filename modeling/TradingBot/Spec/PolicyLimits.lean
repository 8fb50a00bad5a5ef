import TradingBot.Spec.Ledger
import TradingBot.Spec.Scenario

/-!
# The policy limits hold

Whatever a strategy says, a submitted intent stays within the limits, and the limits
carry over to the tables: on the simulated exchange the ledger fold never meets a sale
of more than is held, and a cycle that bought records a position within its maximum.
-/

namespace TradingBot

open FixedPoint

/-! ## The size of an intent -/

/-- What the engine promises of an intent it submits for a signal and an account. -/
structure PolicyEngine.WithinLimits (e : PolicyEngine) (signal : Signal)
    (account : AccountState) (markPrice : ℚ) (i : OrderIntent) : Prop where
  /-- The quantity is a positive multiple of the venue's smallest increment. -/
  steps : ∃ k : ℤ, 0 < k ∧ i.quantity = k / 10 ^ 8
  minimum : e.limits.minOrderNotionalQuote ≤ i.quantity * markPrice
  position : i.side = .buy →
    (account.position.quantity + i.quantity) * markPrice ≤ e.limits.maxPositionQuote
  cash : i.side = .buy → i.quantity * markPrice ≤ account.cashQuote
  share : i.side = .buy → i.quantity * markPrice ≤ e.limits.maxPositionQuote * signal.strength
  inventory : i.side = .sell → i.quantity ≤ account.position.quantity * signal.strength ∧
    account.position.quantity * signal.strength ≤ account.position.quantity

namespace PolicyEngine

variable {e : PolicyEngine} {signal : Signal} {account : AccountState} {markPrice : ℚ}
  {killSwitchEngaged : Bool}

/-- A positive quantity of the grid is a positive number of steps. -/
private theorem steps_of_mem {q : ℚ} (hpos : 0 < q) (hq : q ∈ Grid ℚ 8) :
    ∃ k : ℤ, 0 < k ∧ q = k / 10 ^ 8 := by
  obtain ⟨k, rfl⟩ := mem_grid.mp hq
  refine ⟨k, ?_, rfl⟩
  have hk : (0 : ℚ) < k := (div_pos_iff_of_pos_right (by positivity)).mp hpos
  exact_mod_cast hk

/-- Part of a holding, rounded down, is at most the holding. -/
private theorem mul_strength_le (account : AccountState) (signal : Signal) :
    account.position.quantity * signal.strength ≤ account.position.quantity :=
  mul_le_of_le_one_right account.position.quantity_nonneg signal.strength_le_one

/-- An approved size is within the limits. -/
theorem withinLimits_of_approves (hmark : 0 < markPrice) {i : OrderIntent}
    (h : e.approves signal account markPrice killSwitchEngaged = some (i.side, i.quantity)) :
    e.WithinLimits signal account markPrice i := by
  obtain ⟨hpos, hmem, hminimum⟩ := approved_size h
  have hsteps := steps_of_mem hpos hmem
  cases hside : i.side with
  | buy =>
    rw [hside] at h
    obtain ⟨-, -, ⟨hroom, hcash⟩, hq, -, -⟩ := approved_eq_buy_iff.mp h
    -- truncation only lowers the size that is the smallest of the three
    obtain ⟨hshare, hheadroom, haffordable⟩ :=
      buyQuantity_mul_le signal.strength_nonneg hmark hroom hcash
    rw [← hq] at hshare hheadroom haffordable
    refine ⟨hsteps, hminimum, fun _ => ?_, fun _ => haffordable, fun _ => hshare, ?_⟩
    · linarith [add_mul account.position.quantity i.quantity markPrice]
    · rw [hside]
      exact nofun
  | sell =>
    rw [hside] at h
    obtain ⟨-, -, hheld, hq, -, -⟩ := approved_eq_sell_iff.mp h
    have hbuy : i.side ≠ .buy := by simp [hside]
    exact ⟨hsteps, hminimum, fun h => absurd h hbuy, fun h => absurd h hbuy,
      fun h => absurd h hbuy,
      fun _ => ⟨hq ▸ sellQuantity_le signal.strength_nonneg hheld, mul_strength_le account signal⟩⟩

end PolicyEngine

/-! ## The cycle on the simulated exchange -/

namespace TradingCycle

variable {c : TradingCycle} {x : SimulatedExchange} {symbol : String} {initial : ℚ}
  {db db' : Database} {p : Prepared} {s : Settlement} {sent : List OrderIntent}

/-- The intent of a cycle is within the limits of the account it loaded. -/
theorem Prepares.withinLimits (hp : c.Prepares db p) {i : OrderIntent}
    (hi : p.decision.intent = some i) :
    c.policy.WithinLimits p.signal p.account p.markPrice i :=
  PolicyEngine.withinLimits_of_approves hp.markPrice_pos (hp.intent_eq hi).1

/-- The simulator's answer to the intent of a cycle never sells more than is held. -/
theorem OnSimulator.applyExecution_ne_shortSelling (hsim : c.OnSimulator x symbol initial)
    (hp : c.Prepares db p) {i : OrderIntent} (hi : p.decision.intent = some i)
    {a : OrderExecution} (ha : c.gateway.submit i = .ok a) :
    applyExecution p.account.cashQuote p.account.position a ≠ .error Position.shortSelling := by
  obtain ⟨fetchClock, submitClock, hgateway⟩ := hsim.gateway_eq
  rw [hgateway] at ha
  obtain ⟨-, -, f, hfills, -, -, hside, hqty, -, -⟩ := SimulatedExchange.submit_ok ha
  refine applyExecution_single_ne_shortSelling hfills fun hsell => ?_
  obtain ⟨hshare, hall⟩ := (hp.withinLimits hi).inventory (hside ▸ hsell)
  exact hqty ▸ hshare.trans hall

/-- A settlement that bought holds a position within the maximum. -/
private theorem bought_le (hsim : c.OnSimulator x symbol initial) (hp : c.Prepares db p)
    (hs : c.Settles db p s sent) {a : OrderExecution} (ha : s.execution = some a)
    (hbuy : a.intent.side = .buy) :
    s.position.quantity * p.markPrice ≤ c.policy.limits.maxPositionQuote := by
  rcases hsim.submitsTo.settles hp hs with ⟨⟨_, rfl⟩, -⟩ | ⟨i, f, hi, -, ⟨b, hb, hintent, hfills⟩,
    hside, hqty, -⟩
  · exact nomatch ha
  · cases hb.symm.trans ha
    rw [hintent] at hbuy
    have hsigned : f.signedQuantity = i.quantity := by simp [Fill.signedQuantity, hside, hbuy, hqty]
    have hmoved : s.position.quantity = p.account.position.quantity + i.quantity := by
      rw [hs.moves.quantity]
      simp [Settlement.filled, hb, hfills, hsigned]
    rw [hmoved]
    exact (hp.withinLimits hi).position hbuy

/-- The row of a cycle that bought is within the maximum, as it is stored. -/
theorem OnSimulator.row_le (hsim : c.OnSimulator x symbol initial)
    (h : c.Commits db db' p s sent) {a : OrderExecution} (ha : s.execution = some a)
    (hbuy : a.intent.side = .buy) :
    (c.snapshotRow p s).positionQuantity.toRat * (c.snapshotRow p s).markPrice.toRat ≤
      c.policy.limits.maxPositionQuote := by
  obtain ⟨-, -, hheld, -⟩ := h.prepared.account_eq
  have hqty : s.position.quantity ∈ Grid ℚ 18 := h.settled.moves.quantity_mem
    (hsim.submitsTo.exact h.prepared h.settled) (hheld ▸ db.heldQuantity_mem c.symbol)
  have hmark : p.markPrice ∈ Grid ℚ 18 :=
    grid_mono (by norm_num [priceDigits]) (hsim.markPrice_mem h.prepared)
  simp only [snapshotRow, Numeric.toRat_ofRat_of_mem hqty, Numeric.toRat_ofRat_of_mem hmark]
  exact bought_le hsim h.prepared h.settled ha hbuy

end TradingCycle

/-- The limits hold whatever the strategy: for any account the engine decides without an
    error and within the limits; and from any rows, a cycle on the simulated exchange
    never folds a short sale, and records a position within the maximum when it bought. -/
theorem policy_limits_hold (e : PolicyEngine) (signal : Signal) (account : AccountState)
    {markPrice : ℚ} (hmark : 0 < markPrice) (killSwitchEngaged : Bool) (now : Instant)
    (cycleId : String) (db : Database) {c : TradingCycle} {x : SimulatedExchange}
    {symbol : String} {initial : ℚ} (hsim : c.OnSimulator x symbol initial) :
    (∃ d, e.decide signal account markPrice killSwitchEngaged now cycleId = .ok d ∧
      ∀ i, d.intent = some i → e.WithinLimits signal account markPrice i) ∧
    (∀ p i a, c.Prepares db p → p.decision.intent = some i → c.gateway.submit i = .ok a →
      applyExecution p.account.cashQuote p.account.position a ≠ .error Position.shortSelling) ∧
    (∀ r db' sent a, c.outcome db = (.ok (r, db'), sent) → r.execution = some a →
      a.intent.side = .buy → ∃ row, db'.equitySnapshots = db.equitySnapshots ++ [row] ∧
        row.positionQuantity.toRat * row.markPrice.toRat ≤ c.policy.limits.maxPositionQuote) := by
  -- the decision, the fold into the ledger, and the row that is written
  refine ⟨?_, ?_, ?_⟩
  · obtain ⟨d, hd, hrenders⟩ := e.decide_spec signal account markPrice killSwitchEngaged now cycleId
    exact ⟨d, hd, fun i hi =>
      PolicyEngine.withinLimits_of_approves hmark (hrenders.intent_eq hi).1⟩
  · intro p i a hp hi ha
    exact hsim.applyExecution_ne_shortSelling hp hi ha
  · intro r db' sent a hr ha hbuy
    obtain ⟨p, s, h, -, hexecution, -⟩ := TradingCycle.outcome_ok hr
    refine ⟨c.snapshotRow p s, ?_, hsim.row_le h (hexecution ▸ ha) hbuy⟩
    rw [h.tables, Transaction.applyTo_equitySnapshots, TradingCycle.pending_equity]

/-- A buy on empty tables. -/
theorem policy_limits_hold_buy :
    let c := simulatedCycle (flatMarket 100 10 5) (fixedStrategy .buy (1 / 2)) defaultLimits
      10000 noon
    ∃ r db' sent row, c.outcome Database.empty = (.ok (r, db'), sent) ∧
      db'.equitySnapshots = [row] ∧ row.positionQuantity.toRat * row.markPrice.toRat ≤ 1000 := by
  intro c
  -- the cycle buys, by evaluation
  have hbought : (((c.outcome Database.empty).1.toOption.bind fun out => out.1.execution).map
      fun a => a.intent.side) = some .buy := by decide +kernel
  rcases hrun : c.outcome Database.empty with ⟨_ | ⟨r, db'⟩, sent⟩
  · simp [hrun, Except.toOption] at hbought
  · obtain ⟨a, ha, hbuy⟩ := Option.map_eq_some_iff.mp hbought
    simp only [hrun, Except.toOption, Option.bind_some] at ha
    have hsim : c.OnSimulator (flatMarket 100 10 5) "BTC/USDT" 10000 := ⟨rfl, rfl, _, _, rfl⟩
    have hlimits := policy_limits_hold c.policy
      ⟨"BTC/USDT", .buy, 1 / 2, noon, "fixed", "as scripted", by norm_num, by norm_num⟩
      ⟨10000, ⟨"BTC/USDT", 0, 0, le_rfl, le_rfl⟩, 10000, by norm_num⟩
      (by norm_num : (0 : ℚ) < 100) false noon "BTCUSDT-15m-1767267900" Database.empty hsim
    obtain ⟨row, hrows, hle⟩ := hlimits.2.2 r db' sent a hrun ha hbuy
    exact ⟨r, db', sent, row, rfl, hrows, hle⟩

end TradingBot
