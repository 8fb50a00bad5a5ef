import TradingBot.Spec.Ledger
import TradingBot.Spec.Scenario
import TradingBot.Spec.Sizing

/-!
# The gate of a cycle, and its frame

A cycle that runs to its end sends an order exactly when every gate is open: those of the
policy engine, in the order of its checks, and the look at the orders table. Whatever it
does, it adds one signal row and one equity row, and a cycle that sends nothing adds nothing
else and records the balances it loaded.
-/

namespace TradingBot

namespace TradingCycle

variable {c : TradingCycle} {db : Database} {p : Prepared} {s : Settlement}
  {sent : List OrderIntent} {r : CycleResult} {tx : Transaction}

/-- No order row has the id of an order. -/
def Unknown (db : Database) (clientOrderId : String) : Prop :=
  ∀ row ∈ db.orders, row.clientOrderId ≠ clientOrderId

/-- An order is unknown exactly where the query does not find it. -/
private theorem unknown_iff {id : String} : Unknown db id ↔ db.alreadyExecuted id = false := by
  rw [← Bool.not_eq_true, Database.alreadyExecuted_iff]
  simp [Unknown]

/-- An order goes out exactly when the gates are open for a side and its id is new. -/
private theorem sends_iff (hp : c.Prepares db p) (hs : c.Settles db p s sent) :
    sent ≠ [] ↔ ∃ side, c.policy.Opens p.signal p.account p.markPrice c.killSwitch side ∧
      Unknown db (p.cycleId ++ "-" ++ side.value) := by
  -- where a gate opens, the decision has an intent under the id of that side
  have hintent : ∀ side, c.policy.Opens p.signal p.account p.markPrice c.killSwitch side →
      ∃ i, p.decision.intent = some i ∧ i.clientOrderId = p.cycleId ++ "-" ++ side.value := by
    intro side hopen
    obtain ⟨i, hi, rfl, -⟩ := hp.exists_intent (PolicyEngine.approves_eq_some_iff.mpr ⟨hopen, rfl⟩)
    exact ⟨i, hi, (hp.intent_eq hi).2.1⟩
  rcases hs.order_cases with ⟨-, rfl, hknown⟩ | ⟨i, row, hi, hnew, rfl, -⟩
  -- nothing was sent: an intent there was, was known
  · refine iff_of_false (not_not.mpr rfl) ?_
    rintro ⟨side, hopen, hunknown⟩
    obtain ⟨i, hi, hid⟩ := hintent side hopen
    have hexecuted := hknown i hi
    rw [hid, unknown_iff.mp hunknown] at hexecuted
    cases hexecuted
  · obtain ⟨happroved, hid, -⟩ := hp.intent_eq hi
    refine iff_of_true (List.cons_ne_nil _ _) ⟨i.side, ?_, ?_⟩
    · exact (PolicyEngine.approves_eq_some_iff.mp happroved).1
    · exact unknown_iff.mpr (hid ▸ hnew)

/-- A settlement without fills keeps the balances that were loaded. -/
private theorem balances_kept (hs : c.Settles db p s sent) (hnone : s.filled = []) :
    s.cash = p.account.cashQuote ∧ s.position.quantity = p.account.position.quantity := by
  have hmoves := hs.moves
  rw [hmoves.cash, hmoves.quantity, hnone]
  simp

/-- The account and the market data a cycle decided on. -/
structure DecidedOn (c : TradingCycle) (db : Database) (r : CycleResult)
    (snapshot : MarketSnapshot) (account : AccountState) : Prop where
  fetched : c.gateway.fetchSnapshot c.symbol c.timeframe c.candleLimit = .ok snapshot
  evaluated : c.strategy.evaluate snapshot = .ok r.signal
  loaded : db.loadAccountState c.symbol c.initialCashQuote snapshot.lastPrice c.clock = .ok account
  cycleId : r.cycleId = buildCycleId snapshot

/-- What a cycle adds to the rows when it ends with a transaction. -/
structure Frame (c : TradingCycle) (db : Database) (account : AccountState)
    (sent : List OrderIntent) (r : CycleResult) (db' : Database) : Prop where
  signals : db'.signals = db.signals ++ [recordSignal r.cycleId r.signal]
  equitySnapshots : db'.equitySnapshots =
    db.equitySnapshots ++ [recordEquitySnapshot r.cycleId r.equity]
  /-- Without fills the recorded balances are those that were loaded. -/
  balances : sent = [] ∨ (∃ e, r.execution = some e ∧ e.fills = []) →
    r.equity.cashQuote = account.cashQuote ∧
      r.equity.positionQuantity = account.position.quantity
  /-- Without an order nothing else is written. -/
  untouched : sent = [] →
    db'.orders = db.orders ∧ db'.fills = db.fills ∧ db'.positions = db.positions
  answered : ∀ i ∈ sent, ∃ e, c.gateway.submit i = .ok e ∧ r.execution = some e

/-- A cycle that settles leaves every row that was there, and adds what it settled. -/
private theorem frame_of_settles (hs : c.Settles db p s sent)
    (hconclude : c.conclude p s = .ok (r, tx)) :
    c.Frame db p.account sent r ((c.pending p s).applyTo db) := by
  obtain ⟨rfl, -, hexecution, -⟩ := conclude_ok hconclude
  obtain ⟨hcycleId, hsignal, hequity, hcash, hqty⟩ := conclude_result hconclude
  refine ⟨?_, ?_, fun hquiet => ?_, ?_, ?_⟩
  · simp [hcycleId, hsignal]
  · rw [Transaction.applyTo_equitySnapshots, hequity]
  -- without a fill the balances are those of the account
  · have hnone : s.filled = [] := by
      rcases hquiet with hsent | ⟨e, he, hfills⟩
      · cases hs with
        | held => rfl
        | suppressed => rfl
        | sent => cases hsent
      · rw [hexecution] at he
        simp [Settlement.filled, he, hfills]
    rw [hcash, hqty]
    exact balances_kept hs hnone
  · rintro rfl
    cases hs with
    | held => simp [Settlement.unchanged, Transaction.positionsAfter]
    | suppressed => simp [Settlement.unchanged, Transaction.positionsAfter]
  · intro i hi
    cases hs with
    | held => cases hi
    | suppressed => cases hi
    | @sent _ intent x _ _ hsends =>
      obtain rfl := List.mem_singleton.mp hi
      exact ⟨x.execution, hsends.answered, hexecution⟩

/-- The exact gate and the frame of a cycle. Whenever it runs to its end, it has submitted at
    most one intent, and one exactly when the gates are open on a side and no order has its
    id; its decision is a hold exactly when its record ends with the only failed check; and
    its session commits one signal row, one equity row, and the rest only if it submitted. -/
theorem submits_iff_opens (h : (c.run db).eval [] = (.ok (r, tx), sent)) :
    ∃ snapshot account, c.DecidedOn db r snapshot account ∧
      sent.length ≤ 1 ∧
      (sent ≠ [] ↔ ∃ side,
        c.policy.Opens r.signal account snapshot.lastPrice c.killSwitch side ∧
          Unknown db (r.cycleId ++ "-" ++ side.value)) ∧
      (r.decision.outcome = .hold ↔ ∃ check ∈ r.decision.checks, check.passed = false) ∧
      (∀ check ∈ r.decision.checks, check.passed = false →
        r.decision.failedChecks = [check] ∧ r.decision.checks.getLast? = some check) ∧
      ∃ db', tx.commit db = .ok db' ∧ c.Frame db account sent r db' := by
  obtain ⟨p, s, hp, hs, hconclude⟩ := run_ok.mp h
  obtain ⟨rfl, hdecision, -⟩ := conclude_ok hconclude
  obtain ⟨hcycleId, hsignal, -⟩ := conclude_result hconclude
  obtain ⟨hold, honly⟩ := hp.recorded.hold_iff
  -- the decision is the one prepared, and its frame that of the settlement
  refine ⟨p.snapshot, p.account, ?_, ?_, ?_, hdecision ▸ hold, hdecision ▸ honly, _,
    Transaction.commit_ok_iff.mpr ⟨hs.fits, rfl⟩, frame_of_settles hs hconclude⟩
  · exact ⟨hp.fetched, hsignal ▸ hp.evaluated, hp.markPrice_eq ▸ hp.loaded,
      hcycleId.trans hp.cycleId_eq⟩
  · rcases hs.order_cases with ⟨-, rfl, -⟩ | ⟨_, _, -, -, rfl, -⟩
    · exact Nat.zero_le 1
    · exact le_rfl
  · rw [hsignal, hcycleId, ← hp.markPrice_eq]
    exact sends_iff hp hs

/-- A buy on empty tables. -/
theorem submits_iff_opens_buy :
    let c := simulatedCycle (flatMarket 100 10 5) (fixedStrategy .buy (1 / 2)) defaultLimits
      10000 noon
    ∃ r tx sent, (c.run Database.empty).eval [] = (.ok (r, tx), sent) ∧ sent ≠ [] ∧
      ∃ (snapshot : MarketSnapshot) (account : AccountState) (side : OrderSide),
        c.policy.Opens r.signal account snapshot.lastPrice false side := by
  intro c
  have hbought : ((c.run Database.empty).eval []).1.toOption.isSome = true ∧
      (((c.run Database.empty).eval []).2.map (·.side)) = [.buy] := by decide +kernel
  rcases hrun : (c.run Database.empty).eval [] with ⟨_ | ⟨r, tx⟩, sent⟩
  · simp [hrun, Except.toOption] at hbought
  · have hsent : sent ≠ [] := by
      rintro rfl
      simp [hrun] at hbought
    obtain ⟨snapshot, account, -, -, hiff, -⟩ := submits_iff_opens hrun
    obtain ⟨side, hopen, -⟩ := hiff.mp hsent
    exact ⟨r, tx, sent, rfl, hsent, snapshot, account, side, hopen⟩

end TradingCycle

end TradingBot
