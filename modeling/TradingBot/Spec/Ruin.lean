import TradingBot.Spec.PolicyLimits

/-!
# An account that cannot trade any more

A bot without a position can only buy, and a bot with less cash than the least order cannot
do that either. It has no way out: nothing it does, and nothing that bots of other symbols
do, changes its cash or its position. Once the cash is used up, which fees can bring about,
the first job of the next day fails on the equity the day would open with, and so do all that
follow.
-/

namespace TradingBot

open FixedPoint Database

/-- A symbol without a position, whose latest snapshot has a given cash. -/
structure Stranded (symbol : String) (cash : ℚ) (db : Database) : Prop where
  flat : db.heldQuantity symbol = 0
  latest : ∃ row, db.latestSnapshotFor symbol = some row ∧ row.cashQuote.toRat = cash

/-- No snapshot of a symbol is of a day or later. -/
def Unopened (symbol : String) (midnight : Instant) (db : Database) : Prop :=
  ∀ r ∈ db.snapshotsFor symbol, r.takenAt < midnight

variable {symbol : String} {cash : ℚ} {midnight : Instant} {db db' : Database}
  {c : TradingCycle} {p : Prepared} {s : Settlement} {sent : List OrderIntent}

/-! ## What a commit adds to the snapshots of a symbol -/

/-- A commit adds its own snapshot to those of its symbol. -/
theorem TradingCycle.Commits.snapshotsFor (h : c.Commits db db' p s sent) (symbol : String) :
    db'.snapshotsFor symbol =
      db.snapshotsFor symbol ++ if c.symbol = symbol then [c.snapshotRow p s] else [] := by
  rw [Database.snapshotsFor, h.tables, Transaction.applyTo_equitySnapshots, List.filter_append,
    Database.snapshotsFor, pending_equity, List.filter_cons, List.filter_nil, snapshotRow_symbol]
  split_ifs <;> simp_all

/-! ## No way out -/

namespace Stranded

/-- A stranded symbol is loaded with its cash, whatever the initial one. -/
theorem loadCash (h : Stranded symbol cash db) (initial : ℚ) :
    db.loadCash symbol initial = cash := by
  obtain ⟨row, hrow, hcash⟩ := h.latest
  rw [Database.loadCash, hrow]
  exact hcash

/-- What is loaded from a column fits the column. -/
theorem cash_mem (h : Stranded symbol cash db) : cash ∈ Grid ℚ 18 := by
  obtain ⟨row, -, rfl⟩ := h.latest
  exact Numeric.toRat_mem _

/-- There is nothing to sell, and too little to buy with. -/
theorem intent_eq_none (h : Stranded c.symbol cash db)
    (hshort : cash < c.policy.limits.minOrderNotionalQuote) (hp : c.Prepares db p) :
    p.decision.intent = none := by
  by_contra hsome
  obtain ⟨i, hi⟩ := Option.ne_none_iff_exists'.mp hsome
  have hlimits := hp.withinLimits hi
  obtain ⟨hcash, -, hheld, -⟩ := hp.account_eq
  cases hside : i.side with
  | buy =>
    have hspent := hlimits.cash hside
    rw [hcash, h.loadCash] at hspent
    linarith [hlimits.minimum]
  | sell =>
    obtain ⟨hshare, hall⟩ := hlimits.inventory hside
    have hnothing : i.quantity ≤ 0 := (hshare.trans hall).trans (hheld.trans h.flat).le
    linarith [i.quantity_pos]

/-- So nothing is submitted, even if the cycle raises. -/
theorem submits_nothing (h : Stranded c.symbol cash db)
    (hshort : cash < c.policy.limits.minOrderNotionalQuote) : (c.outcome db).2 = [] := by
  rcases c.outcome_sent db with ⟨-, hnone⟩ | ⟨p, intent, hp, hintent, -⟩
  · exact hnone
  · cases (h.intent_eq_none hshort hp).symm.trans hintent

/-- A cycle that commits records the cash it loaded. -/
theorem step (h : Stranded c.symbol cash db)
    (hshort : cash < c.policy.limits.minOrderNotionalQuote)
    (hcommits : c.Commits db db' p s sent) : Stranded c.symbol cash db' := by
  have hnone := h.intent_eq_none hshort hcommits.prepared
  obtain rfl : s = .unchanged p.account false := by
    cases hcommits.settled with
    | held => rfl
    | suppressed hintent => cases hnone.symm.trans hintent
    | sent hintent => cases hnone.symm.trans hintent
  constructor
  · rw [Database.heldQuantity, hcommits.tables]
    simpa [Settlement.unchanged, Transaction.positionsAfter, Database.heldQuantity] using h.flat
  · obtain ⟨row, hrow, hcash⟩ := h.latest
    have hloaded : p.account.cashQuote = cash :=
      hcommits.prepared.account_eq.1.trans (h.loadCash _)
    have hrecorded : (c.snapshotRow p (.unchanged p.account false)).cashQuote.toRat = cash := by
      show (Numeric.ofRat 18 p.account.cashQuote).toRat = cash
      rw [hloaded, Numeric.toRat_ofRat_of_mem h.cash_mem]
    -- whichever of the two rows is the latest
    rw [latestSnapshotFor, hcommits.snapshotsFor, if_pos rfl, List.argmax_concat]
    rw [latestSnapshotFor] at hrow
    rw [hrow]
    simp only
    split_ifs
    · exact ⟨_, rfl, hrecorded⟩
    · exact ⟨_, rfl, hcash⟩

/-- Cycles of other symbols do not show. -/
theorem step_of_ne (h : Stranded symbol cash db) (hne : c.symbol ≠ symbol)
    (hcommits : c.Commits db db' p s sent) : Stranded symbol cash db' := by
  have hrows : db'.snapshotsFor symbol = db.snapshotsFor symbol := by
    rw [hcommits.snapshotsFor, if_neg hne, List.append_nil]
  constructor
  · rw [Database.heldQuantity, hcommits.positions_of_ne hne.symm]
    exact h.flat
  · rw [latestSnapshotFor, hrows]
    exact h.latest

/-- Without cash, no cycle can open a day. -/
theorem not_prepares (h : Stranded c.symbol cash db) (hspent : cash ≤ 0)
    (hday : Unopened c.symbol (dayStart c.clock) db) : ¬c.Prepares db p := by
  intro hp
  obtain ⟨hcash, -, hheld, hopening⟩ := hp.account_eq
  have hnone : ((db.snapshotsFor c.symbol).filter (dayStart c.clock ≤ ·.takenAt)) = [] :=
    List.filter_eq_nil_iff.mpr fun r hr => by simpa using hday r hr
  -- the day would open with the cash and a position of nothing
  have hequity : p.account.dayOpeningEquity = cash := by
    rw [hopening, dayOpeningEquity, hnone, AccountState.equityAt, Position.notionalAt, hcash,
      hheld, h.flat, h.loadCash]
    simp
  linarith [p.account.dayOpeningEquity_pos]

/-- A cycle of whatever symbol, which commits or raises. -/
theorem step_of_attempted (h : Stranded symbol cash db)
    (hshort : c.symbol = symbol → cash < c.policy.limits.minOrderNotionalQuote)
    (hattempted : Attempted db c db') : Stranded symbol cash db' := by
  rcases hattempted with hcommitted | rfl
  · obtain ⟨p, s, sent, hcommits⟩ := hcommitted.commits
    by_cases hsymbol : c.symbol = symbol
    · subst hsymbol
      exact h.step (hshort rfl) hcommits
    · exact h.step_of_ne hsymbol hcommits
  · exact h

/-- A cycle of the symbol that finds the day unopened raises. -/
theorem raises (h : Stranded c.symbol cash db) (hspent : cash ≤ 0)
    (hday : Unopened c.symbol (dayStart c.clock) db) : ∃ e, (c.outcome db).1 = .error e := by
  rcases hoc : c.outcome db with ⟨e | ⟨r, db'⟩, sent⟩
  · exact ⟨e, rfl⟩
  · obtain ⟨p, s, hcommits, -⟩ := TradingCycle.outcome_ok hoc
    exact absurd hcommits.prepared (h.not_prepares hspent hday)

/-- So the day stays unopened, whatever cycle is attempted next. -/
theorem unopened_of_attempted (h : Stranded symbol cash db) (hspent : cash ≤ 0)
    (hday : Unopened symbol midnight db) (hlater : c.symbol = symbol → midnight ≤ dayStart c.clock)
    (hattempted : Attempted db c db') : db'.snapshotsFor symbol = db.snapshotsFor symbol := by
  rcases hattempted with hcommitted | rfl
  · obtain ⟨p, s, sent, hcommits⟩ := hcommitted.commits
    have hother : c.symbol ≠ symbol := by
      rintro rfl
      have hnow : Unopened c.symbol (dayStart c.clock) db :=
        fun r hr => (hday r hr).trans_le (hlater rfl)
      exact h.not_prepares hspent hnow hcommits.prepared
    rw [hcommits.snapshotsFor, if_neg hother, List.append_nil]
  · rfl

end Stranded

/-! ## Over whole runs -/

/-- An account with no position, and with less cash than the orders of its symbol must be
    worth, is stranded for good: in every run, among cycles of whatever other symbols, its
    cycles submit nothing, even when they raise, and its cash and position stay as they are.
    If it has no cash left, then from a midnight on that its snapshots lie before, every one
    of its cycles raises and no snapshot is added. -/
theorem stranded_for_good {start : Database} (hstranded : Stranded symbol cash start)
    {cycles : List TradingCycle}
    (hshort : ∀ c ∈ cycles, c.symbol = symbol → cash < c.policy.limits.minOrderNotionalQuote)
    (hrun : Runs Attempted start cycles db) :
    (Runs (fun t c u => Attempted t c u ∧ (c.symbol = symbol → (c.outcome t).2 = [])) start cycles
        db ∧ Stranded symbol cash db) ∧
      (cash ≤ 0 → ∀ midnight, Unopened symbol midnight start →
        (∀ c ∈ cycles, c.symbol = symbol → midnight ≤ dayStart c.clock) →
        Runs (fun t c u => Attempted t c u ∧
            (c.symbol = symbol → ∃ e, (c.outcome t).1 = .error e)) start cycles db ∧
          db.snapshotsFor symbol = start.snapshotsFor symbol) := by
  constructor
  -- without a position there is nothing to sell, and no buy is worth the minimum
  · refine hrun.invariant_and (I := Stranded symbol cash) hstranded fun t c u hc ht hattempted => ?_
    refine ⟨ht.step_of_attempted (hshort c hc) hattempted, ?_⟩
    rintro rfl
    exact ht.submits_nothing (hshort c hc rfl)
  · intro hspent midnight hday hlater
    -- with no cash left either, the opening equity of a new day is not positive
    have hboth := hrun.invariant_and
      (I := fun t => Stranded symbol cash t ∧ t.snapshotsFor symbol = start.snapshotsFor symbol)
      (Q := fun t c _ => c.symbol = symbol → ∃ e, (c.outcome t).1 = .error e)
      ⟨hstranded, rfl⟩ ?_
    · exact ⟨hboth.1, hboth.2.2⟩
    · rintro t c u hc ⟨ht, hrows⟩ hattempted
      have hunopened : Unopened symbol midnight t := fun r hr => hday r (hrows ▸ hr)
      have hkept := ht.unopened_of_attempted hspent hunopened (hlater c hc) hattempted
      refine ⟨⟨ht.step_of_attempted (hshort c hc) hattempted, hkept.trans hrows⟩, ?_⟩
      rintro rfl
      exact ht.raises hspent fun r hr => (hunopened r hr).trans_le (hlater c hc rfl)

/-- A cycle at ten times the price in fees. -/
def ruinousCycle (action : SignalAction) (strength : ℚ) (clock : Instant) : TradingCycle :=
  simulatedCycle (flatMarket 100 100000 0) (fixedStrategy action strength) wideLimits 10000 clock

/-- A buy and a sale on the first day use up the cash, and the first job of the second raises. -/
theorem stranded_for_good_ruinousCycle :
    ∃ start, commitAll Database.empty
        [ruinousCycle .buy (1 / 200) noon, ruinousCycle .sell 1 (noon + 900000000)] = some start ∧
      ∃ e, ((ruinousCycle .buy 1 (noon + dayMicros)).outcome start).1 = .error e := by
  obtain ⟨start, hstart, hflat, hcash, hday⟩ : ∃ start, commitAll Database.empty
      [ruinousCycle .buy (1 / 200) noon, ruinousCycle .sell 1 (noon + 900000000)] = some start ∧
      start.heldQuantity "BTC/USDT" = 0 ∧
      (start.latestSnapshotFor "BTC/USDT").map (·.cashQuote.toRat) = some 0 ∧
      ∀ r ∈ start.snapshotsFor "BTC/USDT", r.takenAt < dayStart noon + dayMicros := by
    have hany : (commitAll Database.empty
        [ruinousCycle .buy (1 / 200) noon, ruinousCycle .sell 1 (noon + 900000000)]).any
        (fun start => start.heldQuantity "BTC/USDT" = 0 ∧
          (start.latestSnapshotFor "BTC/USDT").map (·.cashQuote.toRat) = some 0 ∧
          ∀ r ∈ start.snapshotsFor "BTC/USDT", r.takenAt < dayStart noon + dayMicros) = true := by
      decide +kernel
    simpa [Option.any_eq_true] using hany
  -- fees have taken all of the cash, and the position is closed
  have hstranded : Stranded "BTC/USDT" 0 start := ⟨hflat, by simpa using hcash⟩
  let tomorrow := ruinousCycle .buy 1 (noon + dayMicros)
  have hrun : Runs Attempted start [tomorrow] start := Runs.snoc_iff.mpr ⟨start, .nil, .inr rfl⟩
  have hshort : ∀ c ∈ [tomorrow], c.symbol = "BTC/USDT" →
      0 < c.policy.limits.minOrderNotionalQuote := by
    simpa using fun _ => tomorrow.policy.limits.minOrderNotionalQuote_pos
  obtain ⟨-, hruined⟩ := stranded_for_good hstranded hshort hrun
  -- the first cycle of the next day
  have hraises : Runs _ start ([] ++ [tomorrow]) start :=
    (hruined le_rfl (dayStart noon + dayMicros) hday
      (by simp only [List.forall_mem_singleton]; decide)).1
  obtain ⟨t, hbefore, -, hraised⟩ := Runs.snoc_iff.mp hraises
  cases Runs.nil_iff.mp hbefore
  exact ⟨start, hstart, hraised rfl⟩

end TradingBot
