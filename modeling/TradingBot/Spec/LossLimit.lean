import TradingBot.Spec.DayOpening
import TradingBot.Spec.Replay

/-!
# The daily loss limit is a latch

A bot that holds nothing when its day's loss has reached the limit submits nothing for the
rest of the UTC day, whatever the strategy says, the market does or raises: its equity is its
cash, which no cycle changes any more, and the opening equity it is measured against is that
of the day's first snapshot. The latch is not one for a bot that still holds a position, whose
equity the market may bring back.
-/

namespace TradingBot

open Database

/-! ## The opening equity of a day that has begun -/

/-- Once a day has a snapshot, later ones leave its opening equity as it is. -/
theorem Database.dayOpeningEquity_append {db tables : Database} {symbol : String} {now : Instant}
    {row r : EquitySnapshotRecord} (happend : tables.equitySnapshots = db.equitySnapshots ++ [row])
    (hr : r ∈ db.snapshotsFor symbol) (htoday : dayStart now ≤ r.takenAt)
    (hnew : ∀ r ∈ db.equitySnapshots, r.takenAt < row.takenAt) (fallback fallback' : ℚ) :
    tables.dayOpeningEquity symbol now fallback = db.dayOpeningEquity symbol now fallback' := by
  have hrows : tables.snapshotsFor symbol =
      db.snapshotsFor symbol ++ [row].filter (·.symbol = symbol) := by
    rw [snapshotsFor, happend, List.filter_append, snapshotsFor]
  unfold dayOpeningEquity
  rw [hrows, List.filter_append]
  -- the first row of the day is the earliest one, and the new row is later
  cases hmin : ((db.snapshotsFor symbol).filter (dayStart now ≤ ·.takenAt)).argmin
      (·.takenAt) with
  | none =>
    have htoday : r ∈ (db.snapshotsFor symbol).filter (dayStart now ≤ ·.takenAt) := by
      simp [hr, htoday]
    rw [List.argmin_eq_none.mp hmin] at htoday
    exact absurd htoday List.not_mem_nil
  | some first =>
    have hfirst := List.mem_filter.mp (List.mem_filter.mp (List.argmin_mem hmin)).1
    -- the new row is of the day and the symbol or it is not
    have hsingle : ([row].filter (·.symbol = symbol)).filter (dayStart now ≤ ·.takenAt) = [row] ∨
        ([row].filter (·.symbol = symbol)).filter (dayStart now ≤ ·.takenAt) = [] := by
      rw [List.filter_filter, List.filter_cons, List.filter_nil]
      split
      · exact .inl rfl
      · exact .inr rfl
    rcases hsingle with hadded | hnothing
    · have hlater : ¬row.takenAt < first.takenAt := (hnew first hfirst.1).not_gt
      rw [hadded, List.argmin_concat, hmin]
      simp only [if_neg hlater]
    · rw [hnothing, List.append_nil, hmin]

/-! ## The latch -/

/-- The position of a symbol is closed, and the loss since the opening of a day has reached a
    limit. -/
structure Tripped (symbol : String) (initial limit : ℚ) (midnight : Instant) (db : Database) :
    Prop where
  flat : db.heldQuantity symbol = 0
  opened : ∃ r ∈ db.snapshotsFor symbol, midnight ≤ r.takenAt
  lost : ∀ now fallback, dayStart now = midnight →
    db.loadCash symbol initial - db.dayOpeningEquity symbol now fallback ≤ -limit

/-- A day is measured against the same opening equity. -/
def SameOpening (symbol : String) (midnight : Instant) (db db' : Database) : Prop :=
  ∀ now fallback fallback', dayStart now = midnight →
    db'.dayOpeningEquity symbol now fallback = db.dayOpeningEquity symbol now fallback'

/-- The opening of a day that has a snapshot does not depend on the equity at hand. -/
theorem Tripped.sameOpening {symbol : String} {initial limit : ℚ} {midnight : Instant}
    {db : Database} (h : Tripped symbol initial limit midnight db) :
    SameOpening symbol midnight db db := by
  intro now fallback fallback' hday
  obtain ⟨r, hr, htoday⟩ := h.opened
  unfold dayOpeningEquity
  cases hmin : ((db.snapshotsFor symbol).filter (dayStart now ≤ ·.takenAt)).argmin
      (·.takenAt) with
  | none =>
    have hmem : r ∈ (db.snapshotsFor symbol).filter (dayStart now ≤ ·.takenAt) := by
      simp [hr, hday ▸ htoday]
    rw [List.argmin_eq_none.mp hmin] at hmem
    exact absurd hmem List.not_mem_nil
  | some first => rfl

/-- A cycle of a symbol on a day, whose loss limit is at most the given one. -/
structure TradingCycle.WithinDay (c : TradingCycle) (symbol : String) (initial limit : ℚ)
    (midnight : Instant) : Prop where
  symbol_eq : c.symbol = symbol
  initial_eq : c.initialCashQuote = initial
  day : dayStart c.clock = midnight
  limit_le : c.policy.limits.maxDailyLossQuote ≤ limit

section Step

variable {symbol : String} {initial limit : ℚ} {midnight : Instant} {db db' : Database}
  {c : TradingCycle} {p : Prepared} {s : Settlement} {sent : List OrderIntent}

/-- The loss that a cycle of the day finds has reached its limit. -/
theorem Tripped.dailyPnlAt_le (h : Tripped symbol initial limit midnight db)
    (hc : c.WithinDay symbol initial limit midnight) (hp : c.Prepares db p) :
    p.account.dailyPnlAt p.markPrice ≤ -c.policy.limits.maxDailyLossQuote := by
  obtain ⟨hcash, -, hheld, hopening⟩ := hp.account_eq
  have hlost := h.lost c.clock (p.account.equityAt p.markPrice) hc.day
  rw [← hc.symbol_eq, ← hc.initial_eq, ← hcash, ← hopening] at hlost
  have hflat : p.account.position.quantity = 0 := by rw [hheld, hc.symbol_eq, h.flat]
  rw [AccountState.dailyPnlAt, AccountState.equityAt, Position.notionalAt, hflat, zero_mul,
    add_zero]
  linarith [hc.limit_le]

/-- A loss that has reached the limit is refused whatever the strategy asks for. -/
theorem TradingCycle.Prepares.intent_eq_none (hp : c.Prepares db p)
    (hloss : p.account.dailyPnlAt p.markPrice ≤ -c.policy.limits.maxDailyLossQuote) :
    p.decision.intent = none := by
  by_contra hsome
  obtain ⟨i, hi⟩ := Option.ne_none_iff_exists'.mp hsome
  have happroved := (hp.intent_eq hi).1
  rw [PolicyEngine.approves, PolicyEngine.approved_refused (.inr hloss)] at happroved
  cases happroved

/-- Once tripped, no cycle of the day intends anything: whatever the signal, it is refused for
    the loss. -/
theorem Tripped.intent_eq_none (h : Tripped symbol initial limit midnight db)
    (hc : c.WithinDay symbol initial limit midnight) (hp : c.Prepares db p) :
    p.decision.intent = none :=
  hp.intent_eq_none (h.dailyPnlAt_le hc hp)

/-- So nothing is submitted, even if the cycle raises. -/
theorem Tripped.submits_nothing (h : Tripped symbol initial limit midnight db)
    (hc : c.WithinDay symbol initial limit midnight) : (c.outcome db).2 = [] := by
  rcases c.outcome_sent db with ⟨-, hnone⟩ | ⟨p, intent, hp, hintent, -⟩
  · exact hnone
  · cases (h.intent_eq_none hc hp).symm.trans hintent

/-- A cycle that commits leaves the latch closed. -/
theorem Tripped.step (h : Tripped symbol initial limit midnight db)
    (hc : c.WithinDay symbol initial limit midnight) (hcommits : c.Commits db db' p s sent)
    (hnew : ∀ r ∈ db.equitySnapshots, r.takenAt < c.clock) :
    Tripped symbol initial limit midnight db' ∧ SameLedger symbol db db' ∧
      SameOpening symbol midnight db db' := by
  obtain ⟨r, hr, htoday⟩ := h.opened
  -- nothing is sent, since nothing is intended
  obtain rfl : sent = [] := by
    rcases hcommits.settled.order_cases with ⟨-, hnone, -⟩ | ⟨i, _, hi, -⟩
    · exact hnone
    · cases (h.intent_eq_none hc hcommits.prepared).symm.trans hi
  have hledger := hcommits.sameLedger (hc.symbol_eq ▸ hr) hnew
  rw [hc.symbol_eq] at hledger
  have hrows : db'.equitySnapshots = db.equitySnapshots ++ [c.snapshotRow p s] := by
    rw [hcommits.tables]
    rfl
  -- the day has its first row already
  have hopening : SameOpening symbol midnight db db' := fun now fallback fallback' hday =>
    dayOpeningEquity_append hrows hr (hday ▸ htoday) hnew fallback fallback'
  refine ⟨⟨?_, ⟨r, ?_, htoday⟩, fun now fallback hday => ?_⟩, hledger, hopening⟩
  · rw [Database.heldQuantity, hledger.positions]
    exact h.flat
  · rw [Database.snapshotsFor, hrows, List.filter_append]
    exact List.mem_append_left _ hr
  · rw [hledger.cash, hopening now fallback fallback hday]
    exact h.lost now fallback hday

end Step

/-! ## The rest of the day -/

/-- The daily loss limit latches for a bot that holds nothing. Once the loss of a UTC day has
    reached a limit and the position is closed, every later cycle of that day, with that
    limit or a stricter one, submits nothing, even if it raises; orders, fills and positions
    stay as they are, and so do the cash and the opening equity of the day. -/
theorem loss_limit_latches {symbol : String} {initial limit : ℚ} {midnight : Instant}
    {start db : Database} (htripped : Tripped symbol initial limit midnight start)
    {cycles : List TradingCycle}
    (hday : ∀ c ∈ cycles, c.WithinDay symbol initial limit midnight)
    (hclock : cycles.Pairwise (·.clock < ·.clock))
    (hlater : ∀ r ∈ start.equitySnapshots, ∀ c ∈ cycles, r.takenAt < c.clock)
    (hrun : Runs Attempted start cycles db) :
    Runs (fun db c db' => Attempted db c db' ∧ (c.outcome db).2 = []) start cycles db ∧
      SameLedger symbol start db ∧ SameOpening symbol midnight start db ∧
      Tripped symbol initial limit midnight db := by
  -- the invariant holds wherever the run has come to, so before each of its cycles
  have hlatched : ∀ {ls t}, ls <+: cycles → Runs Attempted start ls t →
      SameLedger symbol start t ∧ SameOpening symbol midnight start t ∧
        Tripped symbol initial limit midnight t := by
    intro ls t hls hinit
    refine attempted_invariant
      (P := fun t => SameLedger symbol start t ∧ SameOpening symbol midnight start t ∧
        Tripped symbol initial limit midnight t) hinit
      (hclock.sublist hls.sublist) (fun r hr c hc => hlater r hr c (hls.subset hc))
      ⟨⟨rfl, rfl, rfl, fun _ => rfl⟩, htripped.sameOpening, htripped⟩ ?_
    rintro t c u p s sent hc hnew ⟨hledger, hopening, ht⟩ hcommits
    obtain ⟨hu, hkept, hstays⟩ := ht.step (hday c (hls.subset hc)) hcommits hnew
    -- both the ledger and the opening go on from cycle to cycle
    refine ⟨⟨hkept.orders.trans hledger.orders, hkept.fills.trans hledger.fills,
      hkept.positions.trans hledger.positions,
      fun initial => (hkept.cash initial).trans (hledger.cash initial)⟩, ?_, hu⟩
    exact fun now fallback fallback' hday =>
      (hstays now fallback fallback hday).trans (hopening now fallback fallback' hday)
  refine ⟨hrun.strengthen fun ls t c u hls hinit _ => ?_, hlatched List.prefix_rfl hrun⟩
  have hbefore := hlatched ((List.prefix_append ls [c]).trans hls) hinit
  exact hbefore.2.2.submits_nothing (hday c (hls.subset (by simp)))

/-- The first snapshot of a day that opens at 10000. -/
def openingRow : EquitySnapshotRecord :=
  ⟨"BTCUSDT-15m-1767224700", "BTC/USDT", .ofRat 18 100, .ofRat 18 10000, .ofRat 18 0,
    .ofRat 18 10000, .ofRat 18 10000, dayStart noon⟩

/-- The day stands at 9800 in cash. -/
def lossyDay : Database :=
  { Database.empty with
    equitySnapshots := [openingRow, { openingRow with
      cycleId := "BTCUSDT-15m-1767225600", cashQuote := .ofRat 18 9800
      equityQuote := .ofRat 18 9800, takenAt := dayStart noon + 900000000 }] }

/-- The day opened at 10000. -/
theorem lossyDay_opening {now : Instant} (fallback : ℚ) (hday : dayStart now = dayStart noon) :
    lossyDay.dayOpeningEquity "BTC/USDT" now fallback = 10000 := by
  have hfirst : ((lossyDay.snapshotsFor "BTC/USDT").filter (dayStart noon ≤ ·.takenAt)).argmin
      (·.takenAt) = some openingRow := by
    decide +kernel
  have hopening : openingRow.equityQuote.toRat = 10000 := by decide +kernel
  rw [Database.dayOpeningEquity, hday, hfirst]
  exact hopening

/-- The day has lost more than its limit. -/
theorem lossyDay_tripped : Tripped "BTC/USDT" 10000 100 (dayStart noon) lossyDay where
  flat := rfl
  opened := ⟨openingRow, by decide +kernel, le_rfl⟩
  lost now fallback hday := by
    have hlost : lossyDay.loadCash "BTC/USDT" 10000 - 10000 ≤ -100 := by decide +kernel
    rwa [lossyDay_opening fallback hday]

/-- A market at 100 that the strategy wants to buy into, at noon and a bar later. -/
def eagerBuys : List TradingCycle :=
  [simulatedCycle (flatMarket 100 10 5) (fixedStrategy .buy 1) defaultLimits 10000 noon,
    simulatedCycle (flatMarket 100 10 5) (fixedStrategy .buy 1) defaultLimits 10000
      (noon + 900000000)]

/-- Both cycles commit, and neither buys. -/
theorem loss_limit_latches_eagerBuys : ∃ db, commitAll lossyDay eagerBuys = some db ∧
    db.equitySnapshots.length = 4 ∧ db.orders = lossyDay.orders := by
  obtain ⟨db, hdb, hrows⟩ : ∃ db, commitAll lossyDay eagerBuys = some db ∧
      db.equitySnapshots.length = 4 := by
    have hsome : (commitAll lossyDay eagerBuys).any (fun db =>
        db.equitySnapshots.length = 4) = true := by
      decide +kernel
    simpa [Option.any_eq_true] using hsome
  have hday : ∀ c ∈ eagerBuys, c.WithinDay "BTC/USDT" 10000 100 (dayStart noon) := by
    simp only [eagerBuys, List.forall_mem_cons]
    exact ⟨⟨rfl, rfl, rfl, le_rfl⟩, ⟨rfl, rfl, by decide, le_rfl⟩, List.forall_mem_nil _⟩
  exact ⟨db, hdb, hrows, (loss_limit_latches lossyDay_tripped hday (by decide) (by decide +kernel)
    (attempted_of_committed (runs_of_commitAll hdb))).2.1.orders⟩

end TradingBot
