import TradingBot.Spec.Ledger
import TradingBot.Spec.Scenario

/-!
# Replaying a traded snapshot

Once a cycle committed an order for a snapshot, a later cycle of the same strategy on
the same snapshot leaves the ledger as it is, whatever the account has become: its
signal is the same, so the only order it can be approved is on the same side, and that
order is known.
-/

namespace TradingBot

open FixedPoint

/-- Everything but the signals and the equity history is as before, and so is the cash
    the next cycle loads. -/
structure SameLedger (symbol : String) (db db' : Database) : Prop where
  orders : db'.orders = db.orders
  fills : db'.fills = db.fills
  positions : db'.positions = db.positions
  cash : ∀ initial, db'.loadCash symbol initial = db.loadCash symbol initial

/-- What is loaded from a symbol that has snapshots does not depend on the initial cash,
    and fits the column it came from. -/
theorem Database.loadCash_of_snapshot {db : Database} {symbol : String}
    {row : EquitySnapshotRecord} (hrow : row ∈ db.snapshotsFor symbol) :
    ∃ cash ∈ Grid ℚ 18, ∀ initial, db.loadCash symbol initial = cash := by
  cases hlatest : db.latestSnapshotFor symbol with
  | none =>
    rw [List.argmax_eq_none.mp hlatest] at hrow
    exact absurd hrow List.not_mem_nil
  | some latest =>
    exact ⟨latest.cashQuote.toRat, Numeric.toRat_mem _, fun _ => by simp [loadCash, hlatest]⟩

namespace TradingCycle

variable {c e : TradingCycle} {db db' t u : Database} {p q : Prepared} {s : Settlement}
  {sent : List OrderIntent}

/-- A cycle that sends nothing leaves the ledger as it is, once its symbol has a
    snapshot. -/
theorem Commits.sameLedger (h : c.Commits db db' p s []) {row : EquitySnapshotRecord}
    (hrow : row ∈ db.snapshotsFor c.symbol)
    (hnew : ∀ r ∈ db.equitySnapshots, r.takenAt < c.clock) : SameLedger c.symbol db db' := by
  obtain ⟨cash, hcash_mem, hloaded⟩ := Database.loadCash_of_snapshot hrow
  have hcash : p.account.cashQuote = cash :=
    h.prepared.account_eq.1.trans (hloaded c.initialCashQuote)
  have hlatest := h.latestSnapshotFor hnew
  have hsettled := h.settled
  -- without an order the settlement is the account that was loaded
  obtain ⟨suppressed, rfl⟩ : ∃ suppressed, s = .unchanged p.account suppressed := by
    cases hsettled with
    | held => exact ⟨false, rfl⟩
    | suppressed => exact ⟨true, rfl⟩
  have hstored : (c.snapshotRow p (.unchanged p.account suppressed)).cashQuote.toRat = cash := by
    show (Numeric.ofRat 18 p.account.cashQuote).toRat = cash
    rw [hcash, Numeric.toRat_ofRat_of_mem hcash_mem]
  refine ⟨?_, ?_, ?_, fun initial => ?_⟩
  · simp [h.tables, Settlement.unchanged]
  · simp [h.tables, Settlement.unchanged]
  · simp [h.tables, Settlement.unchanged, Transaction.positionsAfter]
  · rw [hloaded, Database.loadCash, hlatest]
    exact hstored

/-- The strategy and the snapshot settle which order can be approved: two cycles of one
    strategy on one snapshot can only be approved orders of the same id. -/
theorem Prepares.same_order_id (hp : e.Prepares t p) (hq : c.Prepares db q)
    (hstrategy : c.strategy = e.strategy) (hsnapshot : q.snapshot = p.snapshot)
    {i j : OrderIntent} (hi : p.decision.intent = some i) (hj : q.decision.intent = some j) :
    j.clientOrderId = i.clientOrderId := by
  have hsignal : q.signal = p.signal := by
    have hevaluated := hq.evaluated
    rw [hstrategy, hsnapshot, hp.evaluated] at hevaluated
    exact (Except.ok.inj hevaluated).symm
  obtain ⟨hi_approved, hi_id, -, -⟩ := hp.intent_eq hi
  obtain ⟨hj_approved, hj_id, -, -⟩ := hq.intent_eq hj
  -- the side follows from the action alone, whatever the two accounts are
  have hside : j.side = i.side := PolicyEngine.sideAction_injective <| by
    rw [← PolicyEngine.approves_action hi_approved, ← PolicyEngine.approves_action hj_approved,
      hsignal]
  rw [hi_id, hj_id, hside, hp.cycleId_eq, hq.cycleId_eq, hsnapshot]

/-- A cycle that committed an order sent it, and its row carries its id. -/
theorem Commits.order_sent (h : e.Commits t u p s sent) (horder : s.order ≠ none) :
    ∃ i, p.decision.intent = some i ∧ ∃ row ∈ u.orders, row.clientOrderId = i.clientOrderId := by
  rcases h.settled.order_cases with ⟨hnone, -, -⟩ | ⟨i, row, hi, -, -, hrow, hid, -⟩
  · exact absurd hnone horder
  · refine ⟨i, hi, row, ?_, hid⟩
    simp [h.tables, hrow]

/-- The order of an earlier cycle on the same snapshot is known to any cycle that could be
    approved one. -/
theorem Commits.known (h : e.Commits t u p s sent) (horder : s.order ≠ none)
    (hgrows : Grows u db) (hstrategy : c.strategy = e.strategy)
    (hfetch : c.gateway.fetchSnapshot c.symbol c.timeframe c.candleLimit = .ok p.snapshot)
    {j : OrderIntent} (hq : c.Prepares db q) (hj : q.decision.intent = some j) :
    db.alreadyExecuted j.clientOrderId = true := by
  obtain ⟨i, hi, row, hrow, hid⟩ := h.order_sent horder
  have hsnapshot : q.snapshot = p.snapshot := Except.ok.inj (hq.fetched.symm.trans hfetch)
  rw [h.prepared.same_order_id hq hstrategy hsnapshot hi hj]
  exact Database.alreadyExecuted_iff.mpr ⟨row, hgrows.orders.subset hrow, hid⟩

/-- A cycle whose only possible orders are known sends nothing. -/
theorem outcome_sent_of_known (hknown : ∀ q j, c.Prepares db q → q.decision.intent = some j →
    db.alreadyExecuted j.clientOrderId = true) : (c.outcome db).2 = [] := by
  rcases c.outcome_sent db with ⟨-, hnone⟩ | ⟨q, j, hq, hj, hnew, -⟩
  · exact hnone
  · simp [hknown q j hq hj] at hnew

/-- A cycle that sent nothing has refused the order, or found it known. -/
theorem outcome_refused_or_suppressed {r : CycleResult}
    (h : c.outcome db = (.ok (r, db'), [])) :
    r.execution = none ∧ (r.decision.outcome = .hold ∨ r.duplicateSuppressed = true) := by
  obtain ⟨q, s, hcommits, hdecision, hexecution, hduplicate⟩ := outcome_ok h
  have hsettled := hcommits.settled
  cases hsettled with
  | held hnone =>
    refine ⟨hexecution, .inl ?_⟩
    rw [hdecision]
    exact PolicyDecision.outcome_eq_hold_iff.mpr hnone
  | suppressed => exact ⟨hexecution, .inr hduplicate⟩

end TradingCycle

/-! ## At any distance from the original cycle -/

section Replay

variable {before between : List TradingCycle} {original replay : TradingCycle}
  {t u db : Database} {p : Prepared} {s : Settlement} {sent : List OrderIntent}

/-- Replaying a traded snapshot is a no-op on the ledger: after a run in which a cycle
    committed an order for a snapshot, a cycle on that snapshot submits nothing, and if it
    commits it leaves orders, fills, positions and cash unchanged, having refused the order
    or found it known. -/
theorem replay_is_noop (hbefore : Runs Attempted Database.empty before t)
    (horiginal : original.Commits t u p s sent) (hordered : s.order ≠ none)
    (hbetween : Runs Attempted u between db) (hsymbol : replay.symbol = original.symbol)
    (hstrategy : replay.strategy = original.strategy)
    (hclock : (before ++ original :: between ++ [replay]).Pairwise (·.clock < ·.clock))
    (hfetch : replay.gateway.fetchSnapshot replay.symbol replay.timeframe replay.candleLimit =
      .ok p.snapshot) :
    (replay.outcome db).2 = [] ∧
      ∀ r db', (replay.outcome db).1 = .ok (r, db') → SameLedger replay.symbol db db' ∧
        r.execution = none ∧ (r.decision.outcome = .hold ∨ r.duplicateSuppressed = true) := by
  obtain ⟨-, -, hnewest⟩ := List.pairwise_append.mp hclock
  have hnewer : ∀ c ∈ before ++ original :: between, c.clock < replay.clock :=
    fun c hc => hnewest c hc replay (List.mem_singleton_self _)
  -- every snapshot is older than the replay, and the original's is one of its symbol
  have hold : ∀ r ∈ t.equitySnapshots, r.takenAt < replay.clock :=
    takenAt_lt_of_attempted hbefore (by simp [Database.empty]) fun c hc => hnewer c (by simp [hc])
  have hold' : ∀ r ∈ u.equitySnapshots, r.takenAt < replay.clock := by
    rw [horiginal.tables, Transaction.applyTo_equitySnapshots, List.forall_mem_append]
    exact ⟨hold, by simpa using hnewer original (by simp)⟩
  have hnew := takenAt_lt_of_attempted hbetween hold' fun c hc => hnewer c (by simp [hc])
  have hgrows := grows_of_attempted hbetween
  have hsnapshot : original.snapshotRow p s ∈ db.snapshotsFor replay.symbol := by
    refine List.mem_filter.mpr ⟨hgrows.equitySnapshots.subset ?_, ?_⟩
    · simp [horiginal.tables]
    · simp [hsymbol]
  have hnothing : (replay.outcome db).2 = [] := TradingCycle.outcome_sent_of_known
    fun q j hq hj => horiginal.known hordered hgrows hstrategy hfetch hq hj
  refine ⟨hnothing, fun r db' hcommitted => ?_⟩
  have houtcome : replay.outcome db = (.ok (r, db'), []) := Prod.ext hcommitted hnothing
  obtain ⟨q, s', hcommits, -⟩ := TradingCycle.outcome_ok houtcome
  exact ⟨hcommits.sameLedger hsnapshot hnew, TradingCycle.outcome_refused_or_suppressed houtcome⟩

end Replay

/-- The cycle of noon, replayed a minute later. -/
theorem replay_is_noop_noonCycle : ∃ u, commitAll Database.empty [noonCycle 104 noon] = some u ∧
    u.orders.length = 1 ∧ ((noonCycle 104 (noon + 60000000)).outcome u).2 = [] := by
  obtain ⟨u, hu, hcount⟩ : ∃ u, commitAll Database.empty [noonCycle 104 noon] = some u ∧
      u.orders.length = 1 := by
    have hsome : (commitAll Database.empty [noonCycle 104 noon]).any (·.orders.length = 1) =
        true := by decide +kernel
    simpa [Option.any_eq_true] using hsome
  obtain ⟨t, hinit, hlast⟩ := Runs.snoc_iff.mp (runs_of_commitAll hu : Runs _ _ ([] ++ [_]) _)
  obtain rfl := Runs.nil_iff.mp hinit
  obtain ⟨p, s, sent, h⟩ := hlast.commits
  have hordered : s.order ≠ none := by
    intro hnone
    simp [h.tables, hnone, Database.empty] at hcount
  have hsymbol : (noonCycle 104 (noon + 60000000)).symbol = (noonCycle 104 noon).symbol := rfl
  have hreplay := replay_is_noop .nil h hordered .nil hsymbol rfl
    (by simp [noonCycle, buildCycle]) h.prepared.fetched
  exact ⟨u, hu, hcount, hreplay.1⟩

end TradingBot
