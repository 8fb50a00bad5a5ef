import TradingBot.Spec.Ledger
import TradingBot.Spec.Scenario

/-!
# The opening equity of a day

Each cycle after the first of a UTC day reads back the equity that the day's first
snapshot recorded, so these cycles share one opening equity. The first cycle finds no
snapshot and falls back on the equity it loaded, before its own order: its row differs
from the others by what that order changed the equity by.
-/

namespace TradingBot

open FixedPoint Database

/-! ## The row a cycle wrote -/

/-- A cycle of a sequence wrote a snapshot, on the rows it found. -/
structure Wrote (cycles : List TradingCycle) (db : Database) (c : TradingCycle)
    (found : Database) (p : Prepared) (s : Settlement) (row : EquitySnapshotRecord) : Prop where
  reached : ∃ before, before ++ [c] <+: cycles ∧ Runs Attempted Database.empty before found
  committed : ∃ after sent, c.Commits found after p s sent
  row_eq : row = c.snapshotRow p s
  rows : found.equitySnapshots ++ [row] <+: db.equitySnapshots

/-- A row stays written when the sequence goes on. -/
theorem Wrote.snoc {cycles : List TradingCycle} {db db' : Database} {c : TradingCycle}
    {found : Database} {p : Prepared} {s : Settlement} {row : EquitySnapshotRecord}
    (h : Wrote cycles db c found p s row) (next : TradingCycle)
    (hgrows : db.equitySnapshots <+: db'.equitySnapshots) :
    Wrote (cycles ++ [next]) db' c found p s row where
  reached :=
    have ⟨before, hbefore, hreach⟩ := h.reached
    ⟨before, hbefore.trans (List.prefix_append _ _), hreach⟩
  committed := h.committed
  row_eq := h.row_eq
  rows := h.rows.trans hgrows

/-- Every snapshot was written by a cycle. -/
theorem exists_wrote {cycles : List TradingCycle} {db : Database}
    (hrun : Runs Attempted Database.empty cycles db) {row : EquitySnapshotRecord}
    (hrow : row ∈ db.equitySnapshots) : ∃ c found p s, Wrote cycles db c found p s row := by
  -- on the run: a row is from its last step or was there before
  induction hrun with
  | nil => exact absurd hrow List.not_mem_nil
  | @snoc before t u c hinit hlast ih =>
    rcases hlast with hcommitted | rfl
    · obtain ⟨p, s, sent, h⟩ := hcommitted.commits
      have happend : u.equitySnapshots = t.equitySnapshots ++ [c.snapshotRow p s] := by
        rw [h.tables, Transaction.applyTo_equitySnapshots, TradingCycle.pending_equity]
      rw [happend] at hrow
      rcases List.mem_append.mp hrow with hrow | hrow
      · obtain ⟨k, found, q, r, hwrote⟩ := ih hrow
        exact ⟨k, found, q, r, hwrote.snoc c (happend ▸ List.prefix_append _ _)⟩
      · obtain rfl := List.mem_singleton.mp hrow
        exact ⟨c, t, p, s, ⟨before, List.prefix_rfl, hinit⟩, ⟨u, sent, h⟩, rfl,
          happend ▸ List.prefix_rfl⟩
    · obtain ⟨k, found, q, r, hwrote⟩ := ih hrow
      exact ⟨k, found, q, r, hwrote.snoc c List.prefix_rfl⟩

/-- Snapshots are in the order of their clocks. -/
theorem snapshots_increasing {cycles : List TradingCycle} {db : Database}
    (hrun : Runs Attempted Database.empty cycles db)
    (hclock : cycles.Pairwise (·.clock < ·.clock)) :
    db.equitySnapshots.Pairwise (·.takenAt < ·.takenAt) := by
  refine attempted_invariant (P := fun db => db.equitySnapshots.Pairwise (·.takenAt < ·.takenAt))
    hrun hclock nofun .nil fun db c db' p s sent _ hnew hdb h => ?_
  rw [h.tables, Transaction.applyTo_equitySnapshots, List.pairwise_append]
  exact ⟨hdb, List.pairwise_singleton _ _, fun r hr r' hr' => by
    rw [List.mem_singleton.mp hr']
    exact hnew r hr⟩

/-- A moment has at most one snapshot. -/
theorem eq_of_takenAt {cycles : List TradingCycle} {db : Database}
    (hrun : Runs Attempted Database.empty cycles db)
    (hclock : cycles.Pairwise (·.clock < ·.clock)) {r r' : EquitySnapshotRecord}
    (hr : r ∈ db.equitySnapshots) (hr' : r' ∈ db.equitySnapshots)
    (hsame : r.takenAt = r'.takenAt) : r = r' := by
  have hnodup : (db.equitySnapshots.map (·.takenAt)).Nodup :=
    List.pairwise_map.mpr ((snapshots_increasing hrun hclock).imp ne_of_lt)
  exact List.inj_on_of_nodup_map hnodup hr hr' hsame

/-! ## The day of a snapshot -/

/-- A snapshot is the first one of its symbol in its UTC day. -/
def Database.FirstOfDay (db : Database) (first : EquitySnapshotRecord) : Prop :=
  ∀ r ∈ db.snapshotsFor first.symbol, dayStart r.takenAt = dayStart first.takenAt →
    first.takenAt ≤ r.takenAt

/-- The day of a moment starts at or before it. -/
theorem dayStart_le (now : Instant) : dayStart now ≤ now :=
  Int.ediv_mul_le now (by decide)

/-- What was taken since midnight, and not later than now, was taken today. -/
theorem dayStart_eq_iff {earlier now : Instant} (hle : earlier ≤ now) :
    dayStart now ≤ earlier ↔ dayStart earlier = dayStart now := by
  have hday : (0 : ℤ) < dayMicros := by decide
  constructor
  · intro hsince
    have hlow : now / dayMicros ≤ earlier / dayMicros := (Int.le_ediv_iff_mul_le hday).mpr hsince
    have hhigh : earlier / dayMicros ≤ now / dayMicros := Int.ediv_le_ediv hday hle
    rw [dayStart, dayStart, hhigh.antisymm hlow]
  · intro hsame
    exact hsame ▸ dayStart_le earlier

section Opening

variable {cycles : List TradingCycle} {db : Database} {symbol : String}
  (hrun : Runs Attempted Database.empty cycles db)
  (hclock : cycles.Pairwise (·.clock < ·.clock)) (hsymbol : ∀ c ∈ cycles, c.symbol = symbol)
  {c : TradingCycle} {found : Database} {p : Prepared} {s : Settlement}
  {row : EquitySnapshotRecord}

include hrun hclock in
/-- A cycle finds exactly the snapshots that are older than its own. -/
theorem Wrote.mem_found_iff (h : Wrote cycles db c found p s row) {r : EquitySnapshotRecord}
    (hr : r ∈ db.equitySnapshots) : r ∈ found.equitySnapshots ↔ r.takenAt < row.takenAt := by
  have hordered := snapshots_increasing hrun hclock
  -- the rows found come before its own, all others after it
  obtain ⟨later, hall⟩ := h.rows
  rw [← hall, List.append_assoc, List.singleton_append, List.pairwise_append] at hordered
  obtain ⟨-, hlater, hearlier⟩ := hordered
  constructor
  · intro hfound
    exact hearlier r hfound row List.mem_cons_self
  · intro hlt
    rw [← hall, List.append_assoc, List.singleton_append] at hr
    rcases List.mem_append.mp hr with hfound | hr
    · exact hfound
    · rcases List.mem_cons.mp hr with rfl | hr
      · exact absurd hlt (lt_irrefl _)
      · exact absurd hlt ((List.pairwise_cons.mp hlater).1 r hr).not_gt

include hsymbol in
/-- The cycle that wrote a row of the symbol is on the symbol. -/
private theorem Wrote.symbol_eq (h : Wrote cycles db c found p s row) : c.symbol = symbol := by
  obtain ⟨before, hbefore, -⟩ := h.reached
  exact hsymbol c (hbefore.subset (by simp))

/-- The snapshots of today that a cycle finds. -/
private theorem Wrote.mem_today_iff (h : Wrote cycles db c found p s row)
    (hrun : Runs Attempted Database.empty cycles db)
    (hclock : cycles.Pairwise (·.clock < ·.clock)) {r : EquitySnapshotRecord} :
    r ∈ (found.snapshotsFor c.symbol).filter (dayStart c.clock ≤ ·.takenAt) ↔
      r ∈ db.snapshotsFor c.symbol ∧ r.takenAt < row.takenAt ∧
        dayStart r.takenAt = dayStart row.takenAt := by
  have htaken : row.takenAt = c.clock := by rw [h.row_eq]; rfl
  have hkept : r ∈ found.equitySnapshots → r ∈ db.equitySnapshots := fun hr =>
    h.rows.subset (List.mem_append_left _ hr)
  simp only [List.mem_filter, decide_eq_true_eq, Database.snapshotsFor, ← htaken]
  constructor
  · rintro ⟨⟨hfound, hsym⟩, hsince⟩
    have hlt := (h.mem_found_iff hrun hclock (hkept hfound)).mp hfound
    exact ⟨⟨hkept hfound, hsym⟩, hlt, (dayStart_eq_iff hlt.le).mp hsince⟩
  · rintro ⟨⟨hr, hsym⟩, hlt, hday⟩
    exact ⟨⟨(h.mem_found_iff hrun hclock hr).mpr hlt, hsym⟩, (dayStart_eq_iff hlt.le).mpr hday⟩

include hrun hclock hsymbol in
/-- A later row of a day has the equity of the day's first row as its opening equity. -/
theorem Wrote.later_row (h : Wrote cycles db c found p s row) {first : EquitySnapshotRecord}
    (hfirst : first ∈ db.snapshotsFor symbol) (hopens : db.FirstOfDay first)
    (hday : dayStart first.takenAt = dayStart row.takenAt) (hlt : first.takenAt < row.takenAt) :
    row.dayOpeningEquity = first.equityQuote := by
  obtain rfl := h.symbol_eq hsymbol
  have hfirst_today := (h.mem_today_iff hrun hclock).mpr ⟨hfirst, hlt, hday⟩
  obtain ⟨after, sent, hcommits⟩ := h.committed
  have hopening := hcommits.prepared.account_eq.2.2.2
  have hread : p.account.dayOpeningEquity = first.equityQuote.toRat := by
    rw [hopening, Database.dayOpeningEquity]
    cases hmin : ((found.snapshotsFor c.symbol).filter
        (dayStart c.clock ≤ ·.takenAt)).argmin (·.takenAt) with
    | none =>
      rw [List.argmin_eq_none.mp hmin] at hfirst_today
      exact absurd hfirst_today List.not_mem_nil
    | some m =>
      -- the earliest snapshot of today and the first row of the day are the same
      obtain ⟨hm, -, hmday⟩ := (h.mem_today_iff hrun hclock).mp (List.argmin_mem hmin)
      have hsym : first.symbol = c.symbol := by simpa using (List.mem_filter.mp hfirst).2
      have hle : m.takenAt ≤ first.takenAt := List.le_of_mem_argmin hfirst_today hmin
      have hge : first.takenAt ≤ m.takenAt := hopens m (hsym ▸ hm) (hmday.trans hday.symm)
      have hsame : m = first := eq_of_takenAt hrun hclock (List.mem_filter.mp hm).1
        (List.mem_filter.mp hfirst).1 (hle.antisymm hge)
      rw [hsame]
  rw [h.row_eq]
  exact (congrArg (Numeric.ofRat 18) hread).trans (Numeric.ofRat_toRat _)

include hrun hclock in
/-- The first row of a day has the equity that was loaded as its opening equity. -/
theorem Wrote.first_row (h : Wrote cycles db c found p s row) (hopens : db.FirstOfDay row) :
    p.account.dayOpeningEquity = p.account.equityAt p.markPrice := by
  obtain ⟨after, sent, hcommits⟩ := h.committed
  have hnone : (found.snapshotsFor c.symbol).filter (dayStart c.clock ≤ ·.takenAt) = [] := by
    refine List.eq_nil_iff_forall_not_mem.mpr fun r hr => ?_
    obtain ⟨hr, hlt, hday⟩ := (h.mem_today_iff hrun hclock).mp hr
    have hsym : row.symbol = c.symbol := by rw [h.row_eq]; rfl
    exact absurd hlt (hopens r (hsym ▸ hr) hday).not_gt
  rw [hcommits.prepared.account_eq.2.2.2, Database.dayOpeningEquity, hnone]
  rfl

end Opening

/-! ## One opening equity -/

/-- What a settlement changed the equity by, at the mark price. An order of the simulator
    loses what it costs. -/
def Settlement.gain (s : Settlement) (markPrice : ℚ) : ℚ :=
  (s.filled.map fun f => f.cashFlow + f.signedQuantity * markPrice).sum

/-- A settlement leaves the equity that was loaded, changed by its fills. -/
theorem Settlement.Moves.equity_eq {s : Settlement} {account : AccountState}
    (h : s.Moves account) (markPrice : ℚ) :
    s.cash + s.position.notionalAt markPrice = account.equityAt markPrice + s.gain markPrice := by
  have hgain : s.gain markPrice = (s.filled.map Fill.cashFlow).sum +
      (s.filled.map Fill.signedQuantity).sum * markPrice := by
    unfold Settlement.gain
    induction s.filled with
    | nil => simp
    | cons f fs ih =>
      simp only [List.map_cons, List.sum_cons, ih]
      ring
  rw [hgain, h.cash, Position.notionalAt, h.quantity, AccountState.equityAt,
    Position.notionalAt]
  ring

/-- All snapshots of a symbol in one UTC day have the same opening equity. -/
def OneOpening (db : Database) (symbol : String) : Prop :=
  ∀ r ∈ db.snapshotsFor symbol, ∀ r' ∈ db.snapshotsFor symbol,
    dayStart r.takenAt = dayStart r'.takenAt → r.dayOpeningEquity = r'.dayOpeningEquity

instance (db : Database) (symbol : String) : Decidable (OneOpening db symbol) :=
  inferInstanceAs (Decidable (∀ r ∈ db.snapshotsFor symbol, ∀ r' ∈ db.snapshotsFor symbol, _))

end TradingBot
