import TradingBot.Overlap
import TradingBot.Spec.Ledger
import TradingBot.Spec.Scenario

/-!
# Lost updates between overlapping runs

A run stores the cash and the quantity it computed from what it loaded at its start, and
nothing checks that these are still current when it commits. An interleaving keeps the
ledger in agreement with the fills exactly when every commit finds the balances it
replaces as it had loaded them.
-/

namespace TradingBot

open FixedPoint

/-! ## One commit -/

namespace TradingCycle

/-- What a commit replaces is what the run had loaded, and what it does not replace its
    fills do not move. The cash is replaced when the snapshot is the newest one, the
    quantity when its column is set. -/
structure Current (c : TradingCycle) (db : Database) (p : Prepared) (s : Settlement) :
    Prop where
  cash : (∀ r ∈ db.snapshotsFor c.symbol, r.takenAt < c.clock) →
    p.account.cashQuote = db.loadCash c.symbol c.initialCashQuote
  cash_aside : (∃ r ∈ db.snapshotsFor c.symbol, c.clock ≤ r.takenAt) →
    (s.filled.map Fill.cashFlow).sum = 0
  quantity : s.setsQuantity = true → p.account.position.quantity = db.heldQuantity c.symbol
  quantity_aside : s.setsQuantity = false → (s.filled.map Fill.signedQuantity).sum = 0

/-- The cash that was loaded, and the fills, have at most 18 decimals. -/
structure Exact (p : Prepared) (s : Settlement) : Prop where
  cash : p.account.cashQuote ∈ Grid ℚ 18
  fills : ∀ f ∈ s.filled, f.Exact

variable {c : TradingCycle} {db found : Database} {p : Prepared} {s : Settlement}

/-- A commit keeps the ledger in agreement exactly when it is current. -/
theorem agrees_iff_current (hp : c.Prepares found p) (hmoves : s.Moves p.account)
    (hexact : Exact p s) (hfits : (c.pending p s).Fits db)
    (hdb : db.Agrees c.symbol c.initialCashQuote) :
    ((c.pending p s).applyTo db).Agrees c.symbol c.initialCashQuote ↔ c.Current db p s := by
  obtain ⟨-, hsym, hheld, -⟩ := hp.account_eq
  have hqty : p.account.position.quantity ∈ Grid ℚ 18 := hheld ▸ found.heldQuantity_mem c.symbol
  have hcash : (((c.pending p s).applyTo db).cashJournal c.symbol c.initialCashQuote).InSync
      c.initialCashQuote ↔
        ((∀ r ∈ db.snapshotsFor c.symbol, r.takenAt < c.clock) →
          p.account.cashQuote = db.loadCash c.symbol c.initialCashQuote) ∧
        ((∃ r ∈ db.snapshotsFor c.symbol, c.clock ≤ r.takenAt) →
          (s.filled.map Fill.cashFlow).sum = 0) := by
    -- the snapshot becomes the newest one, or the cash that is read stays another's
    by_cases hnew : ∀ r ∈ db.snapshotsFor c.symbol, r.takenAt < c.clock
    · have hnone : ¬∃ r ∈ db.snapshotsFor c.symbol, c.clock ≤ r.takenAt := by
        rintro ⟨r, hr, hlate⟩
        exact absurd (hnew r hr) hlate.not_gt
      rw [hmoves.cashJournal hexact.fills hexact.cash _ hnew, hdb.1.post_iff]
      exact ⟨fun h => ⟨fun _ => h, fun hlate => absurd hlate hnone⟩, fun h => h.1 hnew⟩
    · obtain ⟨r, hr, hlate⟩ : ∃ r ∈ db.snapshotsFor c.symbol, c.clock ≤ r.takenAt := by
        simpa using hnew
      rw [hmoves.cashJournal_late hexact.fills _ hr hlate, hdb.1.postAside_iff]
      exact ⟨fun h => ⟨fun hall => absurd hall hnew, fun _ => h⟩, fun h => h.2 ⟨r, hr, hlate⟩⟩
  have hquantity : (((c.pending p s).applyTo db).inventory c.symbol).InSync 0 ↔
      (s.setsQuantity = true → p.account.position.quantity = db.heldQuantity c.symbol) ∧
        (s.setsQuantity = false → (s.filled.map Fill.signedQuantity).sum = 0) := by
    -- likewise for the quantity column
    cases hset : s.setsQuantity with
    | true =>
      rw [hmoves.inventory_set hexact.fills hsym hqty hfits hset, hdb.2.post_iff]
      simp [Database.inventory]
    | false =>
      rw [hmoves.inventory_kept hexact.fills hsym hset, hdb.2.postAside_iff]
      simp
  rw [Database.Agrees, hcash, hquantity]
  constructor
  · rintro ⟨⟨hread, haside⟩, hqread, hqaside⟩
    exact ⟨hread, haside, hqread, hqaside⟩
  · intro h
    exact ⟨⟨h.cash, h.cash_aside⟩, h.quantity, h.quantity_aside⟩

end TradingCycle

/-! ## Phases -/

namespace Phase

/-- What is known of a run in each of its phases: it was prepared on the rows of some
    earlier moment, and it settles what it loaded. -/
inductive Sound (c : TradingCycle) : Phase → Prop
  | idle : Sound c .idle
  | prepared {p : Prepared} (found : Database) : c.Prepares found p → Sound c (.prepared p)
  | admitted {p : Prepared} {i : OrderIntent} (found : Database) : c.Prepares found p →
      p.decision.intent = some i → Sound c (.admitted p i)
  | answered {p : Prepared} {i : OrderIntent} {x : Executed} (found : Database) :
      c.Prepares found p → p.decision.intent = some i → c.Sends p i x → Sound c (.answered p x)
  | unchanged {p : Prepared} (found : Database) (suppressed : Bool) : c.Prepares found p →
      Sound c (.settled p (.unchanged p.account suppressed))
  | settled {p : Prepared} {i : OrderIntent} {x : Executed} (found tables : Database) :
      c.Prepares found p → p.decision.intent = some i → c.Sends p i x →
      Sound c (.settled p (c.settle tables x))
  | committed (r : CycleResult) : Sound c (.committed r)
  | failed (e : Error) : Sound c (.failed e)

variable {c : TradingCycle} {p : Prepared} {s : Settlement}

/-- A settled run was prepared, and moves the account it was prepared with. -/
theorem Sound.moves (h : Sound c (.settled p s)) :
    (∃ found, c.Prepares found p) ∧ s.Moves p.account := by
  cases h with
  | unchanged found suppressed hp => exact ⟨⟨found, hp⟩, Settlement.unchanged_moves _ _⟩
  | settled found tables hp _ hsends => exact ⟨⟨found, hp⟩, hsends.moves tables⟩

/-- On the simulator all amounts fit their columns. -/
theorem Sound.exact {x : SimulatedExchange} (hx : c.SubmitsTo x)
    (hinitial : c.initialCashQuote ∈ Grid ℚ 18) (h : Sound c (.settled p s)) :
    TradingCycle.Exact p s := by
  obtain ⟨⟨found, hp⟩, -⟩ := h.moves
  have hcash : p.account.cashQuote ∈ Grid ℚ 18 :=
    hp.account_eq.1 ▸ Database.loadCash_mem hinitial
  cases h with
  | unchanged => exact ⟨hcash, nofun⟩
  | settled _ tables _ hintent hsends =>
    have hsettles : c.Settles Database.empty p _ _ := .sent hintent rfl hsends
    exact ⟨hcash, fun f hf => hx.exact hp hsettles f hf⟩

/-- A step of a run leaves it sound. -/
theorem Sound.advance {phase : Phase} (h : Sound c phase) (db : Database) :
    Sound c (c.advance (phase, db)).1 := by
  -- one case for each phase: it goes on with what it was prepared with, or fails
  cases h with
  | idle =>
    cases hprepare : c.prepare db with
    | error e =>
      simp only [TradingCycle.advance, hprepare]
      exact .failed e
    | ok p =>
      simp only [TradingCycle.advance, hprepare]
      exact .prepared db (TradingCycle.prepare_ok.mp hprepare)
  | @prepared p found hp =>
    cases houtcome : p.decision.outcome with
    | hold =>
      simp only [TradingCycle.advance, houtcome]
      exact .unchanged found false hp
    | submit =>
      obtain ⟨i, hi⟩ := PolicyDecision.exists_intent houtcome
      simp only [TradingCycle.advance, houtcome, hi]
      split
      · exact .unchanged found true hp
      · exact .admitted found hp hi
  | @admitted p i found hp hi =>
    rcases hsend : (c.send p i).eval [] with ⟨e | x, sent⟩
    · simp only [TradingCycle.advance, hsend]
      exact .failed e
    · simp only [TradingCycle.advance, hsend]
      exact .answered found hp hi (TradingCycle.send_ok.mp hsend).1
  | @answered p i x found hp hi hsends => exact .settled found db hp hi hsends
  | @unchanged p found suppressed hp =>
    rw [TradingCycle.advance_settled]
    cases c.finish p (.unchanged p.account suppressed) db with
    | error e => exact .failed e
    | ok result => exact .committed result.1
  | @settled p i x found tables hp hi hsends =>
    rw [TradingCycle.advance_settled]
    cases c.finish p (c.settle tables x) db with
    | error e => exact .failed e
    | ok result => exact .committed result.1
  | committed r => exact .committed r
  | failed e => exact .failed e

end Phase

namespace TradingCycle

/-- A step commits a settled run, or it leaves the rows as they are. -/
theorem advance_tables (c : TradingCycle) (phase : Phase) (db : Database) :
    ((c.advance (phase, db)).2 = db ∧
        ∀ p s r db', phase = .settled p s → c.finish p s db ≠ .ok (r, db')) ∨
      ∃ p s r db', phase = .settled p s ∧ c.finish p s db = .ok (r, db') ∧
        (c.advance (phase, db)).2 = db' := by
  -- only the end of a settled run touches the rows
  cases phase with
  | idle =>
    refine .inl ⟨?_, by rintro _ _ _ _ ⟨⟩⟩
    simp only [advance]
    cases c.prepare db <;> rfl
  | prepared p =>
    refine .inl ⟨?_, by rintro _ _ _ _ ⟨⟩⟩
    simp only [advance]
    repeat' split
    all_goals rfl
  | admitted p i =>
    refine .inl ⟨?_, by rintro _ _ _ _ ⟨⟩⟩
    simp only [advance]
    rcases (c.send p i).eval [] with ⟨_ | _, _⟩ <;> rfl
  | settled p s =>
    rw [advance_settled]
    cases hfinish : c.finish p s db with
    | error e =>
      refine .inl ⟨rfl, ?_⟩
      rintro _ _ r db' ⟨⟩
      simp [hfinish]
    | ok result => exact .inr ⟨p, s, result.1, result.2, rfl, hfinish, rfl⟩
  | answered p x => exact .inl ⟨rfl, by rintro _ _ _ _ ⟨⟩⟩
  | committed r => exact .inl ⟨rfl, by rintro _ _ _ _ ⟨⟩⟩
  | failed e => exact .inl ⟨rfl, by rintro _ _ _ _ ⟨⟩⟩

end TradingCycle

/-! ## Interleavings -/

namespace Overlap

variable {ι : Type} [DecidableEq ι] {cycle : ι → TradingCycle} {symbol : String} {initial : ℚ}
  {o o' : Overlap ι} {i : ι}

/-- A step that is about to commit fits the columns. -/
def Exact (o : Overlap ι) (i : ι) : Prop :=
  ∀ p s, o.phase i = .settled p s → TradingCycle.Exact p s

/-- A step that commits is current. -/
def Current (cycle : ι → TradingCycle) (o : Overlap ι) (i : ι) : Prop :=
  ∀ p s r db', o.phase i = .settled p s → (cycle i).finish p s o.tables = .ok (r, db') →
    (cycle i).Current o.tables p s

/-- Every run of the interleaving is sound. -/
def Sound (cycle : ι → TradingCycle) (o : Overlap ι) : Prop :=
  ∀ i, (o.phase i).Sound (cycle i)

omit [DecidableEq ι] in
/-- Runs that have not begun are sound. -/
theorem sound_start (db : Database) : (start db : Overlap ι).Sound cycle := fun _ => .idle

/-- Every step keeps the runs sound, whoever takes it. -/
theorem Sound.step (ho : o.Sound cycle) (h : Steps cycle o i o') : o'.Sound cycle := by
  subst h
  intro j
  -- the others stay where they were
  by_cases hj : j = i
  · subst hj
    simpa [Overlap.step] using (ho j).advance o.tables
  · simpa [Overlap.step, hj] using ho j

/-- A step keeps the ledger in agreement exactly when it is current. -/
theorem agrees_step_iff (hsymbol : ∀ i, (cycle i).symbol = symbol)
    (hinitial : ∀ i, (cycle i).initialCashQuote = initial) (ho : o.Sound cycle)
    (hagrees : o.tables.Agrees symbol initial) (h : Steps cycle o i o') (hexact : o.Exact i) :
    o'.tables.Agrees symbol initial ↔ o.Current cycle i := by
  obtain rfl := hsymbol i
  obtain rfl := hinitial i
  have htables : o'.tables = ((cycle i).advance (o.phase i, o.tables)).2 := h ▸ rfl
  rcases (cycle i).advance_tables (o.phase i) o.tables with ⟨hsame, hnone⟩ |
    ⟨p, s, r, db', hphase, hfinish, hcommitted⟩
  · -- only a commit changes the rows
    refine iff_of_true (htables.trans hsame ▸ hagrees) fun p s r db' hphase hfinish => ?_
    exact absurd hfinish (hnone p s r db' hphase)
  -- the commit moves the ledger by the fills of the account it loaded
  · obtain ⟨⟨found, hp⟩, hmoves⟩ := (hphase ▸ ho i).moves
    obtain ⟨hfits, rfl⟩ := TradingCycle.finish_ok hfinish
    rw [htables, hcommitted, TradingCycle.agrees_iff_current hp hmoves (hexact p s hphase) hfits
      hagrees]
    constructor
    · rintro hcurrent q t r' db' hphase' -
      cases hphase.symm.trans hphase'
      exact hcurrent
    · intro hcurrent
      exact hcurrent p s r _ hphase hfinish

/-- Overlapping runs of a symbol, in whatever order they take their steps, keep the cash and
    the positions row in agreement with the committed fills exactly when every commit is
    current, provided that the amounts fit their columns. -/
theorem ledger_kept_iff_current (hsymbol : ∀ i, (cycle i).symbol = symbol)
    (hinitial : ∀ i, (cycle i).initialCashQuote = initial) {db : Database}
    (hdb : db.Agrees symbol initial) {schedule : List ι} :
    Runs (fun o i o' => (Steps cycle o i o' ∧ o.Exact i) ∧ o'.tables.Agrees symbol initial)
        (start db) schedule o ↔
      Runs (fun o i o' => (Steps cycle o i o' ∧ o.Exact i) ∧ o.Current cycle i)
        (start db) schedule o :=
  Runs.always_iff (I := Sound cycle) (sound_start db) hdb (fun _ _ _ ho h => ho.step h.1)
    fun _ _ _ ho hagrees h => agrees_step_iff hsymbol hinitial ho hagrees h.1 h.2

/-- On the simulator the amounts always fit their columns. -/
theorem exact_of_submitsTo (hinitial : ∀ i, (cycle i).initialCashQuote ∈ Grid ℚ 18)
    (hsubmits : ∀ i, ∃ x, (cycle i).SubmitsTo x) {Q : Overlap ι → ι → Overlap ι → Prop}
    {db : Database} {schedule : List ι}
    (hrun : Runs (fun o i o' => Steps cycle o i o' ∧ Q o i o') (start db) schedule o) :
    Runs (fun o i o' => (Steps cycle o i o' ∧ o.Exact i) ∧ Q o i o') (start db) schedule o := by
  induction hrun with
  | nil => exact .nil
  | @snoc _ t u i hinit hlast ih =>
    have hsound : t.Sound cycle := hinit.invariant (I := Sound cycle) (sound_start db)
      fun _ _ _ _ ho h => ho.step h.1
    obtain ⟨x, hx⟩ := hsubmits i
    have hexact : t.Exact i := fun p s hphase => (hphase ▸ hsound i).exact hx (hinitial i)
    exact .snoc ih ⟨⟨hlast.1, hexact⟩, hlast.2⟩

end Overlap

/-! ## A job fired twice -/

/-- The job of the bar at noon, fired again a minute later. -/
def firedTwice (again : Bool) : TradingCycle :=
  simulatedCycle (flatMarket 100 10 5) (fixedStrategy .buy (1 / 2)) defaultLimits 10000
    (if again then noon + 60000000 else noon)

instance (symbol : String) (initial : ℚ) (db : Database) : Decidable (db.Agrees symbol initial) :=
  inferInstanceAs (Decidable (_ = _ ∧ _ = _))

instance (phase : Phase) : Decidable phase.Ended :=
  match phase with
  | .idle | .prepared _ | .admitted _ _ | .answered _ _ | .settled _ _ => isFalse id
  | .committed _ | .failed _ => isTrue trivial

/-- The first run buys and commits before the second one starts. -/
theorem ledger_kept_iff_current_firedTwice : ∃ o,
    Runs (fun o i o' => (Overlap.Steps firedTwice o i o' ∧ o.Exact i) ∧ o.Current firedTwice i)
      (Overlap.start Database.empty) [false, false, false, false, false, true, true, true] o := by
  -- the ledger agrees after every step, by evaluation
  have hsome : ([false, false, false, false, false, true, true, true].foldlM (fun o i =>
      if (Overlap.step firedTwice o i).tables.Agrees "BTC/USDT" 10000 then
        some (Overlap.step firedTwice o i) else none)
      (Overlap.start Database.empty)).isSome = true := by
    decide +kernel
  obtain ⟨o, ho⟩ := Option.isSome_iff_exists.mp hsome
  have hrun : Runs (fun o i o' => Overlap.Steps firedTwice o i o' ∧
      o'.tables.Agrees "BTC/USDT" 10000) (Overlap.start Database.empty)
      [false, false, false, false, false, true, true, true] o := by
    refine (Runs.foldlM_eq_some.mp ho).mono fun o i o' h => ?_
    obtain ⟨hagrees, rfl⟩ := by simpa using h
    exact ⟨rfl, hagrees⟩
  have hsymbol : ∀ i, (firedTwice i).symbol = "BTC/USDT" := fun _ => rfl
  have hinitial : ∀ i, (firedTwice i).initialCashQuote = 10000 := fun _ => rfl
  have hmem : (10000 : ℚ) ∈ Grid ℚ 18 := mem_grid.mpr ⟨10000 * 10 ^ 18, by norm_num⟩
  have hexact := Overlap.exact_of_submitsTo (fun i => (hinitial i).symm ▸ hmem) (fun i =>
    ⟨_, (simulatedCycle_onSimulator _ _ _ _ _).submitsTo⟩) hrun
  exact ⟨o, (Overlap.ledger_kept_iff_current hsymbol hinitial
    (Database.agrees_empty _ _)).mp hexact⟩

/-- The second run loads its cash, the first one buys and commits, and the second finds the
    order and commits. -/
def staleSchedule : List Bool := [true, false, false, false, false, false, true, true]

/-- The purchase of 500.75 is lost: the snapshot of the second run is the newest one and
    carries the cash from before it. -/
theorem staleSchedule_loses_update : ∃ o,
    Runs (Overlap.Steps firedTwice) (Overlap.start Database.empty) staleSchedule o ∧
      (∀ i, (o.phase i).Ended) ∧ o.tables.fills.map FillRecord.cashFlow = [-2003 / 4] ∧
      o.tables.loadCash "BTC/USDT" 10000 = 10000 ∧ ¬o.tables.Agrees "BTC/USDT" 10000 := by
  refine ⟨_, Runs.foldl_eq.mpr rfl, ?_⟩
  decide +kernel

end TradingBot
