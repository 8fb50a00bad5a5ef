import TradingBot.Spec.DecimalVerdict
import TradingBot.Spec.Ledger
import TradingBot.Spec.Scenario
import TradingBot.Strategy.DecimalCrossover

/-!
# Replaying a decision from the tables

A decision is a function of the signal, the account and the mark price. The rows give
back the cash and the quantity as they were loaded, but the strength with five decimals,
and the mark price and the day's opening equity with eighteen. So the decision is replayed
exactly when this rounding moves no threshold of the sizing across a whole number of venue steps.
Both decisions are taken in the default decimal context.
-/

namespace TradingBot

open FixedPoint

/-! ## What a decision orders -/

/-- The side and the quantity a decision submits, if it does. -/
def PolicyDecision.ordered (d : PolicyDecision) : Option (OrderSide × ℚ) :=
  d.intent.map fun i => (i.side, i.quantity)

/-- A decision orders what was approved. -/
theorem PolicyEngine.Renders.ordered_eq {d : PolicyDecision} {signal : Signal} {mark : ℚ}
    {now : Instant} {cycleId : String} {a : Option (OrderSide × ℚ)}
    (h : Renders d signal mark now cycleId a) : d.ordered = a := by
  cases a with
  | none => simp [PolicyDecision.ordered, h.2]
  | some approved =>
    obtain ⟨-, i, hi, -, -, hside, hqty, -⟩ := h
    simp [PolicyDecision.ordered, hi, hside, hqty]

/-- Decisions that order the same have the same outcome. -/
theorem PolicyDecision.outcome_eq_of_ordered {d d' : PolicyDecision}
    (h : d'.ordered = d.ordered) : d'.outcome = d.outcome := by
  have hsome : d'.intent.isSome = d.intent.isSome := by
    simpa [ordered] using congrArg Option.isSome h
  have hiff : d'.outcome = .submit ↔ d.outcome = .submit := by
    rw [d'.intent_matches, d.intent_matches, hsome]
  cases houtcome' : d'.outcome <;> cases houtcome : d.outcome <;> simp_all

/-! ## Rebuilding a decision -/

def SignalRecord.rebuild (row : SignalRecord) : Except Error Signal :=
  Signal.validate row.symbol row.action row.strength.toRat row.asOf row.strategy row.reason

def EquitySnapshotRecord.rebuild (row : EquitySnapshotRecord) : Except Error EquitySnapshot :=
  EquitySnapshot.validate row.takenAt row.symbol row.markPrice.toRat row.cashQuote.toRat
    row.positionQuantity.toRat row.equityQuote.toRat row.dayOpeningEquity.toRat

/-- The cash before a cycle, from the preceding equity snapshot. -/
def cashBefore (preceding : Option EquitySnapshotRecord) (initialCashQuote : ℚ) : ℚ :=
  preceding.elim initialCashQuote (·.cashQuote.toRat)

/-- The quantity held before a cycle, from the preceding equity snapshot. -/
def quantityBefore (preceding : Option EquitySnapshotRecord) : ℚ :=
  preceding.elim 0 (·.positionQuantity.toRat)

/-- Decide again, from the signal row, the preceding snapshot and the cycle's own. -/
def replayDecision (c : TradingCycle) (signalRow : SignalRecord)
    (preceding : Option EquitySnapshotRecord) (own : EquitySnapshotRecord) :
    Except Error PolicyDecision := do
  let signal ← signalRow.rebuild
  let snapshot ← own.rebuild
  let position ← Position.validate own.symbol (quantityBefore preceding) 0
  let account ← AccountState.validate (cashBefore preceding c.initialCashQuote) position
    snapshot.dayOpeningEquity
  c.policy.decideIn .default signal account snapshot.markPrice c.killSwitch snapshot.takenAt
    own.cycleId

/-- The rows give back the decision: its outcome, and the side and the quantity it ordered,
    which are those of the order row when the cycle recorded one. -/
def Replays (c : TradingCycle) (signalRow : SignalRecord)
    (preceding : Option EquitySnapshotRecord) (own : EquitySnapshotRecord)
    (decision : PolicyDecision) (order : Option OrderRecord) : Prop :=
  ∃ d, replayDecision c signalRow preceding own = .ok d ∧ d.outcome = decision.outcome ∧
    d.ordered = decision.ordered ∧
    ∀ row, order = some row → d.ordered = some (row.side, row.quantity.toRat)

namespace TradingCycle

/-- The amounts a cycle decided on. -/
def decidedOn (p : Prepared) : Amounts := .loaded p.signal p.account p.markPrice

/-- The amounts the rows give back. -/
def storedAmounts (c : TradingCycle) (p : Prepared) (preceding : Option EquitySnapshotRecord) :
    Amounts where
  strength := roundTo 5 p.signal.strength
  cash := cashBefore preceding c.initialCashQuote
  held := quantityBefore preceding
  dayOpening := roundTo 18 p.account.dayOpeningEquity
  markPrice := roundTo 18 p.markPrice

/-- The stored amounts are still those of an account: the mark price and the opening
    equity do not round to zero, and the preceding quantity is not negative. -/
structure Restorable (p : Prepared) (preceding : Option EquitySnapshotRecord) : Prop where
  markPrice_pos : 0 < roundTo 18 p.markPrice
  dayOpening_pos : 0 < roundTo 18 p.account.dayOpeningEquity
  quantity_nonneg : 0 ≤ quantityBefore preceding

/-- A whole number of venue steps is affordable and worth the minimum notional. -/
def Orderable (c : TradingCycle) (action : SignalAction) (x : Amounts) (n : ℕ) : Prop :=
  0 < n ∧ x.Affords c.policy.limits action c.killSwitch n ∧ x.Worth c.policy.limits n

/-- No threshold moves across a whole number of venue steps from some amounts to others: some
    number of steps is orderable on both, and the same numbers are affordable; or none is
    orderable on either, and no quotient outgrows the context. -/
def ThresholdsStay (c : TradingCycle) (action : SignalAction) (x x' : Amounts) : Prop :=
  ((∃ n, c.Orderable action x n) ∧ (∃ n, c.Orderable action x' n) ∧
    ∀ n, 0 < n → (x'.Affords c.policy.limits action c.killSwitch n ↔
      x.Affords c.policy.limits action c.killSwitch n)) ∨
  ((∀ n, ¬c.Orderable action x n) ∧ (∀ n, ¬c.Orderable action x' n) ∧
    ¬x'.Affords c.policy.limits action c.killSwitch PolicyEngine.stepBound)

/-- What the columns round away moves no threshold of the sizing. -/
structure StoredAlike (c : TradingCycle) (p : Prepared)
    (preceding : Option EquitySnapshotRecord) : Prop where
  restorable : Restorable p preceding
  thresholds : c.ThresholdsStay p.signal.action (decidedOn p) (c.storedAmounts p preceding)

/-- What the engine of a cycle approves for some amounts, with the default context. -/
def approvedFor (c : TradingCycle) (action : SignalAction) (x : Amounts) :
    Except Error (Option (OrderSide × ℚ)) :=
  PolicyEngine.approvedIn .default c.policy.limits action x c.killSwitch

section Approvals

open PolicyEngine

variable {c : TradingCycle} {action : SignalAction} {x x' : Amounts} {n n' : ℕ}

/-- Steps are orderable exactly when all that are affordable are. -/
private theorem exists_orderable_iff (hmark : 0 < x.markPrice)
    (h : Approves c.policy.limits action x c.killSwitch n) :
    (∃ m, c.Orderable action x m) ↔ 0 < n ∧ x.Worth c.policy.limits n := by
  constructor
  · rintro ⟨m, hm, haffords, hworth⟩
    have hle := (h.affords m hm).mp haffords
    exact ⟨hm.trans_le hle, worth_mono hmark.le hle hworth⟩
  · rintro ⟨hn, hworth⟩
    exact ⟨n, hn, (h.affords n hn).mpr le_rfl, hworth⟩

/-- The same steps are affordable when as many are. -/
private theorem affords_iff_iff (h : Approves c.policy.limits action x c.killSwitch n)
    (h' : Approves c.policy.limits action x' c.killSwitch n') :
    (∀ m, 0 < m → (x'.Affords c.policy.limits action c.killSwitch m ↔
      x.Affords c.policy.limits action c.killSwitch m)) ↔ n' = n := by
  constructor
  · intro hsame
    have hle : ∀ m, 0 < m → (m ≤ n' ↔ m ≤ n) := fun m hm =>
      (h'.affords m hm).symm.trans ((hsame m hm).trans (h.affords m hm))
    rcases Nat.eq_zero_or_pos n with hn | hn <;> rcases Nat.eq_zero_or_pos n' with hn' | hn'
    · exact hn'.trans hn.symm
    · have := (hle n' hn').mp le_rfl
      omega
    · have := (hle n hn).mpr le_rfl
      omega
    · exact le_antisymm ((hle n' hn').mp le_rfl) ((hle n hn).mpr le_rfl)
  · rintro rfl m hm
    exact (h'.affords m hm).trans (h.affords m hm).symm

/-- Different numbers of steps are different quantities. -/
theorem venueSteps_injective : Function.Injective venueSteps := by
  intro m n h
  have hdigits : (10 : ℚ) ^ quantityDigits ≠ 0 := by positivity
  rwa [venueSteps, venueSteps, div_left_inj' hdigits, Nat.cast_inj] at h

/-- Whatever is affordable has a side. -/
private theorem exists_side (h : Approves c.policy.limits action x c.killSwitch n) (hn : 0 < n) :
    ∃ side, actionSide action = some side := by
  cases action with
  | hold => exact absurd ((h.affords n hn).mpr le_rfl).2 id
  | buy => exact ⟨.buy, rfl⟩
  | sell => exact ⟨.sell, rfl⟩

/-- When one verdict has approved, the other approves the same exactly when no threshold has
    moved. -/
private theorem approvedFor_eq_iff (hmark : 0 < x.markPrice) (hstrength : 0 ≤ x.strength)
    (hmark' : 0 < x'.markPrice) (hstrength' : 0 ≤ x'.strength)
    {approved : Option (OrderSide × ℚ)}
    (hok : c.approvedFor action x = .ok approved) :
    c.approvedFor action x' = .ok approved ↔
      c.ThresholdsStay action x x' := by
  obtain ⟨n, hn⟩ : ∃ n, Approves c.policy.limits action x c.killSwitch n :=
    exists_approves hmark hstrength
  obtain ⟨n', hn'⟩ : ∃ n, Approves c.policy.limits action x' c.killSwitch n :=
    exists_approves hmark' hstrength'
  -- the verdict that has approved did not exceed the context
  have hfits : n < stepBound := by
    by_contra hbound
    obtain ⟨err, herr⟩ := hn.overflows (not_lt.mp hbound)
    cases herr.symm.trans hok
  have hbound : x'.Affords c.policy.limits action c.killSwitch stepBound ↔ stepBound ≤ n' :=
    hn'.affords stepBound (by decide +kernel)
  rw [approvedFor, hn.fits hfits] at hok
  obtain rfl := (Except.ok.inj hok).symm
  rw [ThresholdsStay, ← not_exists, ← not_exists, exists_orderable_iff hmark hn,
    exists_orderable_iff hmark' hn', affords_iff_iff hn hn', hbound]
  by_cases hfits' : n' < stepBound
  · rw [approvedFor, hn'.fits hfits', Except.ok.injEq]
    by_cases hopen : 0 < n ∧ x.Worth c.policy.limits n <;>
      by_cases hopen' : 0 < n' ∧ x'.Worth c.policy.limits n'
    · obtain ⟨side, hside⟩ := exists_side hn hopen.1
      simp [hopen, hopen', hside, venueSteps_injective.eq_iff]
    · obtain ⟨side, hside⟩ := exists_side hn hopen.1
      simp [hopen, hopen', hside]
    · obtain ⟨side, hside⟩ := exists_side hn' hopen'.1
      simp [hopen, hopen', hside]
    · simp [hopen, hopen', hfits']
  · -- beyond the context the division or the truncation signals
    obtain ⟨err, herr⟩ := hn'.overflows (not_lt.mp hfits')
    rw [approvedFor, herr]
    refine iff_of_false nofun ?_
    rintro (⟨-, -, rfl⟩ | ⟨-, -, hlt⟩)
    · exact hfits' hfits
    · exact hlt (not_lt.mp hfits')

/-- An approved size is in whole venue steps. -/
private theorem approvedFor_size (hmark : 0 < x.markPrice) (hstrength : 0 ≤ x.strength)
    {side : OrderSide} {quantity : ℚ}
    (hok : c.approvedFor action x = .ok (some (side, quantity))) :
    quantity ∈ Grid ℚ quantityDigits := by
  obtain ⟨n, hn⟩ : ∃ n, Approves c.policy.limits action x c.killSwitch n :=
    exists_approves hmark hstrength
  rcases lt_or_ge n stepBound with hfits | hbound
  · rw [approvedFor, hn.fits hfits] at hok
    split at hok
    · obtain ⟨_, -, hsize⟩ := Option.map_eq_some_iff.mp (Except.ok.inj hok)
      cases hsize
      exact mem_grid.mpr ⟨n, by rw [venueSteps]; simp⟩
    · cases hok
  · obtain ⟨err, herr⟩ := hn.overflows hbound
    cases herr.symm.trans hok

end Approvals

section Replay

variable {c : TradingCycle} {db db' : Database} {p : Prepared} {s : Settlement}
  {sent : List OrderIntent} {preceding : Option EquitySnapshotRecord} {d : PolicyDecision}

/-- A strength stays one when it is stored. -/
private theorem stored_strength (signal : Signal) :
    0 ≤ roundTo 5 signal.strength ∧ roundTo 5 signal.strength ≤ 1 := by
  have hone : roundTo 5 (1 : ℚ) = 1 := roundTo_of_mem (mem_grid.mpr ⟨10 ^ 5, by norm_num⟩)
  exact ⟨roundTo_nonneg signal.strength_nonneg,
    (roundTo_mono 5 signal.strength_le_one).trans_eq hone⟩

/-- The signal row rebuilds to the signal with its strength rounded. -/
private theorem rebuild_signal (cycleId : String) (signal : Signal) :
    ∃ signal', (recordSignal cycleId signal).rebuild = .ok signal' ∧
      signal'.action = signal.action ∧ signal'.strength = roundTo 5 signal.strength := by
  obtain ⟨hnonneg, hle⟩ := stored_strength signal
  have hchecks : AllHold (Signal.checks (recordSignal cycleId signal).strength.toRat) :=
    ⟨hnonneg, hle, trivial⟩
  exact ⟨_, validated_of_holds hchecks, rfl, rfl⟩

/-- The amounts the rows give back are those of a signal and an account. -/
private theorem approved_of_replay
    (h : replayDecision c (recordSignal p.cycleId p.signal) preceding
      (c.snapshotRow p s .default) = .ok d) :
    Restorable p preceding ∧ c.approvedFor p.signal.action (c.storedAmounts p preceding) =
      .ok d.ordered := by
  unfold replayDecision at h
  obtain ⟨signal', hsignal, h⟩ := Except.bind_eq_ok.mp h
  obtain ⟨snapshot, hsnapshot, h⟩ := Except.bind_eq_ok.mp h
  obtain ⟨position, hposition, h⟩ := Except.bind_eq_ok.mp h
  obtain ⟨account, haccount, h⟩ := Except.bind_eq_ok.mp h
  obtain ⟨rebuilt, hrebuilt, haction, hstrength⟩ := rebuild_signal p.cycleId p.signal
  cases hsignal.symm.trans hrebuilt
  obtain ⟨-, -, hmark, -, -, -, hday⟩ := EquitySnapshot.validate_ok hsnapshot
  obtain ⟨-, hqty, -⟩ := Position.validate_ok hposition
  obtain ⟨hcash, hpos, hopening⟩ := AccountState.validate_ok haccount
  -- the columns of the cycle's own row give back rounded values
  have hmark : snapshot.markPrice = roundTo 18 p.markPrice := hmark
  have hday : snapshot.dayOpeningEquity = roundTo 18 p.account.dayOpeningEquity := hday
  have hloaded : Amounts.loaded signal' account snapshot.markPrice =
      c.storedAmounts p preceding := by
    rw [Amounts.loaded, storedAmounts, hstrength, hcash, hpos, hqty, hopening, hmark, hday]
  have hrenders := c.policy.decideIn_renders (A := .default) signal' account
    snapshot.markPrice_pos c.killSwitch snapshot.takenAt p.cycleId
  rw [hloaded, haction] at hrenders
  have h : c.policy.decideIn .default signal' account snapshot.markPrice c.killSwitch
      snapshot.takenAt p.cycleId = .ok d := h
  rw [h] at hrenders
  obtain ⟨approved, happroved, hd⟩ := hrenders.of_ok_right
  refine ⟨⟨?_, ?_, ?_⟩, hd.ordered_eq ▸ happroved⟩
  · exact hmark ▸ snapshot.markPrice_pos
  · exact hday ▸ snapshot.dayOpeningEquity_pos
  · exact hqty ▸ position.quantity_nonneg

/-- Rows whose amounts are still those of an account replay to a decision when the engine
    approves something for them, or nothing. -/
private theorem exists_replay (hrest : Restorable p preceding) (s : Settlement)
    {approved : Option (OrderSide × ℚ)}
    (happroved : c.approvedFor p.signal.action (c.storedAmounts p preceding) = .ok approved) :
    ∃ d, replayDecision c (recordSignal p.cycleId p.signal) preceding
      (c.snapshotRow p s .default) = .ok d := by
  -- each of the four rebuilt values passes the checks of its model
  obtain ⟨signal', hsignal, haction, hstrength⟩ := rebuild_signal p.cycleId p.signal
  have hsnapshot : AllHold (EquitySnapshot.checks (roundTo 18 p.markPrice)
      (roundTo 18 s.position.quantity) (roundTo 18 p.account.dayOpeningEquity)) :=
    ⟨hrest.markPrice_pos, roundTo_nonneg s.position.quantity_nonneg, hrest.dayOpening_pos,
      trivial⟩
  have haccount : AllHold (AccountState.checks (roundTo 18 p.account.dayOpeningEquity)) :=
    ⟨hrest.dayOpening_pos, trivial⟩
  have hown : (c.snapshotRow p s .default).rebuild = .ok _ := validated_of_holds hsnapshot
  have hposition : Position.validate (c.snapshotRow p s .default).symbol
      (quantityBefore preceding) 0 = .ok _ :=
    Position.validate_of_nonneg hrest.quantity_nonneg le_rfl
  have hvalid : ∀ cash position, AccountState.validate cash position
      (c.snapshotRow p s .default).dayOpeningEquity.toRat = .ok _ :=
    fun _ _ => validated_of_holds haccount
  simp only [replayDecision, hsignal, hown, hposition, hvalid, bind, Except.bind]
  have hrenders := c.policy.decideIn_renders (A := .default) signal'
    ⟨cashBefore preceding c.initialCashQuote, ⟨c.symbol, quantityBefore preceding, 0,
      hrest.quantity_nonneg, le_rfl⟩, roundTo 18 p.account.dayOpeningEquity,
      hrest.dayOpening_pos⟩ hrest.markPrice_pos c.killSwitch c.clock p.cycleId
  rw [haction, Amounts.loaded, hstrength] at hrenders
  have happroved' : PolicyEngine.approvedIn .default c.policy.limits p.signal.action
      (c.storedAmounts p preceding) c.killSwitch = .ok approved := happroved
  rw [storedAmounts] at happroved'
  rw [happroved'] at hrenders
  obtain ⟨d, hd, -⟩ := hrenders.of_ok_left
  exact ⟨d, hd⟩

/-- A decision is replayed exactly from the rows of its cycle, in whatever state the tables
    were, when what the columns round away moves no threshold of the sizing. -/
theorem decision_replays_iff {signalRow : SignalRecord} {own : EquitySnapshotRecord}
    (h : c.Commits db db' p s sent .default) (hsignal : db'.signals = db.signals ++ [signalRow])
    (hown : db'.equitySnapshots = db.equitySnapshots ++ [own]) :
    Replays c signalRow (db.latestSnapshotFor c.symbol) own p.decision s.order ↔
      c.StoredAlike p (db.latestSnapshotFor c.symbol) := by
  rw [h.tables] at hsignal hown
  obtain rfl : recordSignal p.cycleId p.signal = signalRow := by simpa using hsignal
  obtain rfl : c.snapshotRow p s .default = own := by simpa using hown
  have hmark := h.prepared.markPrice_pos
  have hstrength := p.signal.strength_nonneg
  have hstored := (stored_strength p.signal).1
  -- what was decided is what was approved for the full amounts
  obtain ⟨approved, happroved, hrenders⟩ := h.prepared.exists_approvedIn
  rw [← hrenders.ordered_eq] at happroved
  constructor
  · rintro ⟨d, hreplay, -, hsame, -⟩
    obtain ⟨hrest, hagain⟩ := approved_of_replay hreplay
    rw [hsame] at hagain
    exact ⟨hrest, (approvedFor_eq_iff hmark hstrength hrest.markPrice_pos hstored happroved).mp
      hagain⟩
  · rintro ⟨hrest, hthresholds⟩
    have hagain := (approvedFor_eq_iff hmark hstrength hrest.markPrice_pos hstored happroved).mpr
      hthresholds
    obtain ⟨d, hreplay⟩ := exists_replay hrest s hagain
    obtain ⟨-, hd⟩ := approved_of_replay hreplay
    have hsame : d.ordered = p.decision.ordered := Except.ok.inj (hd.symm.trans hagain)
    refine ⟨d, hreplay, PolicyDecision.outcome_eq_of_ordered hsame, hsame, fun row hrow => ?_⟩
    rcases h.settled.order_cases with ⟨hnone, -⟩ | ⟨i, row', hi, -, -, hrow', -, -, hside, hqty⟩
    · exact nomatch hnone.symm.trans hrow
    · -- a size in venue steps is recorded in `orders` without loss
      cases hrow'.symm.trans hrow
      have hordered : p.decision.ordered = some (i.side, i.quantity) := by
        simp [PolicyDecision.ordered, hi]
      rw [hordered] at happroved
      have hsteps := approvedFor_size hmark hstrength happroved
      rw [hsame, hside, hqty, Numeric.toRat_ofRat_of_mem (grid_mono (by decide) hsteps), hordered]

/-- Amounts that are stored as they are move no threshold. -/
theorem Prepares.thresholdsStay_self (h : c.Prepares db p .default) :
    c.ThresholdsStay p.signal.action (decidedOn p) (decidedOn p) := by
  obtain ⟨approved, happroved, -⟩ := h.exists_approvedIn
  exact (approvedFor_eq_iff h.markPrice_pos p.signal.strength_nonneg h.markPrice_pos
    p.signal.strength_nonneg happroved).mp happroved

/-- A cycle of another symbol leaves what is read of this one. -/
private theorem untouched {symbol : String} (h : c.Commits db db' p s sent .default)
    (hother : c.symbol ≠ symbol) : db'.latestSnapshotFor symbol = db.latestSnapshotFor symbol ∧
      db'.heldQuantity symbol = db.heldQuantity symbol := by
  have hsnapshots : db'.snapshotsFor symbol = db.snapshotsFor symbol := by
    simp [h.tables, Database.snapshotsFor, hother]
  exact ⟨by rw [Database.latestSnapshotFor, hsnapshots]; rfl, by
    rw [Database.heldQuantity, h.positions_of_ne (Ne.symm hother)]; rfl⟩

end Replay

end TradingCycle

/-! ## Sequences of cycles -/

/-- In a sequence of cycles the latest snapshot of a symbol carries the quantity of its
    positions row. -/
theorem quantityBefore_eq {cycles : List TradingCycle} {db : Database}
    (hrun : Runs (fun db c db' => Attempted db c db' .default) Database.empty cycles db)
    (hclock : cycles.Pairwise (·.clock < ·.clock)) (symbol : String) :
    quantityBefore (db.latestSnapshotFor symbol) = db.heldQuantity symbol := by
  refine attempted_invariant (P := fun db => ∀ symbol,
    quantityBefore (db.latestSnapshotFor symbol) = db.heldQuantity symbol) hrun hclock nofun
    (fun _ => rfl) ?_ symbol
  intro db c db' p s sent _ hnew hdb h symbol
  -- the cycle writes both, or neither of them if it is of another symbol
  by_cases hsym : c.symbol = symbol
  · subst hsym
    rw [h.latestSnapshotFor hnew, h.heldQuantity]
    rfl
  · obtain ⟨hlatest, hheld⟩ := TradingCycle.untouched h hsym
    rw [hlatest, hheld, hdb symbol]

/-- After a sequence of cycles, amounts that fit their columns are stored alike. -/
theorem storedAlike_of_mem {cycles : List TradingCycle} {db : Database} {c : TradingCycle}
    {p : Prepared}
    (hrun : Runs (fun db c db' => Attempted db c db' .default) Database.empty cycles db)
    (hclock : cycles.Pairwise (·.clock < ·.clock)) (hp : c.Prepares db p .default)
    (hstrength : p.signal.strength ∈ Grid ℚ 5) (hmark : p.markPrice ∈ Grid ℚ 18)
    (hopening : p.account.dayOpeningEquity ∈ Grid ℚ 18) :
    c.StoredAlike p (db.latestSnapshotFor c.symbol) := by
  obtain ⟨hcash, -, hqty, -⟩ := hp.loaded_eq
  have hquantity : quantityBefore (db.latestSnapshotFor c.symbol) =
      p.account.position.quantity := (quantityBefore_eq hrun hclock c.symbol).trans hqty.symm
  have hbefore : cashBefore (db.latestSnapshotFor c.symbol) c.initialCashQuote =
      p.account.cashQuote := by
    rw [hcash, cashBefore, Database.loadCash]
    cases db.latestSnapshotFor c.symbol <;> rfl
  -- nothing is rounded by the columns, so the stored amounts are those of the decision
  refine ⟨⟨?_, ?_, ?_⟩, ?_⟩
  · exact (roundTo_of_mem hmark).symm ▸ hp.markPrice_pos
  · exact (roundTo_of_mem hopening).symm ▸ p.account.dayOpeningEquity_pos
  · exact hquantity ▸ p.account.position.quantity_nonneg
  · have hsame : c.storedAmounts p (db.latestSnapshotFor c.symbol) =
        TradingCycle.decidedOn p := by
      rw [TradingCycle.storedAmounts, TradingCycle.decidedOn, Amounts.loaded,
        roundTo_of_mem hstrength, roundTo_of_mem hmark, roundTo_of_mem hopening, hbefore,
        hquantity]
    rw [hsame]
    exact hp.thresholdsStay_self

/-! ## A strength with more than five decimals -/

/-- What the rows of a cycle on empty tables replay to order. -/
def replayedOrder (c : TradingCycle) (db : Database) : Option (OrderSide × ℚ) := do
  let signalRow ← db.signals.head?
  let own ← db.equitySnapshots.head?
  let decision ← (replayDecision c signalRow none own).toOption
  decision.ordered

/-- A cycle that buys half of the position limit. -/
def halfBuy : TradingCycle :=
  simulatedCycle (flatMarket 100 10 5) (fixedStrategy .buy (1 / 2)) defaultLimits 10000 noon
    .default

/-- Strength, price and account of the buy have few digits. -/
private theorem halfBuy_storedAlike {p : Prepared}
    (hp : halfBuy.Prepares Database.empty p .default) : halfBuy.StoredAlike p none := by
  have hsome : (halfBuy.prepare Database.empty .default).toOption.any (fun q =>
      q.signal.strength = 1 / 2 ∧ q.markPrice = 100 ∧ q.account.dayOpeningEquity = 10000) =
        true := by decide +kernel
  obtain ⟨q, hq, hamounts⟩ := Except.exists_of_any hsome
  obtain ⟨hstrength, hmark, hopening⟩ : q.signal.strength = 1 / 2 ∧ q.markPrice = 100 ∧
    q.account.dayOpeningEquity = 10000 := by simpa using hamounts
  cases hp.unique (TradingCycle.prepare_ok.mp hq)
  refine storedAlike_of_mem .nil .nil hp ?_ ?_ ?_
  · exact hstrength ▸ mem_grid.mpr ⟨50000, by norm_num⟩
  · exact hmark ▸ mem_grid.mpr ⟨100 * 10 ^ 18, by norm_num⟩
  · exact hopening ▸ mem_grid.mpr ⟨10000 * 10 ^ 18, by norm_num⟩

/-- A buy of half of the limit is replayed as it was. -/
theorem decision_replays_iff_halfBuy : ∃ db p s sent signalRow own,
    halfBuy.Commits Database.empty db p s sent .default ∧ db.signals = [signalRow] ∧
      db.equitySnapshots = [own] ∧ Replays halfBuy signalRow none own p.decision s.order := by
  have hsome : (commitAll Database.empty [halfBuy] .default).isSome = true := by decide +kernel
  obtain ⟨db, hdb⟩ := Option.isSome_iff_exists.mp hsome
  obtain ⟨p, s, sent, h⟩ := commits_of_commitAll hdb
  have hsignal : db.signals = [recordSignal p.cycleId p.signal] := by rw [h.tables]; rfl
  have hown : db.equitySnapshots = [halfBuy.snapshotRow p s .default] := by rw [h.tables]; rfl
  exact ⟨db, p, s, sent, _, _, h, hsignal, hown,
    (TradingCycle.decision_replays_iff h hsignal hown).mpr (halfBuy_storedAlike h.prepared)⟩

/-- The close rises from 100 to 100.5, which is a strength of 100/801. -/
def gentleCross : TradingCycle :=
  buildCycle (stubExchange (List.replicate 8 100 ++ [201 / 2]) noon)
    (twoAndFour.strategyIn .default) defaultLimits 10000 noon

/-- The strength is stored as 0.12484, so that 1.2422283 were bought and 1.24218905 are
    replayed. -/
theorem gentleCross_replays_less : ∃ db p s sent signalRow own,
    gentleCross.Commits Database.empty db p s sent .default ∧ db.signals = [signalRow] ∧
      db.equitySnapshots = [own] ∧ ¬Replays gentleCross signalRow none own p.decision s.order := by
  have hsome : (commitAll Database.empty [gentleCross] .default).any (fun db =>
      db.orders.map (fun row => (row.side, row.quantity.toRat)) =
          [(.buy, 12422283 / 10000000)] ∧
        replayedOrder gentleCross db = some (.buy, 124218905 / 100000000)) = true := by
    decide +kernel
  obtain ⟨db, hdb, horders, hreplayed⟩ : ∃ db,
      commitAll Database.empty [gentleCross] .default = some db ∧
      db.orders.map (fun row => (row.side, row.quantity.toRat)) =
          [(.buy, 12422283 / 10000000)] ∧
        replayedOrder gentleCross db = some (.buy, 124218905 / 100000000) := by
    simpa [Option.any_eq_true] using hsome
  obtain ⟨p, s, sent, h⟩ := commits_of_commitAll hdb
  have hsignal : db.signals = [recordSignal p.cycleId p.signal] := by rw [h.tables]; rfl
  have hown : db.equitySnapshots = [gentleCross.snapshotRow p s .default] := by
    rw [h.tables]; rfl
  refine ⟨db, p, s, sent, _, _, h, hsignal, hown, ?_⟩
  rintro ⟨d, hd, -, -, hrow⟩
  have hreplay : replayedOrder gentleCross db = d.ordered := by
    simp [replayedOrder, hsignal, hown, hd, Except.toOption]
  -- the recorded row has the size that was bought, the replay a smaller one
  cases horder : s.order with
  | none => simp [h.tables, horder, Database.empty] at horders
  | some row =>
    have hrecorded : (row.side, row.quantity.toRat) = (.buy, 12422283 / 10000000) := by
      simpa [h.tables, horder, Database.empty] using horders
    have hsame := hrow row horder
    rw [← hreplay, hreplayed, hrecorded] at hsame
    norm_num at hsame

end TradingBot
