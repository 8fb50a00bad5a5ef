import TradingBot.Domain.Portfolio
import Mathlib.Tactic.Ring

/-!
# Folding executions into the ledger

`applyExecution` walks the fills of an execution in order. Its specification is that
cash and quantity move by the sums of what each fill does to them, and that the fold
raises exactly where one of its fills does.
-/

namespace TradingBot

structure LedgerUpdate where
  cashQuote : ℚ
  position : Position
  feesQuote : ℚ
  deriving Repr

/-- One turn of the loop over the fills. -/
def LedgerUpdate.applyFill (u : LedgerUpdate) (fill : Fill) : Except Error LedgerUpdate := do
  let fees := u.feesQuote + fill.feeQuote
  let newCash :=
    if fill.side = .buy then u.cashQuote - (fill.notional + fill.feeQuote)
    else u.cashQuote + (fill.notional - fill.feeQuote)
  let newPosition ← u.position.apply fill
  return { cashQuote := newCash, position := newPosition, feesQuote := fees }

/-- Fold an execution into the ledger. -/
def applyExecution (cashQuote : ℚ) (position : Position) (execution : OrderExecution) :
    Except Error LedgerUpdate :=
  execution.fills.foldlM LedgerUpdate.applyFill ⟨cashQuote, position, 0⟩

/-! ## What one fill does -/

/-- Applying a fill moves cash and quantity by the amounts of the fill. -/
theorem LedgerUpdate.applyFill_ok {u v : LedgerUpdate} {f : Fill} (h : u.applyFill f = .ok v) :
    v.cashQuote = u.cashQuote + f.cashFlow ∧ v.position.symbol = u.position.symbol ∧
      v.position.quantity = u.position.quantity + f.signedQuantity ∧
      v.feesQuote = u.feesQuote + f.feeQuote ∧ f.symbol = u.position.symbol := by
  unfold applyFill at h
  cases hp : u.position.apply f with
  | error e => simp [hp, bind, Except.bind] at h
  | ok q =>
    simp only [hp, bind, Except.bind, pure, Except.pure, Except.ok.injEq] at h
    subst h
    obtain ⟨hsym, hs, hq⟩ := Position.apply_ok hp
    refine ⟨?_, hs, hq, rfl, hsym⟩
    cases hside : f.side <;> simp [Fill.cashFlow, hside]
    ring

/-! ## What an execution does -/

/-- The fold over the fills moves the cash, the quantity and the fees by their sums, on one
    symbol. -/
private theorem foldlM_applyFill_ok {fills : List Fill} {u v : LedgerUpdate}
    (h : fills.foldlM LedgerUpdate.applyFill u = .ok v) :
    v.cashQuote = u.cashQuote + (fills.map Fill.cashFlow).sum ∧
      v.position.symbol = u.position.symbol ∧
      v.position.quantity = u.position.quantity + (fills.map Fill.signedQuantity).sum ∧
      v.feesQuote = u.feesQuote + (fills.map Fill.feeQuote).sum ∧
      ∀ f ∈ fills, f.symbol = u.position.symbol := by
  -- on the fills still to come, from any update
  induction fills generalizing u with
  | nil =>
    simp only [List.foldlM_nil, pure, Except.pure, Except.ok.injEq] at h
    subst h
    simp
  | cons f fs ih =>
    rw [List.foldlM_cons] at h
    cases hf : u.applyFill f with
    | error e => simp [hf, bind, Except.bind] at h
    | ok w =>
      simp only [hf, bind, Except.bind] at h
      obtain ⟨hcash, hsym, hqty, hfees, hall⟩ := ih h
      obtain ⟨hcash', hsym', hqty', hfees', hfsym⟩ := LedgerUpdate.applyFill_ok hf
      refine ⟨?_, hsym.trans hsym', ?_, ?_, ?_⟩
      · rw [hcash, hcash', List.map_cons, List.sum_cons, add_assoc]
      · rw [hqty, hqty', List.map_cons, List.sum_cons, add_assoc]
      · rw [hfees, hfees', List.map_cons, List.sum_cons, add_assoc]
      · intro g hg
        rcases List.mem_cons.mp hg with rfl | hg
        · exact hfsym
        · exact (hall g hg).trans hsym'

/-- An execution moves cash and quantity by the sums over its fills, and the fees it
    returns are those of the execution. -/
theorem applyExecution_ok {cash : ℚ} {position : Position} {execution : OrderExecution}
    {update : LedgerUpdate} (h : applyExecution cash position execution = .ok update) :
    update.cashQuote = cash + (execution.fills.map Fill.cashFlow).sum ∧
      update.position.symbol = position.symbol ∧
      update.position.quantity =
        position.quantity + (execution.fills.map Fill.signedQuantity).sum ∧
      update.feesQuote = execution.feesQuote ∧
      ∀ f ∈ execution.fills, f.symbol = position.symbol := by
  obtain ⟨hcash, hsym, hqty, hfees, hall⟩ := foldlM_applyFill_ok h
  exact ⟨hcash, hsym, hqty, by rw [hfees, zero_add]; rfl, hall⟩

/-- A single fill of the position's symbol that does not sell more than is held is
    folded without an error. -/
theorem applyExecution_single_ok {cash : ℚ} {position : Position} {execution : OrderExecution}
    {f : Fill} (hfills : execution.fills = [f]) (hsym : f.symbol = position.symbol)
    (hcovered : f.side = .sell → f.quantity ≤ position.quantity) :
    ∃ update, applyExecution cash position execution = .ok update := by
  obtain ⟨q, hq⟩ := Position.apply_of_covered hsym hcovered
  simp [applyExecution, hfills, LedgerUpdate.applyFill, hq, bind, Except.bind, pure, Except.pure]

/-- What folding a single fill says of it: it is of the position's symbol and does not sell
    more than is held. -/
theorem applyExecution_single {cash : ℚ} {position : Position} {execution : OrderExecution}
    {f : Fill} {update : LedgerUpdate} (hfills : execution.fills = [f])
    (h : applyExecution cash position execution = .ok update) :
    update.cashQuote = cash + f.cashFlow ∧
      update.position.quantity = position.quantity + f.signedQuantity ∧
      f.symbol = position.symbol ∧ (f.side = .sell → f.quantity ≤ position.quantity) := by
  obtain ⟨hcash, -, hquantity, -, hsymbols⟩ := applyExecution_ok h
  rw [hfills, List.map_singleton, List.sum_singleton] at hcash hquantity
  refine ⟨hcash, hquantity, hsymbols f (by simp [hfills]), fun hsell => ?_⟩
  -- a position never goes below zero
  have hleft := update.position.quantity_nonneg
  rw [hquantity, Fill.signedQuantity, hsell] at hleft
  simpa using hleft

/-- A single fill that does not sell more than is held never raises the short-selling
    error. -/
theorem applyExecution_single_ne_shortSelling {cash : ℚ} {position : Position}
    {execution : OrderExecution} {f : Fill} (hfills : execution.fills = [f])
    (hcovered : f.side = .sell → f.quantity ≤ position.quantity) :
    applyExecution cash position execution ≠ .error Position.shortSelling := by
  have hne := Position.apply_ne_shortSelling hcovered
  intro h
  simp only [applyExecution, hfills, List.foldlM_cons, List.foldlM_nil, LedgerUpdate.applyFill]
    at h
  cases hp : position.apply f with
  | error e =>
    simp only [hp, bind, Except.bind, Except.error.injEq] at h
    exact hne (h ▸ hp)
  | ok q => simp [hp, bind, Except.bind, pure, Except.pure] at h

end TradingBot
