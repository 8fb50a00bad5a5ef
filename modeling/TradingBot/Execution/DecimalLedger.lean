import TradingBot.Execution.Ledger
import TradingBot.ForMathlib.Except
import TradingBot.Python.Decimal

/-!
# The ledger in a decimal context

The fold over the fills, and the valuation of an account, over decimal operations that round and
signal. With exact operations it is the ledger itself.
-/

namespace TradingBot

variable (A : DecimalContext)

/-- `notional` of a fill. -/
def Fill.notionalIn (f : Fill) : ℚ := A.mul f.quantity f.price

/-- `filled_quantity`. -/
def OrderExecution.filledQuantityIn (e : OrderExecution) : ℚ := sumIn A (e.fills.map Fill.quantity)

namespace Position

def notionalAtIn (p : Position) (price : ℚ) : ℚ := A.mul p.quantity price

def applyIn (p : Position) (fill : Fill) : Except Error Position :=
  if fill.symbol ≠ p.symbol then
    .error wrongSymbol
  else if fill.side = .buy then do
    let newQuantity := A.add p.quantity fill.quantity
    let cost := A.add (A.mul p.quantity p.averagePrice) (fill.notionalIn A)
    let averagePrice ← A.div cost newQuantity
    validate p.symbol newQuantity averagePrice
  -- comparisons are exact, whatever the context
  else if fill.quantity > p.quantity then
    .error shortSelling
  else
    let newQuantity := A.sub p.quantity fill.quantity
    validate p.symbol newQuantity (if newQuantity > 0 then p.averagePrice else 0)

end Position

/-- One turn of the loop over the fills. -/
def LedgerUpdate.applyFillIn (u : LedgerUpdate) (fill : Fill) : Except Error LedgerUpdate := do
  let fees := A.add u.feesQuote fill.feeQuote
  let newCash :=
    if fill.side = .buy then A.sub u.cashQuote (A.add (fill.notionalIn A) fill.feeQuote)
    else A.add u.cashQuote (A.sub (fill.notionalIn A) fill.feeQuote)
  let newPosition ← u.position.applyIn A fill
  return { cashQuote := newCash, position := newPosition, feesQuote := fees }

/-- Fold an execution into the ledger. -/
def applyExecutionIn (cashQuote : ℚ) (position : Position) (execution : OrderExecution) :
    Except Error LedgerUpdate :=
  execution.fills.foldlM (LedgerUpdate.applyFillIn A) ⟨cashQuote, position, 0⟩

/-- What cash and a position are worth, as every equity is computed. -/
def equityIn (cashQuote : ℚ) (position : Position) (price : ℚ) : ℚ :=
  A.add cashQuote (position.notionalAtIn A price)

variable {A}

/-- A fill leaves the symbol of the position. -/
theorem Position.applyIn_symbol {p q : Position} {fill : Fill} (h : p.applyIn A fill = .ok q) :
    q.symbol = p.symbol := by
  unfold applyIn at h
  split at h
  next => cases h
  next =>
    split at h
    next =>
      obtain ⟨_, -, h⟩ := Except.bind_eq_ok.mp h
      exact (validate_ok h).1
    next =>
      split at h
      next => cases h
      next => exact (validate_ok h).1

/-- So do many. -/
private theorem foldlM_symbol {fills : List Fill} {u update : LedgerUpdate}
    (h : fills.foldlM (LedgerUpdate.applyFillIn A) u = .ok update) :
    update.position.symbol = u.position.symbol := by
  induction fills generalizing u with
  | nil =>
    cases h
    rfl
  | cons f fills ih =>
    rw [List.foldlM_cons] at h
    obtain ⟨v, hv, h⟩ := Except.bind_eq_ok.mp h
    obtain ⟨q, hq, hv⟩ := Except.bind_eq_ok.mp hv
    cases hv
    exact (ih h).trans (Position.applyIn_symbol hq)

/-- A ledger stays one of its symbol, in whatever context. -/
theorem applyExecutionIn_symbol {cashQuote : ℚ} {position : Position} {execution : OrderExecution}
    {update : LedgerUpdate} (h : applyExecutionIn A cashQuote position execution = .ok update) :
    update.position.symbol = position.symbol := foldlM_symbol h

/-! ## Exact operations -/

/-- With exact operations the ledger is the one of the other model. -/
theorem applyExecutionIn_exact : applyExecutionIn .exact = applyExecution := rfl

/-- With exact operations the equity is the cash and the value of the position. -/
theorem equityIn_exact (cashQuote : ℚ) (position : Position) (price : ℚ) :
    equityIn .exact cashQuote position price = cashQuote + position.notionalAt price := rfl

end TradingBot
