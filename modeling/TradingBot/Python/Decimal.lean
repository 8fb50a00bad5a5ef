import TradingBot.Errors
import TradingBot.ForMathlib.SignificantDigits

/-!
# Decimal contexts

The operations of the decimal module, which round and signal, as a parameter of the program.
With the exact operations decimals are rationals; with those of the default context of Python
every result has 28 significant digits. Results that are too large for the exponents of the
context, from `overflowBound` on, are looked for in the simulated exchange alone, which multiplies
by the rates of the settings and by the quantities of orders.
-/

namespace TradingBot

open FixedPoint

/-- The decimal operations of the sizing. -/
structure DecimalArithmetic where
  mul : ℚ → ℚ → ℚ
  sub : ℚ → ℚ → ℚ
  div : ℚ → ℚ → Except Error ℚ
  /-- `quantize(step, rounding=ROUND_DOWN)`, to a number of decimals. -/
  quantize : ℕ → ℚ → Except Error ℚ

namespace DecimalArithmetic

/-- Operations that neither round nor signal. -/
def exact : DecimalArithmetic where
  mul := (· * ·)
  sub := (· - ·)
  div x y := .ok (x / y)
  quantize digits x := .ok (truncateTo digits x)

/-- The significant digits of the default context. -/
def precision : ℕ := 28

/-- A number that was quantized to some decimals: its coefficient must fit the context. -/
def quantized (digits : ℕ) (result : ℚ) : Except Error ℚ :=
  if |result| * 10 ^ digits < 10 ^ precision then .ok result
  else .error (.external "InvalidOperation" "[<class 'decimal.InvalidOperation'>]")

/-- The operations of the default context, which rounds half to even. -/
def default : DecimalArithmetic where
  mul x y := roundSig 10 precision (x * y)
  sub x y := roundSig 10 precision (x - y)
  div x y :=
    if y ≠ 0 then .ok (roundSig 10 precision (x / y))
    else if x ≠ 0 then
      .error (.external "DivisionByZero" "[<class 'decimal.DivisionByZero'>]")
    else .error (.external "InvalidOperation" "[<class 'decimal.DivisionUndefined'>]")
  quantize digits x := quantized digits (truncateTo digits x)

end DecimalArithmetic

/-- The decimal operations of the program: those of the sizing, the sums of the averages and of
    the ledger, the changes of sign, and the rounding of prices. -/
structure DecimalContext extends DecimalArithmetic where
  add : ℚ → ℚ → ℚ
  abs : ℚ → ℚ
  neg : ℚ → ℚ
  /-- A result whose exponent the context has no room for. -/
  overflows : ℚ → Bool
  /-- `quantize(step, rounding=ROUND_HALF_UP)`, to a number of decimals. -/
  roundHalfUp : ℕ → ℚ → Except Error ℚ

namespace DecimalContext

/-- Operations that neither round nor signal. -/
def exact : DecimalContext :=
  { DecimalArithmetic.exact with
    add := (· + ·)
    abs := (|·|)
    neg := (- ·)
    overflows := fun _ => false
    roundHalfUp := fun digits x => .ok (roundTo digits x) }

/-- The largest exponent of the default context. -/
def maxExponent : ℕ := 999999

/-- The least number above the range of the default context. -/
def overflowBound : ℚ := (10 ^ (maxExponent + 1) : ℕ)

/-- The operations of the default context. -/
def default : DecimalContext :=
  { DecimalArithmetic.default with
    add := fun x y => roundSig 10 DecimalArithmetic.precision (x + y)
    -- even an absolute value and a change of sign are rounded to the context
    abs := fun x => roundSig 10 DecimalArithmetic.precision |x|
    neg := fun x => roundSig 10 DecimalArithmetic.precision (-x)
    overflows := fun x => overflowBound ≤ |x|
    roundHalfUp := fun digits x => DecimalArithmetic.quantized digits (roundTo digits x) }

/-- A product, if the context has room for its exponent. -/
def checkedMul (A : DecimalContext) (x y : ℚ) : Except Error ℚ :=
  if A.overflows (A.mul x y) then
    .error (.external "Overflow" "[<class 'decimal.Overflow'>]")
  else .ok (A.mul x y)

/-- A product that was checked is the product. -/
theorem checkedMul_ok {A : DecimalContext} {x y product : ℚ}
    (h : A.checkedMul x y = .ok product) : product = A.mul x y := by
  unfold checkedMul at h
  split at h
  next => cases h
  next => exact (Except.ok.inj h).symm

section Operations

variable (x y : ℚ) (digits : ℕ)

/-- The exact context multiplies. -/
@[simp] theorem exact_mul : exact.mul x y = x * y := rfl

/-- The exact context subtracts. -/
@[simp] theorem exact_sub : exact.sub x y = x - y := rfl

/-- The exact context adds. -/
@[simp] theorem exact_add : exact.add x y = x + y := rfl

/-- The exact context divides and signals nothing. -/
@[simp] theorem exact_div : exact.div x y = .ok (x / y) := rfl

/-- The exact context quantizes and signals nothing. -/
@[simp] theorem exact_roundHalfUp : exact.roundHalfUp digits x = .ok (roundTo digits x) := rfl

end Operations

end DecimalContext

/-- `sum(values, Decimal(0))`. -/
def sumIn (A : DecimalContext) (values : List ℚ) : ℚ := values.foldl A.add 0

/-- The exact context adds up the values of a list. -/
theorem sumIn_exact (values : List ℚ) : sumIn .exact values = values.sum :=
  List.sum_eq_foldl.symm

end TradingBot
