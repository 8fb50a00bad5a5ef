import Mathlib.Data.Rat.Floor

/-!
# Exceptions and field validation

Every model of the pipeline is validated when it is built. A validation is a list
of named field checks; a value is built from the proof that all of them hold, so a
model that violates one cannot exist, and the error of a refused value names each
field that failed.

Decimals are rationals. What their operations round is said by a context, which is exact where
none is given.
-/

namespace TradingBot

/-- A timezone-aware moment, in microseconds since the Unix epoch. -/
abbrev Instant := ℤ

/-- A `timedelta`, in microseconds. -/
abbrev Duration := ℤ

/-- One entry of a validation error: where it is and what is wrong there. -/
structure FieldError where
  loc : String
  msg : String
  deriving DecidableEq, Repr

/-- The exceptions a cycle can end with. Those of the package itself come first;
    `external` is whatever a strategy, a telemetry exporter or a client raises.
    A configuration error keeps the value its message ends with, if any. -/
inductive Error where
  | tradingBotError (message : String)
  | sandboxGuardError (message : String)
  | configurationError (message : String) (value : Option String)
  | exchangeError (message : String)
  /-- The `ExchangeError` "market data is stale", with the two moments of its message. -/
  | staleMarketData (asOf now : Instant)
  | validationError (model : String) (errors : List FieldError)
  | valueError (message : String)
  | overflowError (message : String)
  | integrityError (constraint : String)
  | staleDataError (table : String)
  /-- A value that is too wide for its column. -/
  | dataError
  | external (typeName message : String)
  deriving DecidableEq, Repr

/-- `type(error).__name__`. -/
def Error.typeName : Error → String
  | tradingBotError _ => "TradingBotError"
  | sandboxGuardError _ => "SandboxGuardError"
  | configurationError _ _ => "ConfigurationError"
  | exchangeError _ => "ExchangeError"
  | staleMarketData _ _ => "ExchangeError"
  | validationError _ _ => "ValidationError"
  | valueError _ => "ValueError"
  | overflowError _ => "OverflowError"
  | integrityError _ => "IntegrityError"
  | staleDataError _ => "StaleDataError"
  | dataError => "DataError"
  | external typeName _ => typeName

/-! ## Field checks -/

/-- A constraint on one field. -/
structure FieldCheck where
  loc : String
  msg : String
  holds : Prop
  [dec : Decidable holds]

instance (c : FieldCheck) : Decidable c.holds := c.dec

namespace FieldCheck

/-- `Field(gt=0)`. -/
def gtZero (loc : String) (x : ℚ) : FieldCheck where
  loc := loc
  msg := "Input should be greater than 0"
  holds := 0 < x

/-- `Field(ge=0)`. -/
def geZero (loc : String) (x : ℚ) : FieldCheck where
  loc := loc
  msg := "Input should be greater than or equal to 0"
  holds := 0 ≤ x

/-- `Field(le=1)`. -/
def leOne (loc : String) (x : ℚ) : FieldCheck where
  loc := loc
  msg := "Input should be less than or equal to 1"
  holds := x ≤ 1

/-- A constraint on a decimal, which may be infinite or NaN. Those are refused. -/
def finite (check : String → ℚ → FieldCheck) (loc : String) : Option ℚ → FieldCheck
  | some x => check loc x
  | none => { loc := loc, msg := "Input should be a finite number", holds := False }

/-- `Field(ge=bound)` on an integer. -/
def atLeast (loc : String) (bound n : ℕ) : FieldCheck where
  loc := loc
  msg := "Input should be greater than or equal to " ++ toString bound
  holds := bound ≤ n

/-- `Field(le=bound)` on an integer. -/
def atMost (loc : String) (bound n : ℕ) : FieldCheck where
  loc := loc
  msg := "Input should be less than or equal to " ++ toString bound
  holds := n ≤ bound

/-- `Field(min_length=1)` on a tuple. -/
def minLengthOne {α : Type} (loc : String) (xs : List α) : FieldCheck where
  loc := loc
  msg := "Tuple should have at least 1 item after validation, not 0"
  holds := 0 < xs.length

/-- A condition a `model_validator` raises `ValueError` on. It has no field of its own. -/
def rule (msg : String) (p : Prop) [Decidable p] : FieldCheck where
  loc := ""
  msg := msg
  holds := p

end FieldCheck

/-- The check of `gt=0` holds of positive numbers. -/
@[simp] theorem FieldCheck.gtZero_holds (loc : String) (x : ℚ) :
    (gtZero loc x).holds = (0 < x) := rfl

/-- The check of `ge=0` holds of numbers that are not negative. -/
@[simp] theorem FieldCheck.geZero_holds (loc : String) (x : ℚ) :
    (geZero loc x).holds = (0 ≤ x) := rfl

/-- The check of `le=1` holds of numbers up to one. -/
@[simp] theorem FieldCheck.leOne_holds (loc : String) (x : ℚ) :
    (leOne loc x).holds = (x ≤ 1) := rfl

/-- The check of `ge` holds of counts that reach the bound. -/
@[simp] theorem FieldCheck.atLeast_holds (loc : String) (bound n : ℕ) :
    (atLeast loc bound n).holds = (bound ≤ n) := rfl

/-- The check of `le` holds of counts that stay below the bound. -/
@[simp] theorem FieldCheck.atMost_holds (loc : String) (bound n : ℕ) :
    (atMost loc bound n).holds = (n ≤ bound) := rfl

/-- The check of `min_length=1` holds of lists that are not empty. -/
@[simp] theorem FieldCheck.minLengthOne_holds {α : Type} (loc : String) (xs : List α) :
    (minLengthOne loc xs).holds = (0 < xs.length) := rfl

/-- The check of a validator holds where its rule does. -/
@[simp] theorem FieldCheck.rule_holds (msg : String) (p : Prop) [Decidable p] :
    (rule msg p).holds = p := rfl

/-- All checks of a list hold. -/
def AllHold : List FieldCheck → Prop
  | [] => True
  | c :: cs => c.holds ∧ AllHold cs

/-- A model without checks accepts its fields. -/
@[simp] theorem allHold_nil : AllHold [] = True := rfl

/-- The checks of a model are a conjunction, in the order of the fields. -/
@[simp] theorem allHold_cons (c : FieldCheck) (cs : List FieldCheck) :
    AllHold (c :: cs) = (c.holds ∧ AllHold cs) := rfl

instance decidableAllHold : (cs : List FieldCheck) → Decidable (AllHold cs)
  | [] => isTrue trivial
  | c :: cs => @instDecidableAnd _ _ c.dec (decidableAllHold cs)

/-- Fields that pass all the checks pass each of them. -/
theorem AllHold.of_mem {cs : List FieldCheck} (h : AllHold cs) {c : FieldCheck} (hc : c ∈ cs) :
    c.holds := by
  induction cs with
  | nil => exact absurd hc List.not_mem_nil
  | cons d ds ih =>
    rcases List.mem_cons.mp hc with rfl | hc
    · exact h.1
    · exact ih h.2 hc

/-- The errors of the checks that fail, in order. -/
def failures (cs : List FieldCheck) : List FieldError :=
  (cs.filter fun c => ¬c.holds).map fun c => ⟨c.loc, c.msg⟩

/-- Build a model from the proof that its field checks hold, or report those that fail. -/
def validated {α : Type} (model : String) (cs : List FieldCheck) (build : AllHold cs → α) :
    Except Error α :=
  if h : AllHold cs then .ok (build h) else .error (.validationError model (failures cs))

variable {α : Type} {model : String} {cs : List FieldCheck} {build : AllHold cs → α} {a : α}

/-- A model is built exactly where all its checks hold, from the fields and the proof of the
    checks. -/
theorem validated_eq_ok_iff : validated model cs build = .ok a ↔ ∃ h, build h = a := by
  unfold validated
  split
  next h => simp [h]
  next h => simp [h]

/-- Fields that pass the checks give a model. -/
theorem validated_of_holds (h : AllHold cs) : validated model cs build = .ok (build h) :=
  dif_pos h

end TradingBot
