import TradingBot.Errors
import Mathlib.Algebra.BigOperators.Group.List.Basic

/-!
# Signals, orders and decisions

What the strategy concluded, what the policy engine approved, and what the venue
answered. A signal carries no quantity and no price; an order intent is the only
place where a size appears.
-/

namespace TradingBot

inductive SignalAction where
  | buy
  | sell
  | hold
  deriving DecidableEq, Repr

/-- What the strategy concluded from a market snapshot. -/
structure Signal where
  symbol : String
  action : SignalAction
  strength : ℚ
  asOf : Instant
  strategy : String
  reason : String
  strength_nonneg : 0 ≤ strength
  strength_le_one : strength ≤ 1
  deriving Repr

namespace Signal

def checks (strength : ℚ) : List FieldCheck :=
  [.geZero "strength" strength, .leOne "strength" strength]

def validate (symbol : String) (action : SignalAction) (strength : ℚ) (asOf : Instant)
    (strategy reason : String) : Except Error Signal :=
  validated "Signal" (checks strength) fun h =>
    { symbol, action, strength, asOf, strategy, reason
      strength_nonneg := h.1, strength_le_one := h.2.1 }

/-- A signal is accepted if its strength is between zero and one. -/
theorem validate_of_mem {symbol : String} {action : SignalAction} {strength : ℚ} {asOf : Instant}
    {strategy reason : String} (h0 : 0 ≤ strength) (h1 : strength ≤ 1) :
    validate symbol action strength asOf strategy reason =
      .ok ⟨symbol, action, strength, asOf, strategy, reason, h0, h1⟩ :=
  have hchecks : AllHold (checks strength) := ⟨h0, h1, trivial⟩
  validated_of_holds hchecks

end Signal

inductive OrderSide where
  | buy
  | sell
  deriving DecidableEq, Repr

namespace OrderSide

/-- The value of the enumeration member, as it enters client order ids. -/
def value : OrderSide → String
  | .buy => "buy"
  | .sell => "sell"

/-- The name of a side tells the side. -/
theorem value_injective : Function.Injective value := by
  intro a b h
  cases a <;> cases b <;> first | rfl | simp [value] at h

end OrderSide

inductive OrderStatus where
  | filled
  | partiallyFilled
  | rejected
  deriving DecidableEq, Repr

/-- An order the policy engine has approved but that nobody has sent yet. -/
structure OrderIntent where
  clientOrderId : String
  symbol : String
  side : OrderSide
  quantity : ℚ
  referencePrice : ℚ
  createdAt : Instant
  quantity_pos : 0 < quantity
  referencePrice_pos : 0 < referencePrice
  deriving Repr

namespace OrderIntent

def checks (quantity referencePrice : ℚ) : List FieldCheck :=
  [.gtZero "quantity" quantity, .gtZero "reference_price" referencePrice]

def validate (clientOrderId symbol : String) (side : OrderSide) (quantity referencePrice : ℚ)
    (createdAt : Instant) : Except Error OrderIntent :=
  validated "OrderIntent" (checks quantity referencePrice) fun h =>
    { clientOrderId, symbol, side, quantity, referencePrice, createdAt
      quantity_pos := h.1, referencePrice_pos := h.2.1 }

/-- An intent is accepted if its quantity and its price are positive. -/
theorem validate_of_pos {clientOrderId symbol : String} {side : OrderSide}
    {quantity referencePrice : ℚ} {createdAt : Instant} (hq : 0 < quantity)
    (hp : 0 < referencePrice) :
    validate clientOrderId symbol side quantity referencePrice createdAt =
      .ok ⟨clientOrderId, symbol, side, quantity, referencePrice, createdAt, hq, hp⟩ :=
  have hchecks : AllHold (checks quantity referencePrice) := ⟨hq, hp, trivial⟩
  validated_of_holds hchecks

def notional (i : OrderIntent) : ℚ := i.quantity * i.referencePrice

end OrderIntent

structure Fill where
  clientOrderId : String
  symbol : String
  side : OrderSide
  quantity : ℚ
  price : ℚ
  feeQuote : ℚ
  filledAt : Instant
  quantity_pos : 0 < quantity
  price_pos : 0 < price
  feeQuote_nonneg : 0 ≤ feeQuote
  deriving Repr

namespace Fill

def checks (quantity price feeQuote : ℚ) : List FieldCheck :=
  [.gtZero "quantity" quantity, .gtZero "price" price, .geZero "fee_quote" feeQuote]

def validate (clientOrderId symbol : String) (side : OrderSide) (quantity price feeQuote : ℚ)
    (filledAt : Instant) : Except Error Fill :=
  validated "Fill" (checks quantity price feeQuote) fun h =>
    { clientOrderId, symbol, side, quantity, price, feeQuote, filledAt
      quantity_pos := h.1, price_pos := h.2.1, feeQuote_nonneg := h.2.2.1 }

def notional (f : Fill) : ℚ := f.quantity * f.price

/-- A fill that was accepted carries the values it was built from. -/
theorem validate_ok {clientOrderId symbol : String} {side : OrderSide}
    {quantity price feeQuote : ℚ} {filledAt : Instant} {f : Fill}
    (h : validate clientOrderId symbol side quantity price feeQuote filledAt = .ok f) :
    f.clientOrderId = clientOrderId ∧ f.symbol = symbol ∧ f.side = side ∧
      f.quantity = quantity ∧ f.price = price ∧ f.feeQuote = feeQuote ∧
      f.filledAt = filledAt := by
  obtain ⟨_, rfl⟩ := validated_eq_ok_iff.mp h
  exact ⟨rfl, rfl, rfl, rfl, rfl, rfl, rfl⟩

end Fill

/-- The venue's answer to one intent: a status, zero or more fills, and, when
    rejected, the reason the venue gave. -/
structure OrderExecution where
  intent : OrderIntent
  status : OrderStatus
  venueOrderId : Option String
  fills : List Fill
  rejectionReason : Option String
  deriving Repr

namespace OrderExecution

def filledQuantity (e : OrderExecution) : ℚ := (e.fills.map Fill.quantity).sum

def feesQuote (e : OrderExecution) : ℚ := (e.fills.map Fill.feeQuote).sum

end OrderExecution

/-! ## Policy decisions -/

inductive RiskCheckName where
  | killSwitch
  | dailyLoss
  | actionableSignal
  | positionLimit
  | availableCash
  | availableInventory
  | minNotional
  deriving DecidableEq, Repr

/-- The text of a check with the values the source interpolates into it. -/
inductive CheckDetail where
  /-- "kill switch is engaged" -/
  | killSwitchEngaged
  /-- "kill switch is clear" -/
  | killSwitchClear
  /-- "daily pnl {dailyPnl} against a limit of -{limit}" -/
  | dailyPnl (dailyPnl limit : ℚ)
  /-- "signal action is {action}" -/
  | signalAction (action : SignalAction)
  /-- "position {heldNotional} of a maximum {maximum}, headroom {headroom}" -/
  | position (heldNotional maximum headroom : ℚ)
  /-- "cash {cash}, requested notional {notional}" -/
  | cash (cash notional : ℚ)
  /-- "holding {held} {symbol}" -/
  | holding (held : ℚ) (symbol : String)
  /-- "notional {notional} against a minimum of {minimum}" -/
  | notional (notional minimum : ℚ)
  deriving DecidableEq, Repr

structure RiskCheck where
  name : RiskCheckName
  passed : Bool
  detail : CheckDetail
  deriving DecidableEq, Repr

inductive DecisionOutcome where
  | submit
  | hold
  deriving DecidableEq, Repr

/-- The policy engine's verdict for one cycle: a submission carries an intent, a hold
    carries none. -/
structure PolicyDecision where
  outcome : DecisionOutcome
  reason : String
  checks : List RiskCheck
  intent : Option OrderIntent
  checks_nonempty : checks ≠ []
  intent_matches : outcome = .submit ↔ intent.isSome
  deriving Repr

namespace PolicyDecision

/-- `check_intent_matches_outcome`. -/
def outcomeChecks (outcome : DecisionOutcome) (intent : Option OrderIntent) : List FieldCheck :=
  [.rule "a submit decision must carry an order intent" ¬(outcome = .submit ∧ intent = none),
    .rule "a hold decision must not carry an order intent" ¬(outcome = .hold ∧ intent ≠ none)]

/-- Where the checks of a decision hold, the intent is there exactly for a submission. -/
private theorem matches_of_checks {outcome : DecisionOutcome} {intent : Option OrderIntent}
    (h : AllHold (outcomeChecks outcome intent)) : outcome = .submit ↔ intent.isSome := by
  obtain ⟨hsubmit, hhold, -⟩ := h
  cases outcome <;> cases intent <;> simp_all

/-- Build a decision, with the model validator after the field constraint. -/
def validate (outcome : DecisionOutcome) (reason : String) (checks : List RiskCheck)
    (intent : Option OrderIntent) : Except Error PolicyDecision :=
  if hf : AllHold [.minLengthOne "checks" checks] then
    if ho : AllHold (outcomeChecks outcome intent) then
      .ok { outcome, reason, checks, intent
            checks_nonempty := List.ne_nil_of_length_pos hf.1
            intent_matches := matches_of_checks ho }
    else
      .error (.validationError "PolicyDecision" ((failures (outcomeChecks outcome intent)).take 1))
  else .error (.validationError "PolicyDecision" (failures [.minLengthOne "checks" checks]))

def failedChecks (d : PolicyDecision) : List RiskCheck := d.checks.filter (!·.passed)

/-- A submission with an intent is accepted. -/
theorem validate_submit (reason : String) (i : OrderIntent) {checks : List RiskCheck}
    (hne : checks ≠ []) :
    ∃ d, validate .submit reason checks (some i) = .ok d ∧ d.outcome = .submit ∧
      d.reason = reason ∧ d.checks = checks ∧ d.intent = some i := by
  have hf : AllHold [.minLengthOne "checks" checks] := ⟨List.length_pos_iff.mpr hne, trivial⟩
  have ho : AllHold (outcomeChecks .submit (some i)) := by simp [outcomeChecks]
  exact ⟨_, (dif_pos hf).trans (dif_pos ho), rfl, rfl, rfl, rfl⟩

/-- A hold without an intent is accepted. -/
theorem validate_hold (reason : String) {checks : List RiskCheck} (hne : checks ≠ []) :
    ∃ d, validate .hold reason checks none = .ok d ∧ d.outcome = .hold ∧
      d.reason = reason ∧ d.checks = checks ∧ d.intent = none := by
  have hf : AllHold [.minLengthOne "checks" checks] := ⟨List.length_pos_iff.mpr hne, trivial⟩
  have ho : AllHold (outcomeChecks .hold none) := by simp [outcomeChecks]
  exact ⟨_, (dif_pos hf).trans (dif_pos ho), rfl, rfl, rfl, rfl⟩

/-- A submission always has its intent at hand. -/
theorem exists_intent {d : PolicyDecision} (h : d.outcome = .submit) : ∃ i, d.intent = some i :=
  Option.isSome_iff_exists.mp (d.intent_matches.mp h)

/-- A decision holds exactly when it has no intent. -/
theorem outcome_eq_hold_iff {d : PolicyDecision} : d.outcome = .hold ↔ d.intent = none := by
  have hmatches := d.intent_matches
  cases houtcome : d.outcome <;> cases hintent : d.intent <;> simp_all

end PolicyDecision

end TradingBot
