import TradingBot.Domain.Orders
import Mathlib.Tactic.Positivity

/-!
# Positions, account state and equity

The bot's own ledger. A position never holds a negative quantity: the fill that
would take it there is refused with an error.
-/

namespace TradingBot

structure Position where
  symbol : String
  quantity : ℚ
  averagePrice : ℚ
  quantity_nonneg : 0 ≤ quantity
  averagePrice_nonneg : 0 ≤ averagePrice
  deriving Repr

namespace Position

def checks (quantity averagePrice : ℚ) : List FieldCheck :=
  [.geZero "quantity" quantity, .geZero "average_price" averagePrice]

def validate (symbol : String) (quantity averagePrice : ℚ) : Except Error Position :=
  validated "Position" (checks quantity averagePrice) fun h =>
    { symbol, quantity, averagePrice, quantity_nonneg := h.1, averagePrice_nonneg := h.2.1 }

/-- A position that is accepted has the values it was given. -/
theorem validate_ok {symbol : String} {quantity averagePrice : ℚ} {p : Position}
    (h : validate symbol quantity averagePrice = .ok p) :
    p.symbol = symbol ∧ p.quantity = quantity ∧ p.averagePrice = averagePrice := by
  obtain ⟨_, rfl⟩ := validated_eq_ok_iff.mp h
  exact ⟨rfl, rfl, rfl⟩

/-- A position is accepted if quantity and average are not negative. -/
theorem validate_of_nonneg {symbol : String} {quantity averagePrice : ℚ} (hq : 0 ≤ quantity)
    (ha : 0 ≤ averagePrice) :
    validate symbol quantity averagePrice = .ok ⟨symbol, quantity, averagePrice, hq, ha⟩ :=
  have hchecks : AllHold (checks quantity averagePrice) := ⟨hq, ha, trivial⟩
  validated_of_holds hchecks

def notionalAt (p : Position) (price : ℚ) : ℚ := p.quantity * price

/-- The error of a fill for another symbol. -/
def wrongSymbol : Error := .valueError "fill symbol does not match position symbol"

/-- The error of a sell beyond the held quantity. -/
def shortSelling : Error :=
  .valueError "sell fill exceeds the held quantity: short selling is not supported"

/-- The position after `fill`, using weighted average cost. -/
def apply (p : Position) (fill : Fill) : Except Error Position :=
  if fill.symbol ≠ p.symbol then
    .error wrongSymbol
  else if fill.side = .buy then
    -- a fill has a positive quantity, so the division is defined
    let newQuantity := p.quantity + fill.quantity
    let cost := p.quantity * p.averagePrice + fill.notional
    validate p.symbol newQuantity (cost / newQuantity)
  else if fill.quantity > p.quantity then
    .error shortSelling
  else
    -- a closed position forgets what it cost
    let newQuantity := p.quantity - fill.quantity
    validate p.symbol newQuantity (if newQuantity > 0 then p.averagePrice else 0)

end Position

/-- What a fill does to the held quantity. -/
def Fill.signedQuantity (f : Fill) : ℚ :=
  match f.side with
  | .buy => f.quantity
  | .sell => -f.quantity

/-- What a fill does to the cash: the notional moves with the side, the fee is
    always paid. -/
def Fill.cashFlow (f : Fill) : ℚ :=
  match f.side with
  | .buy => -(f.notional + f.feeQuote)
  | .sell => f.notional - f.feeQuote

namespace Position

/-- Applying a fill moves the quantity by the signed quantity of the fill. -/
theorem apply_ok {p q : Position} {f : Fill} (h : p.apply f = .ok q) :
    f.symbol = p.symbol ∧ q.symbol = p.symbol ∧ q.quantity = p.quantity + f.signedQuantity := by
  unfold apply at h
  split at h
  next => cases h
  next hsym =>
    have hsym : f.symbol = p.symbol := not_not.mp hsym
    split at h
    next hbuy =>
      obtain ⟨hs, hq, -⟩ := validate_ok h
      exact ⟨hsym, hs, by rw [hq, Fill.signedQuantity, hbuy]⟩
    next hsell =>
      -- the guard on short selling comes before the new position
      have hsell : f.side = .sell := by cases hside : f.side <;> simp_all
      split at h
      next => cases h
      next =>
        obtain ⟨hs, hq, -⟩ := validate_ok h
        exact ⟨hsym, hs, by rw [hq, Fill.signedQuantity, hsell, sub_eq_add_neg]⟩

/-- A fill of the position's symbol is refused only when it sells more than is held. -/
theorem apply_of_covered {p : Position} {f : Fill} (hsym : f.symbol = p.symbol)
    (hcovered : f.side = .sell → f.quantity ≤ p.quantity) : ∃ q, p.apply f = .ok q := by
  unfold apply
  rw [if_neg (not_not.mpr hsym)]
  -- what the position and the fill carry is enough for both validations
  have hq := p.quantity_nonneg
  have ha := p.averagePrice_nonneg
  have hfq := f.quantity_pos
  have hfp := f.price_pos
  split
  next =>
    have hcost : 0 ≤ (p.quantity * p.averagePrice + f.notional) / (p.quantity + f.quantity) := by
      unfold Fill.notional; positivity
    exact ⟨_, validate_of_nonneg (by positivity) hcost⟩
  next hsell =>
    have hsell : f.side = .sell := by cases hside : f.side <;> simp_all
    rw [if_neg (not_lt.mpr (hcovered hsell))]
    refine ⟨_, validate_of_nonneg (sub_nonneg.mpr (hcovered hsell)) ?_⟩
    split
    · exact ha
    · exact le_rfl

/-- A fill that does not sell more than is held never raises the short-selling error. -/
theorem apply_ne_shortSelling {p : Position} {f : Fill}
    (hcovered : f.side = .sell → f.quantity ≤ p.quantity) : p.apply f ≠ .error shortSelling := by
  by_cases hsym : f.symbol = p.symbol
  · obtain ⟨q, hq⟩ := apply_of_covered hsym hcovered
    rw [hq]
    exact nofun
  · rw [apply, if_pos hsym]
    simp [wrongSymbol, shortSelling]

end Position

/-- The ledger the bot reasons about. -/
structure AccountState where
  cashQuote : ℚ
  position : Position
  dayOpeningEquity : ℚ
  dayOpeningEquity_pos : 0 < dayOpeningEquity
  deriving Repr

namespace AccountState

def checks (dayOpeningEquity : ℚ) : List FieldCheck :=
  [.gtZero "day_opening_equity" dayOpeningEquity]

def validate (cashQuote : ℚ) (position : Position) (dayOpeningEquity : ℚ) :
    Except Error AccountState :=
  validated "AccountState" (checks dayOpeningEquity) fun h =>
    { cashQuote, position, dayOpeningEquity, dayOpeningEquity_pos := h.1 }

/-- An account that is accepted has the values it was given. -/
theorem validate_ok {cashQuote : ℚ} {position : Position} {dayOpeningEquity : ℚ}
    {a : AccountState} (h : validate cashQuote position dayOpeningEquity = .ok a) :
    a.cashQuote = cashQuote ∧ a.position = position ∧ a.dayOpeningEquity = dayOpeningEquity := by
  obtain ⟨_, rfl⟩ := validated_eq_ok_iff.mp h
  exact ⟨rfl, rfl, rfl⟩

def equityAt (a : AccountState) (price : ℚ) : ℚ := a.cashQuote + a.position.notionalAt price

def dailyPnlAt (a : AccountState) (price : ℚ) : ℚ := a.equityAt price - a.dayOpeningEquity

end AccountState

structure EquitySnapshot where
  takenAt : Instant
  symbol : String
  markPrice : ℚ
  cashQuote : ℚ
  positionQuantity : ℚ
  equityQuote : ℚ
  dayOpeningEquity : ℚ
  markPrice_pos : 0 < markPrice
  positionQuantity_nonneg : 0 ≤ positionQuantity
  dayOpeningEquity_pos : 0 < dayOpeningEquity
  deriving Repr

namespace EquitySnapshot

def checks (markPrice positionQuantity dayOpeningEquity : ℚ) : List FieldCheck :=
  [.gtZero "mark_price" markPrice, .geZero "position_quantity" positionQuantity,
    .gtZero "day_opening_equity" dayOpeningEquity]

def validate (takenAt : Instant) (symbol : String)
    (markPrice cashQuote positionQuantity equityQuote dayOpeningEquity : ℚ) :
    Except Error EquitySnapshot :=
  validated "EquitySnapshot" (checks markPrice positionQuantity dayOpeningEquity) fun h =>
    { takenAt, symbol, markPrice, cashQuote, positionQuantity, equityQuote, dayOpeningEquity
      markPrice_pos := h.1, positionQuantity_nonneg := h.2.1, dayOpeningEquity_pos := h.2.2.1 }

/-- An equity snapshot that is accepted has the values it was given. -/
theorem validate_ok {takenAt : Instant} {symbol : String}
    {markPrice cashQuote positionQuantity equityQuote dayOpeningEquity : ℚ} {e : EquitySnapshot}
    (h : validate takenAt symbol markPrice cashQuote positionQuantity equityQuote
      dayOpeningEquity = .ok e) :
    e.takenAt = takenAt ∧ e.symbol = symbol ∧ e.markPrice = markPrice ∧
      e.cashQuote = cashQuote ∧ e.positionQuantity = positionQuantity ∧
      e.equityQuote = equityQuote ∧ e.dayOpeningEquity = dayOpeningEquity := by
  obtain ⟨_, rfl⟩ := validated_eq_ok_iff.mp h
  exact ⟨rfl, rfl, rfl, rfl, rfl, rfl, rfl⟩

/-- Intraday drawdown against the day's opening equity, as a positive fraction. -/
def drawdownRatio (e : EquitySnapshot) : ℚ :=
  let loss := e.dayOpeningEquity - e.equityQuote
  if loss ≤ 0 then 0 else loss / e.dayOpeningEquity

/-- The ratio is the lost fraction of the opening equity, or nothing. -/
theorem drawdownRatio_eq_max (e : EquitySnapshot) :
    e.drawdownRatio = max 0 ((e.dayOpeningEquity - e.equityQuote) / e.dayOpeningEquity) := by
  have hopening := e.dayOpeningEquity_pos
  simp only [drawdownRatio]
  split
  next hgain => exact (max_eq_left (div_nonpos_of_nonpos_of_nonneg hgain hopening.le)).symm
  next hloss => exact (max_eq_right (div_nonneg (not_le.mp hloss).le hopening.le)).symm

end EquitySnapshot

end TradingBot
