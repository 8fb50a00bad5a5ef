import TradingBot.Execution.DecimalLedger
import TradingBot.Spec.DecimalRounding
import TradingBot.Spec.Ledger
import TradingBot.Spec.Scenario

/-!
# The ledger under rounded arithmetic

Cash, fees and quantities are sums of amounts that fit their columns, so that 28 digits hold
every one of them exactly while the account stays below ten billion. Only the average price is a
quotient. It is off by the three roundings that every purchase adds, and since nothing is
computed from it but the next average, nothing else is.
-/

namespace TradingBot

open FixedPoint

/-! ## Amounts that the context holds -/

/-- An amount in a column, below ten billion, has no more digits than the context. -/
theorem rounded_of_mem {x : ℚ} (hx : x ∈ Grid ℚ 18) (hlt : |x| < 10 ^ 10) : rounded x = x :=
  roundSig_of_mem_grid hx hlt (by decide)

/-- An equity of amounts that fit is exact. -/
theorem equityIn_default {cashQuote markPrice : ℚ} {position : Position}
    (hcash : cashQuote ∈ Grid ℚ 18) (hmem : position.notionalAt markPrice ∈ Grid ℚ 18)
    (hlt : |cashQuote| + |position.notionalAt markPrice| < 10 ^ 10) :
    equityIn .default cashQuote position markPrice =
      cashQuote + position.notionalAt markPrice := by
  have hheld : |position.notionalAt markPrice| < 10 ^ 10 := by linarith [abs_nonneg cashQuote]
  have hnotional : position.notionalAtIn .default markPrice = position.notionalAt markPrice :=
    rounded_of_mem hmem hheld
  rw [equityIn, hnotional]
  exact rounded_of_mem (add_mem hcash hmem) ((abs_add_le _ _).trans_lt hlt)

/-- A fill moves a positive notional. -/
theorem Fill.notional_pos (f : Fill) : 0 < f.notional := mul_pos f.quantity_pos f.price_pos

/-! ## One fill -/

/-- The roundings of the average that a fill adds. -/
def Fill.roundings (f : Fill) : ℕ := if f.side = .buy then 3 else 0

/-- The cash that a fill moves is at most its notional and its fee. -/
theorem Fill.abs_cashFlow_le (f : Fill) : |f.cashFlow| ≤ f.notional + f.feeQuote := by
  have hn := f.notional_pos
  have hfee := f.feeQuote_nonneg
  unfold cashFlow
  cases f.side with
  | buy => rw [abs_neg, abs_of_nonneg (by positivity)]
  | sell => exact abs_le.mpr ⟨by linarith, by linarith⟩

/-- No amount that a fill moves, and none that it leaves, has more digits than the context. -/
structure LedgerUpdate.RoomFor (u : LedgerUpdate) (f : Fill) : Prop where
  notional : rounded f.notional = f.notional
  cashFlow : rounded f.cashFlow = f.cashFlow
  cash : rounded (u.cashQuote + f.cashFlow) = u.cashQuote + f.cashFlow
  quantity : rounded (u.position.quantity + f.signedQuantity) =
    u.position.quantity + f.signedQuantity
  fees : rounded (u.feesQuote + f.feeQuote) = u.feesQuote + f.feeQuote

namespace Position

variable {p p' : Position} {f : Fill}

/-- The average after a buy, in the default context. -/
private def averageAfter (quantity averagePrice : ℚ) (f : Fill) (newQuantity : ℚ) : ℚ :=
  rounded (rounded (rounded (quantity * averagePrice) + f.notional) / newQuantity)

/-- The average of a position is not negative. -/
private theorem averageAfter_nonneg {quantity averagePrice newQuantity : ℚ} (hq : 0 ≤ quantity)
    (ha : 0 ≤ averagePrice) (hn : 0 ≤ newQuantity) :
    0 ≤ averageAfter quantity averagePrice f newQuantity := by
  have hcost : 0 ≤ rounded (quantity * averagePrice) := rounded_nonneg (mul_nonneg hq ha)
  exact rounded_nonneg (div_nonneg (rounded_nonneg (add_nonneg hcost f.notional_pos.le)) hn)

/-- A buy rounds the average three times: the cost of what is held, the cost of all, and their
    quotient. -/
private theorem averageAfter_rounded {k : ℕ} (hk : ((k + 3 : ℕ) : ℚ) * roundoff < 1)
    (hrounded : Rounded roundoff k p'.averagePrice p.averagePrice) (newQuantity : ℚ) :
    Rounded roundoff (k + 3) (averageAfter p.quantity p'.averagePrice f newQuantity)
      ((p.quantity * p.averagePrice + f.notional) / newQuantity) := by
  have hu := roundoff_pos
  push_cast at hk
  -- the roundings on the way are fewer than those at the end
  have hfewer {j : ℕ} (hj : j ≤ 2) : ((k + j : ℕ) : ℚ) * roundoff < 1 := by
    have hle : ((k + j : ℕ) : ℚ) ≤ k + 3 := by
      have hcast : (j : ℚ) ≤ 2 := by exact_mod_cast hj
      push_cast
      linarith
    exact (mul_le_mul_of_nonneg_right hle hu.le).trans_lt hk
  have hcost : Rounded roundoff (k + 1) (rounded (p.quantity * p'.averagePrice))
      (p.quantity * p.averagePrice) :=
    rounded_succ (by simpa using hfewer (j := 1) (by decide)) (hrounded.mul_exact _)
  have hsum : Rounded roundoff (k + 1) (rounded (p.quantity * p'.averagePrice) + f.notional)
      (p.quantity * p.averagePrice + f.notional) :=
    hcost.add (.self hu.le (hfewer (by decide)) _)
      (mul_nonneg p.quantity_nonneg p.averagePrice_nonneg) f.notional_pos.le
  have htotal : Rounded roundoff (k + 2)
      (rounded (rounded (p.quantity * p'.averagePrice) + f.notional))
      (p.quantity * p.averagePrice + f.notional) :=
    rounded_succ (by push_cast; linarith [hfewer (j := 2) le_rfl]) hsum
  exact rounded_succ (by push_cast; linarith) (htotal.div_exact newQuantity)

/-- A position under the default context: an equal quantity, and an average after a few more
    roundings. -/
structure Follows (p p' : Position) (f : Fill) (q q' : Position) : Prop where
  moved : q.quantity = p.quantity + f.signedQuantity
  symbol : q'.symbol = q.symbol
  quantity : q'.quantity = q.quantity
  average : ∀ k : ℕ, ((k + f.roundings : ℕ) : ℚ) * roundoff < 1 →
    Rounded roundoff k p'.averagePrice p.averagePrice →
      Rounded roundoff (k + f.roundings) q'.averagePrice q.averagePrice

/-- A buy of the position's symbol. -/
private theorem applyIn_buy (hsymbol : p'.symbol = p.symbol) (hquantity : p'.quantity = p.quantity)
    (hnotional : rounded f.notional = f.notional)
    (hmoved : rounded (p.quantity + f.signedQuantity) = p.quantity + f.signedQuantity)
    (hsame : f.symbol = p.symbol) (hbuy : f.side = .buy) :
    Except.Agree (Follows p p' f) (p.apply f) (p'.applyIn .default f) := by
  have hp := p.quantity_nonneg
  have hf := f.quantity_pos
  rw [Fill.signedQuantity, hbuy] at hmoved
  have hadd : DecimalContext.default.add p.quantity f.quantity = p.quantity + f.quantity := hmoved
  have hpaid : f.notionalIn .default = f.notional := hnotional
  have hdiv : DecimalContext.default.div
      (DecimalContext.default.add (DecimalContext.default.mul p.quantity p'.averagePrice)
        (f.notionalIn .default)) (p.quantity + f.quantity) =
      .ok (averageAfter p.quantity p'.averagePrice f (p.quantity + f.quantity)) := by
    rw [hpaid]
    exact if_pos (by positivity)
  have hcost : 0 ≤ p.quantity * p.averagePrice + f.notional :=
    add_nonneg (mul_nonneg hp p.averagePrice_nonneg) f.notional_pos.le
  unfold apply applyIn
  rw [hsymbol, hquantity, if_neg (not_not.mpr hsame), if_neg (not_not.mpr hsame), if_pos hbuy,
    if_pos hbuy]
  simp only [hadd, hdiv, bind, Except.bind]
  -- neither quantity nor average is refused, whichever way they were computed
  rw [validate_of_nonneg (by positivity) (div_nonneg hcost (by positivity)),
    validate_of_nonneg (by positivity)
      (averageAfter_nonneg hp p'.averagePrice_nonneg (by positivity))]
  refine .ok ⟨by rw [Fill.signedQuantity, hbuy], rfl, rfl, fun k hk hrounded => ?_⟩
  rw [Fill.roundings, if_pos hbuy] at hk ⊢
  exact averageAfter_rounded hk hrounded _

/-- A sale of the position's symbol, which may be of more than is held. -/
private theorem applyIn_sell (hsymbol : p'.symbol = p.symbol)
    (hquantity : p'.quantity = p.quantity)
    (hkept : rounded (p.quantity + f.signedQuantity) = p.quantity + f.signedQuantity)
    (hsame : f.symbol = p.symbol) (hsell : f.side = .sell) :
    Except.Agree (Follows p p' f) (p.apply f) (p'.applyIn .default f) := by
  have hside : ¬f.side = .buy := by rw [hsell]; decide
  unfold apply applyIn
  rw [hsymbol, hquantity, if_neg (not_not.mpr hsame), if_neg (not_not.mpr hsame), if_neg hside,
    if_neg hside]
  by_cases hshort : f.quantity > p.quantity
  · rw [if_pos hshort, if_pos hshort]
    exact .error _
  · have hleft : 0 ≤ p.quantity - f.quantity := sub_nonneg.mpr (not_lt.mp hshort)
    have hmoved : p.quantity - f.quantity = p.quantity + f.signedQuantity := by
      rw [Fill.signedQuantity, hsell, sub_eq_add_neg]
    have hsub : DecimalContext.default.sub p.quantity f.quantity = p.quantity - f.quantity := by
      change rounded (p.quantity - f.quantity) = _
      rw [hmoved, hkept]
    have haverage (q : Position) :
        0 ≤ if p.quantity - f.quantity > 0 then q.averagePrice else 0 := by
      split
      · exact q.averagePrice_nonneg
      · exact le_rfl
    rw [if_neg hshort, if_neg hshort]
    simp only [hsub]
    rw [validate_of_nonneg hleft (haverage p), validate_of_nonneg hleft (haverage p')]
    refine .ok ⟨hmoved, rfl, rfl, fun k hk hrounded => ?_⟩
    rw [Fill.roundings, if_neg hside] at hk ⊢
    -- a closed position forgets its average, rounded or not
    split
    · exact hrounded
    · exact .self roundoff_pos.le hk 0

/-- Applying a fill in the default context raises what exact arithmetic raises, and gives the
    same quantity. -/
theorem applyIn_agrees (hsymbol : p'.symbol = p.symbol) (hquantity : p'.quantity = p.quantity)
    (hnotional : rounded f.notional = f.notional)
    (hmoved : rounded (p.quantity + f.signedQuantity) = p.quantity + f.signedQuantity) :
    Except.Agree (Follows p p' f) (p.apply f) (p'.applyIn .default f) := by
  by_cases hsame : f.symbol = p.symbol
  · cases hside : f.side with
    | buy => exact applyIn_buy hsymbol hquantity hnotional hmoved hsame hside
    | sell => exact applyIn_sell hsymbol hquantity hmoved hsame hside
  · rw [apply, applyIn, hsymbol, if_pos hsame, if_pos hsame]
    exact .error _

end Position

/-! ## All fills of an execution -/

namespace LedgerUpdate

/-- An update with fills to come whose amounts the context holds. -/
structure Fits (fills : List Fill) (u : LedgerUpdate) : Prop where
  cash_mem : u.cashQuote ∈ Grid ℚ 18
  fees_mem : u.feesQuote ∈ Grid ℚ 18
  quantity_mem : u.position.quantity ∈ Grid ℚ 18
  exact : ∀ f ∈ fills, f.Exact
  fees_nonneg : 0 ≤ u.feesQuote
  turnover : |u.cashQuote| + (fills.map fun f => f.notional + f.feeQuote).sum < 10 ^ 10
  fees : u.feesQuote + (fills.map Fill.feeQuote).sum < 10 ^ 10
  quantity : u.position.quantity + (fills.map Fill.quantity).sum < 10 ^ 10

/-- Two updates that differ in the average price alone. -/
structure SameAmounts (u v : LedgerUpdate) : Prop where
  cash : v.cashQuote = u.cashQuote
  fees : v.feesQuote = u.feesQuote
  symbol : v.position.symbol = u.position.symbol
  quantity : v.position.quantity = u.position.quantity

variable {u v : LedgerUpdate} {f : Fill} {fills : List Fill}

/-- The cash after a fill, in the default context. -/
private theorem cashIn_default (h : u.RoomFor f) :
    (if f.side = .buy then
        DecimalContext.default.sub u.cashQuote
          (DecimalContext.default.add (f.notionalIn .default) f.feeQuote)
      else DecimalContext.default.add u.cashQuote
        (DecimalContext.default.sub (f.notionalIn .default) f.feeQuote)) =
      u.cashQuote + f.cashFlow := by
  have hpaid : f.notionalIn .default = f.notional := h.notional
  have hflow := h.cashFlow
  have hcash := h.cash
  rw [hpaid]
  cases hside : f.side with
  | buy =>
    rw [Fill.cashFlow, hside] at hflow hcash
    -- a change of sign is rounded as the amount is
    have hcost : rounded (f.notional + f.feeQuote) = f.notional + f.feeQuote := by
      rw [rounded, roundSig_neg] at hflow
      exact neg_injective hflow
    change rounded (u.cashQuote - rounded (f.notional + f.feeQuote)) = _
    rw [hcost, Fill.cashFlow, hside, sub_eq_add_neg, hcash]
  | sell =>
    rw [Fill.cashFlow, hside] at hflow hcash
    change rounded (u.cashQuote + rounded (f.notional - f.feeQuote)) = _
    rw [hflow, Fill.cashFlow, hside, hcash]

/-- A fill moves the cash by its cash flow, with exact sums. -/
private theorem applyFill_eq (u : LedgerUpdate) (f : Fill) :
    u.applyFill f = u.position.apply f >>= fun q =>
      .ok ⟨u.cashQuote + f.cashFlow, q, u.feesQuote + f.feeQuote⟩ := by
  have hcash : (if f.side = .buy then u.cashQuote - (f.notional + f.feeQuote)
      else u.cashQuote + (f.notional - f.feeQuote)) = u.cashQuote + f.cashFlow := by
    cases hside : f.side <;> simp [Fill.cashFlow, hside, sub_eq_add_neg]
  simp only [applyFill, hcash]
  rfl

/-- What the next fill moves and leaves has no more digits than the context. -/
private theorem Fits.roomFor (hfits : Fits (f :: fills) u) : u.RoomFor f := by
  have hexact := hfits.exact f List.mem_cons_self
  have hturnover := hfits.turnover
  have hfees := hfits.fees
  have hquantity := hfits.quantity
  rw [List.map_cons, List.sum_cons] at hturnover hfees hquantity
  -- the turnover bounds this fill, as the ones after it are not negative
  have hrest : 0 ≤ (fills.map fun g => g.notional + g.feeQuote).sum :=
    List.sum_nonneg (by simpa using fun g _ => add_nonneg g.notional_pos.le g.feeQuote_nonneg)
  have hrestFees : 0 ≤ (fills.map Fill.feeQuote).sum :=
    List.sum_nonneg (by simpa using fun g _ => g.feeQuote_nonneg)
  have hrestQuantity : 0 ≤ (fills.map Fill.quantity).sum :=
    List.sum_nonneg (by simpa using fun g _ => g.quantity_pos.le)
  have hn := f.notional_pos
  have hfee := f.feeQuote_nonneg
  have hq := f.quantity_pos
  have hheld := u.position.quantity_nonneg
  have hflow := f.abs_cashFlow_le
  have habs := abs_nonneg u.cashQuote
  have hsigned : |f.signedQuantity| = f.quantity := by
    unfold Fill.signedQuantity
    cases f.side with
    | buy => exact abs_of_pos hq
    | sell => rw [abs_neg, abs_of_pos hq]
  -- each amount is on the grid and below the bound
  refine ⟨rounded_of_mem hexact.notional ?_, rounded_of_mem hexact.cashFlow_mem ?_,
    rounded_of_mem (add_mem hfits.cash_mem hexact.cashFlow_mem) ?_,
    rounded_of_mem (add_mem hfits.quantity_mem hexact.signedQuantity_mem) ?_,
    rounded_of_mem (add_mem hfits.fees_mem hexact.feeQuote) ?_⟩
  · rw [abs_of_pos hn]
    linarith
  · linarith
  · exact (abs_add_le _ _).trans_lt (by linarith)
  · refine (abs_add_le _ _).trans_lt ?_
    rw [hsigned, abs_of_nonneg hheld]
    linarith
  · rw [abs_of_nonneg (add_nonneg hfits.fees_nonneg hfee)]
    linarith

/-- With room for the fill, the context moves the cash by exactly as much. -/
private theorem applyFillIn_eq (h : SameAmounts u v) (hroom : u.RoomFor f) :
    v.applyFillIn .default f = v.position.applyIn .default f >>= fun q =>
      .ok ⟨u.cashQuote + f.cashFlow, q, u.feesQuote + f.feeQuote⟩ := by
  have hpaid : DecimalContext.default.add u.feesQuote f.feeQuote = u.feesQuote + f.feeQuote :=
    hroom.fees
  have hcash := cashIn_default hroom
  simp only [applyFillIn, h.cash, h.fees, hcash, hpaid]
  rfl

/-- What is left fits once a fill has been applied. -/
private theorem Fits.tail (hfits : Fits (f :: fills) u) {q : Position}
    (hmoved : q.quantity = u.position.quantity + f.signedQuantity) :
    Fits fills ⟨u.cashQuote + f.cashFlow, q, u.feesQuote + f.feeQuote⟩ := by
  have hexact := hfits.exact f List.mem_cons_self
  have hfees := hfits.fees
  have hturnover := hfits.turnover
  have hquantity := hfits.quantity
  rw [List.map_cons, List.sum_cons] at hfees hturnover hquantity
  have hsigned : f.signedQuantity ≤ f.quantity := by
    unfold Fill.signedQuantity
    cases f.side with
    | buy => exact le_rfl
    | sell => linarith [f.quantity_pos]
  -- what this fill moves is paid for by its part of the turnover
  have hcash := abs_add_le u.cashQuote f.cashFlow
  have hflow := f.abs_cashFlow_le
  refine ⟨add_mem hfits.cash_mem hexact.cashFlow_mem, add_mem hfits.fees_mem hexact.feeQuote, ?_,
    fun g hg => hfits.exact g (List.mem_cons_of_mem f hg),
    add_nonneg hfits.fees_nonneg f.feeQuote_nonneg, by linarith, by linarith, ?_⟩
  · exact hmoved ▸ add_mem hfits.quantity_mem hexact.signedQuantity_mem
  · rw [hmoved]
    linarith

/-- One turn of the loop that has room for its fill gives the same amounts. -/
theorem applyFillIn_agrees (h : SameAmounts u v) (hroom : u.RoomFor f) :
    Except.Agree (fun u' v' => SameAmounts u' v' ∧
        u' = ⟨u.cashQuote + f.cashFlow, u'.position, u.feesQuote + f.feeQuote⟩ ∧
        Position.Follows u.position v.position f u'.position v'.position)
      (u.applyFill f) (v.applyFillIn .default f) := by
  rw [applyFill_eq, applyFillIn_eq h hroom]
  exact (Position.applyIn_agrees h.symbol h.quantity hroom.notional hroom.quantity).bind
    fun q q' hq => .ok ⟨⟨rfl, rfl, hq.symbol, hq.quantity⟩, rfl, hq⟩

/-- One turn of the loop keeps the amounts exact. -/
theorem Fits.step (h : SameAmounts u v) (hfits : Fits (f :: fills) u) :
    Except.Agree (fun u' v' => (SameAmounts u' v' ∧ Fits fills u') ∧
        Position.Follows u.position v.position f u'.position v'.position)
      (u.applyFill f) (v.applyFillIn .default f) := by
  refine (applyFillIn_agrees h hfits.roomFor).mono ?_
  rintro u' v' ⟨hsame, hu, hfollows⟩
  rw [hu]
  exact ⟨⟨hu ▸ hsame, hfits.tail hfollows.moved⟩, hfollows⟩

end LedgerUpdate

/-- An execution of a single fill that the account has room for is folded as in exact
    arithmetic, but for the average price. -/
theorem applyExecutionIn_single {cash : ℚ} {position : Position} {execution : OrderExecution}
    {f : Fill} (hfills : execution.fills = [f])
    (hroom : LedgerUpdate.RoomFor ⟨cash, position, 0⟩ f) :
    Except.Agree LedgerUpdate.SameAmounts (applyExecution cash position execution)
      (applyExecutionIn .default cash position execution) := by
  unfold applyExecution applyExecutionIn
  rw [hfills]
  simp only [List.foldlM_cons, List.foldlM_nil, bind_pure]
  exact (LedgerUpdate.applyFillIn_agrees ⟨rfl, rfl, rfl, rfl⟩ hroom).mono fun _ _ h => h.1

/-- Such a fill moves cash and quantity as in exact arithmetic. -/
theorem applyExecutionIn_moved {cash : ℚ} {position : Position} {execution : OrderExecution}
    {f : Fill} {update : LedgerUpdate} (hfills : execution.fills = [f])
    (hroom : LedgerUpdate.RoomFor ⟨cash, position, 0⟩ f)
    (h : applyExecutionIn .default cash position execution = .ok update) :
    update.cashQuote = cash + f.cashFlow ∧
      update.position.quantity = position.quantity + f.signedQuantity := by
  have hagrees := applyExecutionIn_single hfills hroom
  rw [h] at hagrees
  generalize hexact : applyExecution cash position execution = folded at hagrees
  cases hagrees with
  | ok hsame =>
    obtain ⟨hcash, hquantity, -⟩ := applyExecution_single hfills hexact
    exact ⟨hsame.cash.trans hcash, hsame.quantity.trans hquantity⟩

/-- A single fill that is folded is of the position's symbol and does not sell more than is
    held, in whatever context. -/
theorem applyExecutionIn_covered {A : DecimalContext} {cash : ℚ} {position : Position}
    {execution : OrderExecution} {f : Fill} {update : LedgerUpdate}
    (hfills : execution.fills = [f])
    (h : applyExecutionIn A cash position execution = .ok update) :
    f.symbol = position.symbol ∧ (f.side = .sell → f.quantity ≤ position.quantity) := by
  unfold applyExecutionIn at h
  rw [hfills, List.foldlM_cons] at h
  obtain ⟨u, hfill, -⟩ := Except.bind_eq_ok.mp h
  obtain ⟨q, hq, -⟩ := Except.bind_eq_ok.mp hfill
  unfold Position.applyIn at hq
  -- the two guards of the source
  split at hq
  next => cases hq
  next hsame =>
    refine ⟨not_not.mp hsame, fun hsell => ?_⟩
    by_contra hshort
    have hside : ¬f.side = .buy := by rw [hsell]; decide
    rw [if_neg hside, if_pos (not_le.mp hshort)] at hq
    cases hq

/-- In the default context the quantity is moved by a single fill and rounded. -/
theorem applyExecutionIn_quantity {cash : ℚ} {position : Position} {execution : OrderExecution}
    {f : Fill} {update : LedgerUpdate} (hfills : execution.fills = [f])
    (h : applyExecutionIn .default cash position execution = .ok update) :
    update.position.quantity = rounded (position.quantity + f.signedQuantity) := by
  unfold applyExecutionIn at h
  rw [hfills, List.foldlM_cons] at h
  obtain ⟨u, hfill, h⟩ := Except.bind_eq_ok.mp h
  obtain ⟨q, hq, hfill⟩ := Except.bind_eq_ok.mp hfill
  cases hfill
  cases h
  unfold Position.applyIn at hq
  unfold Fill.signedQuantity
  split at hq
  next => cases hq
  next =>
    -- a buy adds and a sell subtracts, and either is rounded once
    cases hside : f.side with
    | buy =>
      rw [if_pos hside] at hq
      obtain ⟨_, -, hq⟩ := Except.bind_eq_ok.mp hq
      exact (Position.validate_ok hq).2.1
    | sell =>
      rw [if_neg (by simp [hside])] at hq
      split at hq
      next => cases hq
      next =>
        rw [(Position.validate_ok hq).2.1, ← sub_eq_add_neg]
        rfl

/-- In the default context such a fill is always folded, whatever is rounded. -/
theorem exists_applyExecutionIn {cash : ℚ} {position : Position} {execution : OrderExecution}
    {f : Fill} (hfills : execution.fills = [f]) (hsymbol : f.symbol = position.symbol)
    (hcovered : f.side = .sell → f.quantity ≤ position.quantity) :
    ∃ update, applyExecutionIn .default cash position execution = .ok update := by
  have hheld := position.quantity_nonneg
  have hpaid := position.averagePrice_nonneg
  have hq := f.quantity_pos
  obtain ⟨q, happly⟩ : ∃ q, position.applyIn .default f = .ok q := by
    unfold Position.applyIn
    rw [if_neg (not_not.mpr hsymbol)]
    cases hside : f.side with
    | buy =>
      -- the divisor of the average is positive
      have hquantity : 0 < rounded (position.quantity + f.quantity) := rounded_pos (by linarith)
      have hnotional : 0 ≤ rounded (f.quantity * f.price) := rounded_nonneg f.notional_pos.le
      have hcost : 0 ≤ rounded (position.quantity * position.averagePrice) :=
        rounded_nonneg (mul_nonneg hheld hpaid)
      have haverage : 0 ≤ rounded (rounded (rounded (position.quantity * position.averagePrice) +
          rounded (f.quantity * f.price)) / rounded (position.quantity + f.quantity)) :=
        rounded_nonneg (div_nonneg (rounded_nonneg (add_nonneg hcost hnotional)) hquantity.le)
      have hdiv : DecimalContext.default.div
          (rounded (rounded (position.quantity * position.averagePrice) +
            rounded (f.quantity * f.price))) (rounded (position.quantity + f.quantity)) =
          .ok (rounded (rounded (rounded (position.quantity * position.averagePrice) +
            rounded (f.quantity * f.price)) / rounded (position.quantity + f.quantity))) :=
        if_pos hquantity.ne'
      exact ⟨_, Except.bind_eq_ok.mpr ⟨_, hdiv, Position.validate_of_nonneg hquantity.le haverage⟩⟩
    | sell =>
      have hleft : 0 ≤ rounded (position.quantity - f.quantity) :=
        rounded_nonneg (sub_nonneg.mpr (hcovered hside))
      have haverage : 0 ≤ if rounded (position.quantity - f.quantity) > 0
          then position.averagePrice else 0 := by
        split
        · exact hpaid
        · exact le_rfl
      rw [if_neg (by decide), if_neg (not_lt.mpr (hcovered hside))]
      exact ⟨_, Position.validate_of_nonneg hleft haverage⟩
  -- the one fill is applied, and the sums cannot signal
  unfold applyExecutionIn
  rw [hfills]
  simp only [List.foldlM_cons, List.foldlM_nil, bind_pure]
  exact ⟨_, Except.bind_eq_ok.mpr ⟨q, happly, rfl⟩⟩

/-! ## The whole fold -/

/-- The purchases of an execution. -/
def buys (fills : List Fill) : ℕ := fills.countP (·.side = .buy)

/-- A fill brings the roundings of its purchase. -/
theorem three_mul_buys_cons (f : Fill) (fills : List Fill) :
    3 * buys (f :: fills) = 3 * buys fills + f.roundings := by
  rw [buys, List.countP_cons, buys, Fill.roundings]
  by_cases hbuy : f.side = .buy
  · simp [hbuy, mul_add]
  · simp [hbuy]

/-- Three roundings for each of so many purchases. -/
theorem errorAfter_purchases_le {n : ℕ} (hn : n ≤ 10 ^ 26) :
    ((3 * n : ℕ) : ℚ) * roundoff < 1 ∧ errorAfter roundoff (3 * n) ≤ 2 / 10 ^ 27 * n := by
  have hcast : (n : ℚ) ≤ 10 ^ 26 := by exact_mod_cast hn
  have hnonneg : (0 : ℚ) ≤ n := n.cast_nonneg
  have hroundings : ((3 * n : ℕ) : ℚ) * roundoff = 3 / (2 * 10 ^ 27) * n := by
    rw [roundoff]
    push_cast
    ring
  have hsmall : (3 / (2 * 10 ^ 27) * n : ℚ) ≤ 1 / 4 := by
    linarith
  refine ⟨by rw [hroundings]; linarith, ?_⟩
  rw [errorAfter, hroundings, div_le_iff₀ (by linarith)]
  calc (3 / (2 * 10 ^ 27) * n : ℚ) = 2 / 10 ^ 27 * n * (3 / 4) := by ring
    _ ≤ 2 / 10 ^ 27 * n * (1 - 3 / (2 * 10 ^ 27) * n) := by
      gcongr
      linarith

/-- The invariant of the loop. The amounts are the same, and if the averages were so at the
    start, the roundings so far and those to come are those of all the purchases. -/
structure LedgerUpdate.Tracks (close : Prop) (purchases : ℕ) (fills : List Fill)
    (u v : LedgerUpdate) : Prop where
  same : SameAmounts u v
  fits : Fits fills u
  average : close → ∃ k, k + 3 * buys fills ≤ 3 * purchases ∧
    Rounded roundoff k v.position.averagePrice u.position.averagePrice

/-- One turn of the loop, in both arithmetics: they raise the same, or the invariant goes on. -/
theorem LedgerUpdate.Tracks.step {close : Prop} {purchases : ℕ} {f : Fill} {fills : List Fill}
    {u v : LedgerUpdate} (hfew : close → ((3 * purchases : ℕ) : ℚ) * roundoff < 1)
    (h : Tracks close purchases (f :: fills) u v) :
    Except.Agree (Tracks close purchases fills) (u.applyFill f) (v.applyFillIn .default f) := by
  refine (h.fits.step h.same).mono fun u' v' ⟨⟨hsame, hfits⟩, hfollows⟩ =>
    ⟨hsame, hfits, fun hclose => ?_⟩
  obtain ⟨k, hk, hrounded⟩ := h.average hclose
  -- what the fill adds was among the roundings to come
  rw [three_mul_buys_cons] at hk
  have hle : k + f.roundings ≤ 3 * purchases := by omega
  refine ⟨k + f.roundings, by omega, hfollows.average k ?_ hrounded⟩
  have hcast : ((k + f.roundings : ℕ) : ℚ) ≤ (3 * purchases : ℕ) := by exact_mod_cast hle
  exact (mul_le_mul_of_nonneg_right hcast roundoff_pos.le).trans_lt (hfew hclose)

open LedgerUpdate in
/-- Folding an execution in the default context, from a position whose average may be any, raises
    what exact arithmetic raises and gives the same cash, fees and quantity, and so the same
    equity at any price, as long as the amounts fit their columns and the account stays below
    ten billion. From the same average, the average is off by three roundings for each
    purchase. -/
theorem decimal_ledger_agrees (cashQuote : ℚ) (position position' : Position)
    (execution : OrderExecution) (hsymbol : position'.symbol = position.symbol)
    (hquantity : position'.quantity = position.quantity)
    (hfits : Fits execution.fills ⟨cashQuote, position, 0⟩) :
    Except.Agree (fun u v => SameAmounts u v ∧
        (∀ markPrice, u.position.notionalAt markPrice ∈ Grid ℚ 18 →
          |u.cashQuote| + |u.position.notionalAt markPrice| < 10 ^ 10 →
          equityIn .default v.cashQuote v.position markPrice =
            u.cashQuote + u.position.notionalAt markPrice) ∧
        (position'.averagePrice = position.averagePrice → buys execution.fills ≤ 10 ^ 26 →
          |v.position.averagePrice - u.position.averagePrice| ≤
            2 / 10 ^ 27 * buys execution.fills * u.position.averagePrice))
      (applyExecution cashQuote position execution)
      (applyExecutionIn .default cashQuote position' execution) := by
  have hu := roundoff_pos.le
  -- no fill yet: the positions are the same up to their averages
  have hstart : Tracks
      (position'.averagePrice = position.averagePrice ∧ buys execution.fills ≤ 10 ^ 26)
      (buys execution.fills) execution.fills ⟨cashQuote, position, 0⟩
      ⟨cashQuote, position', 0⟩ := by
    refine ⟨⟨rfl, rfl, hsymbol, hquantity⟩, hfits, fun hclose => ⟨0, by simp, ?_⟩⟩
    show Rounded roundoff 0 position'.averagePrice position.averagePrice
    rw [hclose.1]
    exact .self hu (by simp) _
  have hfold := Except.Agree.foldlM
    (fun _ _ _ _ => Tracks.step fun hclose => (errorAfter_purchases_le hclose.2).1) hstart
  refine hfold.mono fun u v htracks => ⟨htracks.same, fun markPrice hmem hlt => ?_,
    fun haverage hbuys => ?_⟩
  -- the same quantity has the same value at any price
  · have hnotional : v.position.notionalAt markPrice = u.position.notionalAt markPrice := by
      rw [Position.notionalAt, htracks.same.quantity, Position.notionalAt]
    rw [htracks.same.cash, ← hnotional]
    rw [← hnotional] at hmem hlt
    exact equityIn_default htracks.fits.cash_mem hmem hlt
  -- three roundings for each purchase, at most
  · obtain ⟨hfew, herror⟩ := errorAfter_purchases_le hbuys
    obtain ⟨k, hk, hrounded⟩ := htracks.average ⟨haverage, hbuys⟩
    have hle : errorAfter roundoff k ≤ 2 / 10 ^ 27 * buys execution.fills :=
      (errorAfter_mono hu (by omega) hfew).trans herror
    have hnear := hrounded.abs_sub_le
    rw [abs_of_nonneg u.position.averagePrice_nonneg] at hnear
    exact hnear.trans (mul_le_mul_of_nonneg_right hle u.position.averagePrice_nonneg)

/-- A buy of two at 11 and a sale of one at 12, on top of one bought at 10. The average is 32
    thirds, which no decimal is, and the amounts are exact. -/
theorem decimal_ledger_agrees_thirds :
    let held : Position := ⟨"BTC/USDT", 1, 10, by decide, by decide⟩
    let intent : OrderIntent := ⟨"thirds-buy", "BTC/USDT", .buy, 2, 11, noon, by decide, by decide⟩
    let bought : Fill :=
      ⟨"thirds-buy", "BTC/USDT", .buy, 2, 11, 1, noon, by decide, by decide, by decide⟩
    let sold : Fill :=
      ⟨"thirds-buy", "BTC/USDT", .sell, 1, 12, 1, noon, by decide, by decide, by decide⟩
    let thirds : OrderExecution := ⟨intent, .filled, none, [bought, sold], none⟩
    ∃ u v, applyExecution 100 held thirds = .ok u ∧
      applyExecutionIn .default 100 held thirds = .ok v ∧ LedgerUpdate.SameAmounts u v ∧
      u.position.averagePrice = 32 / 3 ∧ v.position.averagePrice ≠ 32 / 3 ∧
      |v.position.averagePrice - 32 / 3| ≤ 2 / 10 ^ 27 * 1 * (32 / 3) := by
  intro held intent bought sold thirds
  -- whole numbers are on every grid
  have hwhole {x : ℚ} (hx : x = x.num) : x ∈ Grid ℚ 0 := mem_grid.mpr ⟨x.num, by simpa using hx⟩
  have hfills : ∀ f ∈ thirds.fills, f.quantity = f.quantity.num ∧ f.price = f.price.num ∧
      f.feeQuote = f.feeQuote.num := by
    decide +kernel
  have hexact : ∀ f ∈ thirds.fills, f.Exact := by
    intro f hf
    obtain ⟨hquantity, hprice, hfee⟩ := hfills f hf
    exact ⟨grid_mono (by decide) (hwhole hquantity), grid_mono (by decide) (hwhole hprice),
      grid_mono (by decide) (hwhole hfee),
      grid_mono (by decide) (grid_mul (hwhole hquantity) (hwhole hprice))⟩
  have hfits : LedgerUpdate.Fits thirds.fills ⟨100, held, 0⟩ :=
    ⟨grid_mono (by decide) (hwhole rfl), zero_mem _, grid_mono (by decide) (hwhole rfl), hexact,
      le_rfl, by decide +kernel, by decide +kernel, by decide +kernel⟩
  -- the exact average has a period, so the other one is not equal
  have hrun : ((applyExecution 100 held thirds).toOption.all fun u =>
      (applyExecutionIn .default 100 held thirds).toOption.all fun v =>
        u.position.averagePrice = 32 / 3 ∧ v.position.averagePrice ≠ 32 / 3) = true := by
    decide +kernel
  have hagrees := decimal_ledger_agrees 100 held held thirds rfl rfl hfits
  have hok : (applyExecution 100 held thirds).toOption.isSome = true := by decide +kernel
  generalize applyExecution 100 held thirds = exactly at hagrees hrun hok ⊢
  generalize applyExecutionIn .default 100 held thirds = approximate at hagrees hrun ⊢
  cases hagrees with
  | error e => cases hok
  | @ok u v hsame =>
    obtain ⟨haverage, hne⟩ := of_decide_eq_true hrun
    have hnear := hsame.2.2 rfl (by decide)
    rw [haverage] at hnear
    exact ⟨u, v, rfl, rfl, hsame.1, haverage, hne, hnear⟩

end TradingBot
