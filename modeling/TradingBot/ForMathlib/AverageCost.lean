import TradingBot.ForMathlib.Runs
import Mathlib.Algebra.Order.BigOperators.Group.List
import Mathlib.Algebra.Order.Field.Basic
import Mathlib.Data.Set.Finite.Lemmas
import Mathlib.Data.Set.Finite.List
import Mathlib.Order.Bounds.Basic
import Mathlib.Tactic.FieldSimp
import Mathlib.Tactic.Linarith
import Mathlib.Tactic.Positivity
import Mathlib.Tactic.Ring

/-!
# Inventories at weighted average cost

A `Lot` is a quantity of one good together with the average price paid for what is still
held. Buying moves the average towards the price paid, selling leaves it alone, and a lot
that is sold out forgets it. A history of trades is accepted when it never sells more than
is held.

The three facts about a whole history are the usual ones: the average stays between the
prices paid since the lot was last empty (`run_average_mem`), what was paid and not yet
recovered is the cost of what is held less the profit realised (`run_cost`), and purchases
can be made in any order (`run_perm`).
-/

variable {K : Type*} [Field K] [LinearOrder K] [IsStrictOrderedRing K]

/-- A quantity that changed hands at a price. -/
structure Deal (K : Type*) [Field K] [LinearOrder K] where
  quantity : K
  price : K
  quantity_pos : 0 < quantity
  price_pos : 0 < price

/-- A deal, and which way the good went. -/
inductive Trade (K : Type*) [Field K] [LinearOrder K] where
  | buy (deal : Deal K)
  | sell (deal : Deal K)

/-- What is held, and the average price paid for it. -/
@[ext]
structure Lot (K : Type*) [Field K] [LinearOrder K] where
  quantity : K
  average : K
  quantity_nonneg : 0 ≤ quantity
  average_pos : 0 < quantity → 0 < average
  average_flat : quantity = 0 → average = 0

namespace Trade

/-- What changed hands. -/
def deal : Trade K → Deal K
  | buy d => d
  | sell d => d

/-- What a trade does to the quantity held. -/
def signed : Trade K → K
  | buy d => d.quantity
  | sell d => -d.quantity

/-- What a trade pays out, before any fee. -/
def proceeds : Trade K → K
  | buy d => -(d.quantity * d.price)
  | sell d => d.quantity * d.price

/-- What a trade realises against the average price of the lot it is taken from. -/
def gain (l : Lot K) : Trade K → K
  | buy _ => 0
  | sell d => d.quantity * (d.price - l.average)

end Trade

namespace Lot

/-- Nothing is held. -/
def flat : Lot K := ⟨0, 0, le_rfl, fun h => h, fun _ => rfl⟩

omit [IsStrictOrderedRing K] in
/-- A lot has a price exactly where it holds something. -/
theorem average_eq_zero_iff (l : Lot K) : l.average = 0 ↔ l.quantity = 0 := by
  refine ⟨fun h => ?_, l.average_flat⟩
  by_contra hne
  exact (l.average_pos (lt_of_le_of_ne l.quantity_nonneg (Ne.symm hne))).ne' h

/-- The price paid for what is held. -/
def cost (l : Lot K) : K := l.quantity * l.average

/-- What a lot cost is not negative. -/
theorem cost_nonneg (l : Lot K) : 0 ≤ l.cost := by
  rcases l.quantity_nonneg.eq_or_lt with h | h
  · rw [cost, ← h, zero_mul]
  · exact mul_nonneg l.quantity_nonneg (l.average_pos h).le

/-! ## One trade -/

/-- More is bought: the average is weighted by the quantities. -/
def buy (l : Lot K) (d : Deal K) : Lot K where
  quantity := l.quantity + d.quantity
  average := (l.cost + d.quantity * d.price) / (l.quantity + d.quantity)
  quantity_nonneg := (add_pos_of_nonneg_of_pos l.quantity_nonneg d.quantity_pos).le
  average_pos := div_pos <|
    add_pos_of_nonneg_of_pos l.cost_nonneg (mul_pos d.quantity_pos d.price_pos)
  average_flat h :=
    absurd h (add_pos_of_nonneg_of_pos l.quantity_nonneg d.quantity_pos).ne'

/-- Some of what is held is sold. -/
def sell (l : Lot K) (d : Deal K) (h : d.quantity ≤ l.quantity) : Lot K where
  quantity := l.quantity - d.quantity
  average := if 0 < l.quantity - d.quantity then l.average else 0
  quantity_nonneg := sub_nonneg.mpr h
  average_pos hpos := by
    rw [if_pos hpos]
    exact l.average_pos (d.quantity_pos.trans_le h)
  average_flat hzero := if_neg hzero.not_gt

/-- The lot after a trade, if it holds enough for it. -/
def after (l : Lot K) : Trade K → Option (Lot K)
  | .buy d => some (l.buy d)
  | .sell d => if h : d.quantity ≤ l.quantity then some (l.sell d h) else none

/-- A purchase leaves something. -/
theorem quantity_buy_pos (l : Lot K) (d : Deal K) : 0 < (l.buy d).quantity :=
  add_pos_of_nonneg_of_pos l.quantity_nonneg d.quantity_pos

/-- A purchase adds what was paid to the cost. -/
theorem cost_buy (l : Lot K) (d : Deal K) : (l.buy d).cost = l.cost + d.quantity * d.price :=
  mul_div_cancel₀ _ (l.quantity_buy_pos d).ne'

/-- A sale takes the average price of what is sold out of the cost. -/
theorem cost_sell (l : Lot K) (d : Deal K) (h : d.quantity ≤ l.quantity) :
    (l.sell d h).cost = l.cost - d.quantity * l.average := by
  simp only [cost, sell]
  split
  next => ring
  next hpos =>
    -- sold out: the whole cost leaves with the sale
    have hall : l.quantity = d.quantity := by linarith
    rw [hall]
    ring

/-- Two purchases can be made in either order. -/
theorem buy_comm (l : Lot K) (d e : Deal K) : (l.buy d).buy e = (l.buy e).buy d := by
  have hquantity : ((l.buy d).buy e).quantity = ((l.buy e).buy d).quantity := by
    simp only [buy]
    ring
  have hcost : ((l.buy d).buy e).cost = ((l.buy e).buy d).cost := by
    simp only [cost_buy]
    ring
  refine Lot.ext hquantity ?_
  have hpos := ((l.buy e).quantity_buy_pos d).ne'
  rw [cost, cost, hquantity] at hcost
  exact mul_left_cancel₀ hpos hcost

/-- A sale that goes through had enough to sell. -/
theorem after_sell {l m : Lot K} {d : Deal K} (h : l.after (.sell d) = some m) :
    ∃ hle, m = l.sell d hle := by
  rw [after] at h
  split at h
  next hle => exact ⟨hle, (Option.some.inj h).symm⟩
  next => cases h

/-- A trade fails exactly where it would leave a negative quantity. -/
theorem after_eq_none {l : Lot K} {t : Trade K} :
    l.after t = none ↔ l.quantity + t.signed < 0 := by
  cases t with
  | buy d =>
    simp only [after, Trade.signed, reduceCtorEq, false_iff, not_lt]
    exact (l.quantity_buy_pos d).le
  | sell d =>
    simp only [after, Trade.signed, dite_eq_right_iff, reduceCtorEq, imp_false, not_le]
    exact ⟨fun h => by linarith, fun h => by linarith⟩

/-- A trade moves the quantity by what it signs for. -/
theorem after_quantity {l m : Lot K} {t : Trade K} (h : l.after t = some m) :
    m.quantity = l.quantity + t.signed := by
  cases t with
  | buy d =>
    cases h
    rfl
  | sell d =>
    obtain ⟨hle, rfl⟩ := after_sell h
    exact sub_eq_add_neg _ _

/-- The cost changes by what is paid, or by what is recovered less the gain. -/
theorem after_cost {l m : Lot K} {t : Trade K} (h : l.after t = some m) :
    m.cost = l.cost + t.gain l - t.proceeds := by
  cases t with
  | buy d =>
    cases h
    rw [cost_buy, Trade.gain, Trade.proceeds]
    ring
  | sell d =>
    obtain ⟨hle, rfl⟩ := after_sell h
    rw [cost_sell, Trade.gain, Trade.proceeds]
    ring

/-- The average price of what is held is between two bounds. -/
def Within (lo hi : K) (l : Lot K) : Prop := 0 < l.quantity → lo ≤ l.average ∧ l.average ≤ hi

/-- A purchase within a range of prices leaves the average within it. -/
theorem Within.buy {lo hi : K} {l : Lot K} (h : l.Within lo hi) {d : Deal K}
    (hlo : lo ≤ d.price) (hhi : d.price ≤ hi) : (l.buy d).Within lo hi := by
  intro hpos
  -- what is held cost between the bounds, also where nothing is held
  have hcost : lo * l.quantity ≤ l.cost ∧ l.cost ≤ hi * l.quantity := by
    rcases l.quantity_nonneg.eq_or_lt with hzero | hheld
    · simp [cost, ← hzero]
    · obtain ⟨hl, hh⟩ := h hheld
      rw [cost, mul_comm l.quantity]
      exact ⟨mul_le_mul_of_nonneg_right hl hheld.le, mul_le_mul_of_nonneg_right hh hheld.le⟩
  have hl := mul_le_mul_of_nonneg_right hlo d.quantity_pos.le
  have hh := mul_le_mul_of_nonneg_right hhi d.quantity_pos.le
  -- the average is the cost of both over the quantity of both
  constructor
  · refine (le_div_iff₀ hpos).mpr ?_
    simp only [Lot.buy]
    linarith
  · refine (div_le_iff₀ hpos).mpr ?_
    simp only [Lot.buy]
    linarith

/-- A sale leaves the average where it was, so within any range. -/
theorem Within.sell {lo hi : K} {l : Lot K} (h : l.Within lo hi) {d : Deal K}
    (hle : d.quantity ≤ l.quantity) : (l.sell d hle).Within lo hi := by
  intro hpos
  have haverage : (l.sell d hle).average = l.average := if_pos hpos
  exact haverage ▸ h (d.quantity_pos.trans_le hle)

/-! ## A history of trades -/

/-- The lot after a history of trades, if it always holds enough. -/
def run (l : Lot K) (ts : List (Trade K)) : Option (Lot K) := ts.foldlM after l

/-- No trades leave the lot as it is. -/
@[simp] theorem run_nil (l : Lot K) : l.run [] = some l := rfl

/-- A run of trades is the first one, then the rest. -/
@[simp] theorem run_cons (l : Lot K) (t : Trade K) (ts : List (Trade K)) :
    l.run (t :: ts) = (l.after t).bind (run · ts) := List.foldlM_cons

/-- Trades can be run in two parts. -/
theorem run_append (l : Lot K) (ts us : List (Trade K)) :
    l.run (ts ++ us) = (l.run ts).bind (run · us) := List.foldlM_append

/-- A history moves the quantity by the sum of its trades. -/
theorem run_quantity {l m : Lot K} {ts : List (Trade K)} (h : l.run ts = some m) :
    m.quantity = l.quantity + (ts.map Trade.signed).sum := by
  induction ts generalizing l with
  | nil =>
    cases h
    simp
  | cons t ts ih =>
    obtain ⟨k, ht, hts⟩ := Option.bind_eq_some_iff.mp h
    rw [ih hts, after_quantity ht, List.map_cons, List.sum_cons, add_assoc]

/-- A history is refused exactly when it sells more than is held at one of its trades. -/
theorem run_eq_none {l : Lot K} {ts : List (Trade K)} :
    l.run ts = none ↔ ∃ us, us <+: ts ∧ l.quantity + (us.map Trade.signed).sum < 0 := by
  induction ts generalizing l with
  | nil =>
    simp only [run_nil, reduceCtorEq, List.prefix_nil, false_iff]
    rintro ⟨us, rfl, hneg⟩
    simp only [List.map_nil, List.sum_nil, add_zero] at hneg
    exact absurd l.quantity_nonneg hneg.not_ge
  | cons t ts ih =>
    rw [run_cons]
    cases ht : l.after t with
    | none =>
      simp only [Option.bind_none, true_iff]
      refine ⟨[t], List.prefix_append [t] ts, ?_⟩
      simpa using after_eq_none.mp ht
    | some k =>
      -- the first trade goes through: the prefixes that matter contain it
      have hquantity := after_quantity ht
      rw [Option.bind_some, ih]
      constructor
      · rintro ⟨us, hus, hneg⟩
        refine ⟨t :: us, List.cons_prefix_cons.mpr ⟨rfl, hus⟩, ?_⟩
        rw [List.map_cons, List.sum_cons, ← add_assoc, ← hquantity]
        exact hneg
      · rintro ⟨us, hus, hneg⟩
        cases us with
        | nil =>
          simp only [List.map_nil, List.sum_nil, add_zero] at hneg
          exact absurd l.quantity_nonneg hneg.not_ge
        | cons u us =>
          obtain ⟨rfl, htail⟩ := List.cons_prefix_cons.mp hus
          refine ⟨us, htail, ?_⟩
          rwa [List.map_cons, List.sum_cons, ← add_assoc, ← hquantity] at hneg

/-- What the sales of a history realise, each against the average held at that sale. -/
def gain (l : Lot K) : List (Trade K) → K
  | [] => 0
  | t :: ts => t.gain l + (l.after t).elim 0 (gain · ts)

/-- What was paid and not yet recovered is the cost of what is held, less the gain. -/
theorem run_cost {l m : Lot K} {ts : List (Trade K)} (h : l.run ts = some m) :
    m.cost = l.cost + l.gain ts - (ts.map Trade.proceeds).sum := by
  induction ts generalizing l with
  | nil =>
    cases h
    simp [gain]
  | cons t ts ih =>
    obtain ⟨k, ht, hts⟩ := Option.bind_eq_some_iff.mp h
    rw [ih hts, after_cost ht, gain, ht, Option.elim_some, List.map_cons, List.sum_cons]
    ring

/-! ## The prices paid -/

/-- The prices of the purchases of a history. -/
def paid (ts : List (Trade K)) : Set K := {price | ∃ d : Deal K, .buy d ∈ ts ∧ d.price = price}

omit [IsStrictOrderedRing K] in
/-- Finitely many prices are paid in a list of trades. -/
theorem finite_paid (ts : List (Trade K)) : (paid ts).Finite := by
  refine ((List.finite_toSet ts).image fun t => t.deal.price).subset ?_
  rintro _ ⟨d, hd, rfl⟩
  exact ⟨.buy d, hd, rfl⟩

/-- The average stays within the range of the prices paid and of the lot before. -/
theorem run_within {lo hi : K} {l m : Lot K} {ts : List (Trade K)} (h : l.run ts = some m)
    (hl : l.Within lo hi) (hts : ∀ price ∈ paid ts, lo ≤ price ∧ price ≤ hi) :
    m.Within lo hi := by
  induction ts generalizing l with
  | nil =>
    cases h
    exact hl
  | cons t ts ih =>
    -- the first trade stays within, and the induction goes on from the lot it leaves
    obtain ⟨k, ht, hk⟩ := Option.bind_eq_some_iff.mp h
    refine ih hk ?_ fun price ⟨d, hd, hprice⟩ =>
      hts price ⟨d, List.mem_cons_of_mem _ hd, hprice⟩
    cases t with
    | buy d =>
      cases ht
      obtain ⟨hlo, hhi⟩ := hts d.price ⟨d, List.mem_cons_self, rfl⟩
      exact hl.buy hlo hhi
    | sell d =>
      obtain ⟨hle, rfl⟩ := after_sell ht
      exact hl.sell hle

/-- What is held after a history that started empty was bought in it. -/
theorem paid_nonempty {l m : Lot K} {ts : List (Trade K)} (h : l.run ts = some m)
    (hflat : l.quantity = 0) (hheld : 0 < m.quantity) : (paid ts).Nonempty := by
  by_contra hnone
  have hsold : (ts.map Trade.signed).sum ≤ 0 := by
    refine (List.sum_le_card_nsmul _ 0 fun x hx => ?_).trans_eq (nsmul_zero _)
    obtain ⟨t, ht, rfl⟩ := List.mem_map.mp hx
    cases t with
    | buy d => exact absurd ⟨d.price, d, ht, rfl⟩ hnone
    | sell d => exact neg_nonpos.mpr d.quantity_pos.le
  rw [run_quantity h, hflat, zero_add] at hheld
  exact hsold.not_gt hheld

/-- The average is between the lowest and the highest price paid since nothing was held. -/
theorem run_average_mem {l m : Lot K} {ts : List (Trade K)} (h : l.run ts = some m)
    (hflat : l.quantity = 0) (hheld : 0 < m.quantity) :
    ∃ lo hi, IsLeast (paid ts) lo ∧ IsGreatest (paid ts) hi ∧ lo ≤ m.average ∧
      m.average ≤ hi := by
  have hnonempty := paid_nonempty h hflat hheld
  obtain ⟨lo, hlo, hleast⟩ := Set.exists_min_image _ id (finite_paid ts) hnonempty
  obtain ⟨hi, hhi, hgreatest⟩ := Set.exists_max_image _ id (finite_paid ts) hnonempty
  refine ⟨lo, hi, ⟨hlo, hleast⟩, ⟨hhi, hgreatest⟩, ?_⟩
  refine run_within h (fun hpos => absurd hflat hpos.ne') (fun price hprice => ?_) hheld
  exact ⟨hleast price hprice, hgreatest price hprice⟩

/-! ## Purchases alone -/

instance : RightCommutative (buy : Lot K → Deal K → Lot K) := ⟨buy_comm⟩

/-- A history of purchases is a fold of `buy`. -/
theorem run_map_buy (l : Lot K) (ds : List (Deal K)) :
    l.run (ds.map .buy) = some (ds.foldl buy l) := by
  induction ds generalizing l with
  | nil => rfl
  | cons d ds ih => exact ih (l.buy d)

/-- Purchases can be made in any order. -/
theorem run_perm (l : Lot K) {ds es : List (Deal K)} (h : ds.Perm es) :
    l.run (ds.map .buy) = l.run (es.map .buy) := by
  rw [run_map_buy, run_map_buy, h.foldl_eq]

end Lot
