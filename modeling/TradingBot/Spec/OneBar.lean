import TradingBot.Spec.CycleSteps
import TradingBot.Spec.Scenario

/-!
# One bar and its orders

Cycles that act on one bar share a cycle id, and the id of an order is the cycle id
followed by the side. So a bar gets at most one order exactly as long as no cycle is
approved an order on the other side of one the bar already has. The close of a bar that
is still forming can change the side between two cycles.
-/

namespace TradingBot

/-! ## Order ids -/

/-- The client order id of a side within a cycle. -/
def orderId (cycleId : String) (side : OrderSide) : String := cycleId ++ "-" ++ side.value

/-- The order ids of one bar are those of its sides. -/
theorem orderId_injective (cycleId : String) : Function.Injective (orderId cycleId) := by
  intro a b h
  -- the ids differ in what follows the cycle id
  have hlist := congrArg String.toList h
  simp only [orderId, String.toList_append, List.append_cancel_left_eq] at hlist
  exact OrderSide.value_injective (String.toList_injective hlist)

/-! ## The orders of a bar -/

/-- The order rows that carry a cycle id. -/
def Database.ordersOf (db : Database) (bar : String) : List OrderRecord :=
  db.orders.filter (·.cycleId = bar)

/-- No order of a bar is recorded yet, nor any under one of its order ids. -/
def Fresh (bar : String) (db : Database) : Prop :=
  ∀ o ∈ db.orders, o.cycleId ≠ bar ∧ ∀ side, o.clientOrderId ≠ orderId bar side

/-- Every bar is fresh in empty tables. -/
theorem fresh_empty (bar : String) : Fresh bar Database.empty := by
  simp [Fresh, Database.empty]

/-- Every order row under one of the bar's order ids is the bar's, the bar's rows carry
    their order ids, and there is one row for each intent submitted. -/
structure BarOrders (bar : String) (t : Trace) : Prop where
  owned : ∀ o ∈ t.tables.orders, ∀ side, o.clientOrderId = orderId bar side → o.cycleId = bar
  named : ∀ o ∈ t.tables.ordersOf bar, o.clientOrderId = orderId bar o.side
  counted : (t.tables.ordersOf bar).length = t.submitted.length

/-- A fresh bar has no orders, so nothing to account for. -/
theorem barOrders_fresh {bar : String} {db : Database} (h : Fresh bar db) :
    BarOrders bar ⟨db, []⟩ := by
  have hnone : db.ordersOf bar = [] :=
    List.filter_eq_nil_iff.mpr fun o ho => by simpa using (h o ho).1
  refine ⟨fun o ho side hid => absurd hid ((h o ho).2 side), ?_, by simp [hnone]⟩
  simp [hnone]

/-- The orders the engine approves for the account a cycle loads are on the side of the
    orders the bar already has. -/
def TradingCycle.KeepsSide (c : TradingCycle) (db : Database) (bar : String) : Prop :=
  ∀ p side quantity, c.Prepares db p →
    c.policy.approves p.signal p.account p.markPrice c.killSwitch = some (side, quantity) →
    ∀ o ∈ db.ordersOf bar, o.side = side

/-- A cycle acts on a bar: whatever it fetches has the cycle id of the bar. -/
def TradingCycle.ActsOn (c : TradingCycle) (bar : String) : Prop :=
  ∀ snapshot, c.gateway.fetchSnapshot c.symbol c.timeframe c.candleLimit = .ok snapshot →
    buildCycleId snapshot = bar

section Step

variable {c : TradingCycle} {bar : String} {t u : Trace} {p : Prepared} {s : Settlement}
  {sent : List OrderIntent}

/-- A cycle that acts on a bar has its id. -/
theorem TradingCycle.Prepares.cycleId_bar {db : Database} (hp : c.Prepares db p)
    (hbar : c.ActsOn bar) : p.cycleId = bar :=
  hp.cycleId_eq.trans (hbar _ hp.fetched)

/-- What a committed cycle adds to the bar: nothing, when its order is known or there is
    none; else one intent and one row under the id of its side. -/
private theorem extends_cases (hbar : c.ActsOn bar) (h : t.Extends c u) :
    (∃ p, c.Prepares t.tables p ∧ u.tables.orders = t.tables.orders ∧
        u.submitted = t.submitted ∧ ∀ i, p.decision.intent = some i →
          i.clientOrderId = orderId bar i.side ∧
          t.tables.alreadyExecuted i.clientOrderId = true) ∨
      ∃ p i row, c.Prepares t.tables p ∧ p.decision.intent = some i ∧
        t.tables.alreadyExecuted (orderId bar i.side) = false ∧
        u.tables.orders = t.tables.orders ++ [row] ∧ u.submitted = t.submitted ++ [i] ∧
        row.clientOrderId = orderId bar i.side ∧ row.cycleId = bar ∧ row.side = i.side := by
  obtain ⟨p, s, sent, h, hsubmitted⟩ := h.commits
  have hcycle := h.prepared.cycleId_bar hbar
  have horders : u.tables.orders = t.tables.orders ++ s.order.toList := by
    rw [h.tables, Transaction.applyTo_orders, TradingCycle.pending_order]
  have hid : ∀ i, p.decision.intent = some i → i.clientOrderId = orderId bar i.side :=
    fun i hi => hcycle ▸ (h.prepared.intent_eq hi).2.1
  -- nothing is sent or one order is, under the id of its side
  rcases h.settled.order_cases with ⟨hnone, rfl, hknown⟩ |
    ⟨i, row, hi, hnew, rfl, hrow, hrowid, hrowcycle, hrowside, -⟩
  · exact .inl ⟨p, h.prepared, by simpa [hnone] using horders, by simpa using hsubmitted,
      fun i hi => ⟨hid i hi, hknown i hi⟩⟩
  · exact .inr ⟨p, i, row, h.prepared, hi, hid i hi ▸ hnew, by simpa [hrow] using horders,
      hsubmitted, hrowid.trans (hid i hi), hrowcycle.trans hcycle, hrowside⟩

/-- Every committed cycle on the bar keeps the account of its orders. -/
theorem BarOrders.step (hbar : c.ActsOn bar) (ht : BarOrders bar t) (h : t.Extends c u) :
    BarOrders bar u := by
  rcases extends_cases hbar h with ⟨p, -, horders, hsubmitted, -⟩ |
    ⟨p, i, row, -, -, -, horders, hsubmitted, hrowid, hrowcycle, hrowside⟩
  -- no row of the bar was added
  · have hrows : u.tables.ordersOf bar = t.tables.ordersOf bar := by
      rw [Database.ordersOf, horders]
      rfl
    exact ⟨horders ▸ ht.owned, hrows ▸ ht.named, by rw [hrows, hsubmitted, ht.counted]⟩
  · have hrows : u.tables.ordersOf bar = t.tables.ordersOf bar ++ [row] := by
      simp [Database.ordersOf, horders, hrowcycle]
    refine ⟨?_, ?_, by rw [hrows, hsubmitted]; simp [ht.counted]⟩
    · intro o ho
      rw [horders] at ho
      rcases List.mem_append.mp ho with ho | ho
      · exact ht.owned o ho
      · obtain rfl := List.mem_singleton.mp ho
        exact fun _ _ => hrowcycle
    · intro o ho
      rw [hrows] at ho
      rcases List.mem_append.mp ho with ho | ho
      · exact ht.named o ho
      · obtain rfl := List.mem_singleton.mp ho
        rw [hrowid, hrowside]

/-- At most one order was submitted, and the bar has at most one order row. -/
def OneOrder (bar : String) (t : Trace) : Prop :=
  t.submitted.length ≤ 1 ∧ (t.tables.ordersOf bar).length ≤ 1

/-- All members of a list of at most one are equal. -/
private theorem eq_of_length_le_one {α : Type} {l : List α} (hl : l.length ≤ 1) {a b : α}
    (ha : a ∈ l) (hb : b ∈ l) : a = b := by
  match l, hl with
  | [x], _ => rw [List.mem_singleton.mp ha, List.mem_singleton.mp hb]

/-- The order a known id belongs to is the bar's only one, so it has the id's side. -/
private theorem side_of_known (ht : BarOrders bar t) (hone : OneOrder bar t) {side : OrderSide}
    (hknown : t.tables.alreadyExecuted (orderId bar side) = true) :
    ∀ o ∈ t.tables.ordersOf bar, o.side = side := by
  obtain ⟨row, hrow, hid⟩ := Database.alreadyExecuted_iff.mp hknown
  have hmem : row ∈ t.tables.ordersOf bar :=
    List.mem_filter.mpr ⟨hrow, by simpa using ht.owned row hrow side hid⟩
  intro o ho
  obtain rfl := eq_of_length_le_one hone.2 ho hmem
  exact orderId_injective bar ((ht.named o ho).symm.trans hid)

/-- A committed cycle keeps the bar at one order exactly when it keeps the side. -/
private theorem oneOrder_iff (hbar : c.ActsOn bar) (ht : BarOrders bar t) (hone : OneOrder bar t)
    (h : t.Extends c u) : OneOrder bar u ↔ c.KeepsSide t.tables bar := by
  rcases extends_cases hbar h with ⟨p, hp, horders, hsubmitted, hknown⟩ |
    ⟨p, i, row, hp, hi, hnew, horders, hsubmitted, -, hrowcycle, -⟩
  · refine iff_of_true ?_ fun q side quantity hq happroved => ?_
    · rwa [OneOrder, hsubmitted, Database.ordersOf, horders]
    · cases hq.unique hp
      obtain ⟨i, hi, rfl, rfl⟩ := hp.exists_intent happroved
      obtain ⟨hid, hexecuted⟩ := hknown i hi
      exact side_of_known ht hone (hid ▸ hexecuted)
  · -- the cycle sends an order, so there must have been none before
    have hnone : OneOrder bar u ↔ t.tables.ordersOf bar = [] := by
      simp [OneOrder, hsubmitted, Database.ordersOf, horders, hrowcycle, ← ht.counted]
    rw [hnone]
    constructor
    · intro hempty q side quantity _ _ o ho
      simp [hempty] at ho
    · intro hkeeps
      refine List.eq_nil_iff_forall_not_mem.mpr fun o ho => ?_
      -- an order on the same side has the same id, and would have been found
      have hside := hkeeps p i.side i.quantity hp (hp.intent_eq hi).1 o ho
      have hexecuted : t.tables.alreadyExecuted (orderId bar i.side) = true :=
        Database.alreadyExecuted_iff.mpr
          ⟨o, (List.mem_filter.mp ho).1, hside ▸ ht.named o ho⟩
      simp [hexecuted] at hnew

end Step

/-! ## Whole sequences -/

/-- A bar gets at most one order exactly in the sequences of cycles in which no cycle is
    approved an order on the other side of one the bar already has. -/
theorem one_order_iff_keeps_side {bar : String} {start : Database} {cycles : List TradingCycle}
    {t : Trace} (hfresh : Fresh bar start) (hbar : ∀ c ∈ cycles, c.ActsOn bar)
    (hrun : Runs Trace.Extends ⟨start, []⟩ cycles t) :
    OneOrder bar t ↔
      Runs (fun t c u => Trace.Extends t c u ∧ c.KeepsSide t.tables bar) ⟨start, []⟩ cycles t := by
  have h0 := barOrders_fresh hfresh
  refine hrun.keeps_iff h0 ⟨by simp, by simp [h0.counted]⟩ ?_ ?_ ?_
  · intro t c u hc ht h
    exact ht.step (hbar c hc) h
  · intro t c u hc ht hone h
    exact oneOrder_iff (hbar c hc) ht hone h
  · -- orders and rows only become more
    rintro t c u - - h ⟨hsubmitted, hrows⟩
    obtain ⟨p, s, sent, hcommits, happend⟩ := h.commits
    have horders : (t.tables.ordersOf bar).Sublist (u.tables.ordersOf bar) := by
      rw [hcommits.tables]
      exact (List.sublist_append_left _ _).filter _
    exact ⟨(happend ▸ List.length_append ▸ Nat.le_add_right _ _).trans hsubmitted,
      horders.length_le.trans hrows⟩

/-- Whether a cycle acts on a bar can be seen by fetching once. -/
private theorem actsOn_of_fetched {c : TradingCycle} {bar : String}
    (h : (c.gateway.fetchSnapshot c.symbol c.timeframe c.candleLimit).toOption.all
      (fun snapshot => buildCycleId snapshot = bar) = true) : c.ActsOn bar := by
  intro snapshot hfetched
  simpa [hfetched, Except.toOption] using h

/-- The bar of noon, fetched twice with the same close. -/
theorem one_order_iff_keeps_side_noonBar : ∃ t,
    Runs (fun t c u => Trace.Extends t c u ∧ c.KeepsSide t.tables "BTCUSDT-15m-1767267900")
      ⟨Database.empty, []⟩ (noonBar 104 104) t := by
  have hsome : ((⟨Database.empty, []⟩ : Trace).extendAll (noonBar 104 104)).any (fun t =>
      t.submitted.length ≤ 1 ∧
        (t.tables.ordersOf "BTCUSDT-15m-1767267900").length ≤ 1) = true := by
    decide +kernel
  obtain ⟨t, ht, hone⟩ : ∃ t, (⟨Database.empty, []⟩ : Trace).extendAll (noonBar 104 104) = some t ∧
      OneOrder "BTCUSDT-15m-1767267900" t := by
    simpa [Option.any_eq_true, OneOrder] using hsome
  have hbar : ∀ c ∈ noonBar 104 104, c.ActsOn "BTCUSDT-15m-1767267900" := by
    simp only [noonBar, List.forall_mem_cons]
    exact ⟨actsOn_of_fetched (by decide +kernel), actsOn_of_fetched (by decide +kernel), nofun⟩
  exact ⟨t, (one_order_iff_keeps_side (fresh_empty _) hbar (Trace.extendAll_eq_some.mp ht)).mp hone⟩

/-- The close went from 104, above the averages, to 96, below them: the bar is bought and
    sold. -/
theorem noonBar_two_orders : (∀ c ∈ noonBar 104 96, c.ActsOn "BTCUSDT-15m-1767267900") ∧
    ∃ t, Runs Trace.Extends ⟨Database.empty, []⟩ (noonBar 104 96) t ∧
      (t.submitted.map (·.side)) = [.buy, .sell] ∧ ¬OneOrder "BTCUSDT-15m-1767267900" t := by
  constructor
  · simp only [noonBar, List.forall_mem_cons]
    exact ⟨actsOn_of_fetched (by decide +kernel), actsOn_of_fetched (by decide +kernel), nofun⟩
  · have hsome : ((⟨Database.empty, []⟩ : Trace).extendAll (noonBar 104 96)).any (fun t =>
        t.submitted.map (·.side) = [.buy, .sell]) = true := by
      decide +kernel
    obtain ⟨t, ht, hsides⟩ : ∃ t, (⟨Database.empty, []⟩ : Trace).extendAll (noonBar 104 96) =
        some t ∧ t.submitted.map (·.side) = [.buy, .sell] := by
      simpa [Option.any_eq_true] using hsome
    refine ⟨t, Trace.extendAll_eq_some.mp ht, hsides, fun hone => ?_⟩
    have hlength := congrArg List.length hsides
    rw [List.length_map] at hlength
    exact absurd hone.1 (by simp [hlength])

end TradingBot
