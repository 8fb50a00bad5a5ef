import TradingBot.Fleet
import TradingBot.Spec.CrashRetry
import TradingBot.Spec.LostUpdates
import TradingBot.Spec.OverlapSteps
import Mathlib.Data.List.Perm.Subperm

/-!
# What the tables say of the venue

Nothing in the bot compares its fill rows with what the venue executed. Still the rows never
claim an execution that did not happen, and never claim one twice, however processes overlap
and wherever they are killed, as long as the venue reports no other fill than what it executed.
An execution is missing from them exactly when a process failed with it before its commit, or
came away from the venue without it: with an error, or an answer that makes no fill.

## Key results

- `Fleet.Effect`: what a turn does to the book, the rows and what is yet to be committed
- `Fleet.Honest`: the rows claim executions, and none of them twice; kept by every turn
- `Fleet.fills_reconcile`: when the rows and the executions are the same, over every
  interleaving
-/

namespace TradingBot

/-! ## Bookings -/

/-- One execution, as the columns of a fill row carry it. -/
structure Booking where
  clientOrderId : String
  side : String
  quantity : Amount
  price : Amount
  feeQuote : Amount
  deriving DecidableEq, Repr

def FillRecord.booking (f : FillRecord) : Booking :=
  ⟨f.clientOrderId, f.side.value, f.quantity, f.price, f.feeQuote⟩

/-- What the venue executed, as the columns would carry it. -/
def VenueOrder.booking (v : VenueOrder) : Booking where
  clientOrderId := v.request.clientOrderId
  side := v.request.side
  quantity := .ofRat 18 v.execution.quantity
  price := .ofRat 18 v.execution.price
  feeQuote := .ofRat 18 v.execution.feeQuote

/-- A fill row of an answer claims the execution the answer reports. -/
theorem CcxtSandboxExchange.Reports.booking_eq {response : OrderResponse} {intent : OrderIntent}
    {fill : Fill} (h : Reports response intent fill) :
    (recordFill fill).booking = VenueOrder.booking ⟨request intent,
      ⟨response.filled.getD 0, fill.price, response.feeCost.getD 0⟩⟩ := by
  simp only [FillRecord.booking, recordFill, VenueOrder.booking, request, h.clientOrderId, h.side,
    h.quantity, h.feeQuote]

namespace Database

/-- The executions the tables claim. -/
def bookings (db : Database) : List Booking := db.fills.map FillRecord.booking

def orderIds (db : Database) : List String := db.orders.map (·.clientOrderId)

def fillIds (db : Database) : List String := db.fills.map (·.clientOrderId)

end Database

/-- The executions of the venue. -/
def bookings (book : List VenueOrder) : List Booking := book.map VenueOrder.booking

/-- The bookings of the venue are under the ids of its orders. -/
theorem map_clientOrderId_bookings (book : List VenueOrder) :
    (bookings book).map (·.clientOrderId) = book.map (·.request.clientOrderId) := by
  rw [bookings, List.map_map]
  rfl

/-- The bookings the tables claim are under the ids of the fill rows. -/
theorem Database.map_clientOrderId_bookings (db : Database) :
    db.bookings.map (·.clientOrderId) = db.fillIds := by
  rw [bookings, List.map_map]
  rfl

/-! ## The book of the venue -/

namespace Attempt

variable {a : Attempt} {book : List VenueOrder} {order : CreateOrder}

/-- The venue reports no other fill than what it executed. -/
def Truthful (a : Attempt) : Prop :=
  ∀ order response price, a.answer order = .ok response → response.Executed →
    response.executedPrice = some price →
    a.executes order = some ⟨response.filled.getD 0, price, response.feeCost.getD 0⟩

/-- Only a run whose order was admitted changes the book. -/
theorem bookAfterStep_of_ended {phase : Phase} (h : phase.Ended) :
    a.bookAfterStep book phase = book := by
  cases phase with
  | admitted p intent => exact h.elim
  | _ => rfl

/-- An order leaves the book as it is, or adds an execution of a new order to it. -/
theorem bookAfter_eq (a : Attempt) (book : List VenueOrder) (order : CreateOrder) :
    a.bookAfter book order = book ∨
      ∃ v, a.bookAfter book order = book ++ [v] ∧ NewTo book v.request := by
  rcases a.bookAfter_spec book order with ⟨hsame, -⟩ | ⟨execution, hnew, -, hbook⟩
  · exact .inl hsame
  · exact .inr ⟨_, hbook, hnew⟩

end Attempt

/-! ## What a run has yet to commit -/

namespace Phase

/-- The order row a run has yet to commit. -/
def order : Phase → Option OrderRecord
  | .answered _ x => some x.order
  | .settled _ s => s.order
  | _ => none

/-- The fill rows a run has yet to commit. -/
def fills : Phase → List FillRecord
  | .answered _ x => x.fills
  | .settled _ s => s.fills
  | _ => []

/-- The run has failed. -/
def Failed : Phase → Prop
  | .failed _ => True
  | _ => False

/-- The fill rows a run has yet to commit belong to its order. -/
def Paired (phase : Phase) : Prop :=
  (phase.fills.map (·.clientOrderId)).Sublist (phase.order.toList.map (·.clientOrderId))

variable {phase : Phase}

/-- A run without fill rows has none that lack an order. -/
theorem paired_of_nil (h : phase.fills = []) : phase.Paired := by
  rw [Paired, h]
  exact List.nil_sublist _

/-- A run that has failed has ended. -/
theorem Failed.ended (h : phase.Failed) : phase.Ended := by
  cases phase with
  | failed e => trivial
  | _ => exact h.elim

/-- A run that has ended has no fill rows left to commit. -/
theorem fills_of_ended (h : phase.Ended) : phase.fills = [] := by
  cases phase with
  | committed r => rfl
  | failed e => rfl
  | _ => exact h.elim

/-- A killed run commits no fill rows. -/
@[simp] theorem fills_kill (phase : Phase) : phase.kill.fills = [] := by
  cases phase <;> rfl

/-- A run that is killed with fill rows in hand has failed. -/
theorem failed_kill {row : FillRecord} (h : row ∈ phase.fills) : phase.kill.Failed := by
  cases phase with
  | committed r => exact absurd h List.not_mem_nil
  | _ => exact trivial

end Phase

namespace Attempt

variable {a : Attempt} {book : List VenueOrder} {p : Prepared} {intent : OrderIntent}
  {x : Executed}

/-- The fill rows of an order that was answered are those of its answer. -/
private theorem fills_of_sends {c : TradingCycle} (h : c.Sends p intent x) :
    x.fills = x.execution.fills.map recordFill :=
  (congrArg Prod.snd h.recorded).symm

/-- An order that was answered has no fill row, or one, of what the venue executed. -/
theorem answered_spec (htruthful : a.Truthful) (h : (a.cycleAt book).Sends p intent x) :
    x.fills = [] ∨ ∃ v row,
      a.bookAfter book (CcxtSandboxExchange.request intent) = book ++ [v] ∧
        NewTo book v.request ∧ x.fills = [row] ∧
        row.clientOrderId = x.order.clientOrderId ∧ row.booking = v.booking := by
  have hrows := fills_of_sends h
  rcases CcxtSandboxExchange.submit_ok h.answered with ⟨hnone, -⟩ |
    ⟨response, fill, hcreate, hexecuted, hfills, -, hreports⟩
  · exact .inl (by rw [hrows, hnone, List.map_nil])
  · obtain ⟨hnew, hanswer⟩ := createOrder_ok hcreate
    -- the venue reports what it executed, and only that
    have hexecutes := htruthful _ _ _ hanswer hexecuted hreports.price
    rcases a.bookAfter_spec book (CcxtSandboxExchange.request intent) with ⟨-, hnothing⟩ |
      ⟨execution, -, hexecution, hbook⟩
    · exact nomatch hexecutes.symm.trans (hnothing hnew)
    · cases hexecutes.symm.trans hexecution
      refine .inr ⟨_, recordFill fill, hbook, hnew, by rw [hrows, hfills, List.map_singleton],
        ?_, hreports.booking_eq⟩
      rw [h.order_eq.1]
      exact hreports.clientOrderId

end Attempt

/-! ## One turn -/

namespace Fleet

variable {ι : Type} [DecidableEq ι] {attempt : ι → Attempt} {f f' : Fleet ι} {i : ι}

/-- What a turn of a process does. -/
structure Effect (f f' : Fleet ι) (i : ι) : Prop where
  others : ∀ j, j ≠ i → f'.phase j = f.phase j
  /-- The venue executes at most one order, which is new to it. -/
  book : f'.book = f.book ∨ ∃ v, f'.book = f.book ++ [v] ∧ NewTo f.book v.request ∧
    (v.booking ∈ (f'.phase i).fills.map FillRecord.booking ∨ (f'.phase i).fills = [])
  /-- The rows stay as they are, or an order that is not among them is committed. -/
  rows : (f'.tables.orderIds = f.tables.orderIds ∧ f'.tables.fills = f.tables.fills) ∨
    ((∀ order ∈ (f.phase i).order, order.clientOrderId ∉ f.tables.orderIds) ∧
      f'.tables.orderIds = f.tables.orderIds ++
        (f.phase i).order.toList.map (·.clientOrderId) ∧
      f'.tables.fills = f.tables.fills ++ (f.phase i).fills)
  /-- Where fill rows come from: the run had them before, or they are of a new execution. -/
  sources : ∀ row ∈ (f'.phase i).fills,
    (row ∈ (f.phase i).fills ∧ f'.tables.fills = f.tables.fills) ∨
    ∃ v, f'.book = f.book ++ [v] ∧ NewTo f.book v.request ∧ row.booking = v.booking
  /-- Where fill rows go. -/
  carried : ∀ row ∈ (f.phase i).fills,
    row ∈ (f'.phase i).fills ∨ row ∈ f'.tables.fills ∨ (f'.phase i).Failed
  paired : (f.phase i).Paired → (f'.phase i).Paired
  failed : (f'.phase i).Failed → f'.tables.fills = f.tables.fills

omit [DecidableEq ι] in
/-- The effect of a turn that touches neither the book nor the fill rows. -/
theorem effect_of_same (hothers : ∀ j, j ≠ i → f'.phase j = f.phase j) (hbook : f'.book = f.book)
    (htables : f'.tables = f.tables)
    (hfills : (f'.phase i).fills = [] ∧ ((f.phase i).fills = [] ∨ (f'.phase i).Failed)) :
    f.Effect f' i where
  others := hothers
  book := .inl hbook
  rows := .inl ⟨by rw [htables], by rw [htables]⟩
  sources row hrow := by simp [hfills.1] at hrow
  carried row hrow := by
    rcases hfills.2 with hnone | hfailed
    · simp [hnone] at hrow
    · exact .inr (.inr hfailed)
  paired _ := Phase.paired_of_nil hfills.1
  failed _ := by rw [htables]

/-- The effect of a step. -/
private theorem effect_step (f : Fleet ι) (i : ι) (htruthful : (attempt i).Truthful) :
    f.Effect (f.turn attempt (.step i)) i := by
  generalize hf' : f.turn attempt (.step i) = f'
  have hothers : ∀ j, j ≠ i → f'.phase j = f.phase j := by
    subst hf'
    exact fun j hj => Function.update_of_ne hj _ _
  have hbook : f'.book = (attempt i).bookAfterStep f.book (f.phase i) := by
    subst hf'
    rfl
  have hstep : ((attempt i).cycleAt f.book).Advances f.tables (f.phase i) (f'.phase i)
      f'.tables := by
    subst hf'
    simpa [turn] using TradingCycle.advances ((attempt i).cycleAt f.book) f.tables (f.phase i)
  generalize htables : f'.tables = db' at hstep
  generalize hphase : f.phase i = phase at hstep hbook
  generalize hphase' : f'.phase i = phase' at hstep
  cases hstep with
  | @answered p intent x hsends =>
    rcases Attempt.answered_spec htruthful hsends with hnone |
      ⟨v, row, hnew, hv, hfills, hid, heq⟩
    · -- the answer made no fill, whatever the venue has executed
      have hempty : (f'.phase i).fills = [] := by rw [hphase']; exact hnone
      refine ⟨hothers, ?_, .inl ⟨by rw [htables], by rw [htables]⟩, by simp [hempty],
        by simp [hphase, Phase.fills], fun _ => Phase.paired_of_nil hempty,
        fun _ => by rw [htables]⟩
      rcases (attempt i).bookAfter_eq f.book (CcxtSandboxExchange.request intent) with hsame |
        ⟨v, hnew, hv⟩
      · exact .inl (hbook.trans hsame)
      · exact .inr ⟨v, hbook.trans hnew, hv, .inr hempty⟩
    · refine ⟨hothers, .inr ⟨v, hbook.trans hnew, hv, .inl ?_⟩,
        .inl ⟨by rw [htables], by rw [htables]⟩, ?_, by simp [hphase, Phase.fills], fun _ => ?_,
        fun _ => by rw [htables]⟩
      · simp [hphase', Phase.fills, hfills, heq]
      · intro row' hrow'
        obtain rfl : row' = row := by simpa [hphase', Phase.fills, hfills] using hrow'
        exact .inr ⟨v, hbook.trans hnew, hv, heq⟩
      · rw [hphase', Phase.Paired]
        show (x.fills.map _).Sublist _
        rw [hfills, List.map_singleton, hid]
        exact List.Sublist.refl _
  | @unanswered p intent e herror =>
    -- what the venue did not answer in a way the bot can read may still be executed
    refine ⟨hothers, ?_, .inl ⟨by rw [htables], by rw [htables]⟩, by simp [hphase', Phase.fills],
      by simp [hphase, Phase.fills], fun _ => Phase.paired_of_nil (by rw [hphase']; rfl),
      fun _ => by rw [htables]⟩
    rcases (attempt i).bookAfter_eq f.book (CcxtSandboxExchange.request intent) with hsame |
      ⟨v, hnew, hv⟩
    · exact .inl (hbook.trans hsame)
    · exact .inr ⟨v, hbook.trans hnew, hv, .inr (by rw [hphase']; rfl)⟩
  | settled =>
    refine ⟨hothers, .inl hbook, .inl ⟨by rw [htables], by rw [htables]⟩, ?_, ?_, ?_,
      fun _ => by rw [htables]⟩
    · rw [hphase', hphase]
      exact fun row hrow => .inl ⟨hrow, by rw [htables]⟩
    · rw [hphase', hphase]
      exact fun row hrow => .inl hrow
    · rw [hphase', hphase]
      exact id
  | @committed p s r _ hfinish =>
    obtain ⟨hfits, hcommitted⟩ := TradingCycle.finish_ok hfinish
    refine ⟨hothers, .inl hbook, .inr ⟨?_, ?_, ?_⟩, by simp [hphase', Phase.fills], ?_,
      fun _ => Phase.paired_of_nil (by rw [hphase']; rfl), by simp [hphase', Phase.Failed]⟩
    · -- the unique constraint would have refused a known order
      rw [hphase]
      intro order horder hknown
      have hpending : (((attempt i).cycleAt f.book).pending p s).order = some order := horder
      obtain ⟨row, hrow, hid⟩ := List.mem_map.mp hknown
      have hfresh := hfits.order
      simp only [Transaction.duplicatesOrder, hpending, Option.any_some, List.any_eq_false,
        decide_eq_true_eq] at hfresh
      exact hfresh row hrow hid
    · rw [htables, hphase, hcommitted]
      simp [Database.orderIds, Phase.order]
    · rw [htables, hphase, hcommitted]
      rfl
    · rw [htables, hphase, hcommitted]
      exact fun row hrow => .inr (.inl (List.mem_append_right _ hrow))
  | ended hended =>
    rw [Attempt.bookAfterStep_of_ended hended] at hbook
    refine effect_of_same hothers hbook htables ⟨?_, .inl ?_⟩
    · rw [hphase']
      exact Phase.fills_of_ended hended
    · rw [hphase]
      exact Phase.fills_of_ended hended
  | aborted herror =>
    refine effect_of_same hothers hbook htables ⟨by rw [hphase']; rfl, .inr ?_⟩
    rw [hphase']
    trivial
  | _ =>
    exact effect_of_same hothers hbook htables ⟨by rw [hphase']; rfl, .inl (by rw [hphase]; rfl)⟩

/-- The effect of a turn, on a venue that is truthful. -/
theorem effect_turn (htruthful : ∀ i, (attempt i).Truthful) (f : Fleet ι) (t : Turn ι) :
    f.Effect (f.turn attempt t) t.process := by
  cases t with
  | step i => exact effect_step f i (htruthful i)
  | kill i =>
    refine ⟨fun j hj => Function.update_of_ne hj _ _, .inl rfl, .inl ⟨rfl, rfl⟩, ?_, ?_, ?_,
      fun _ => rfl⟩
    · simp [turn, Turn.process]
    · intro row hrow
      refine .inr (.inr ?_)
      simpa [turn, Turn.process] using Phase.failed_kill hrow
    · exact fun _ => Phase.paired_of_nil (by simp [turn, Turn.process])

/-! ## The rows are honest -/

/-- The rows claim executions of the venue, and none of them twice; so do the fill rows that
    are yet to be committed. -/
structure Honest (f : Fleet ι) : Prop where
  executed_once : (f.book.map (·.request.clientOrderId)).Nodup
  ordered_once : f.tables.orderIds.Nodup
  filled_once : f.tables.fillIds.Sublist f.tables.orderIds
  executed : ∀ row ∈ f.tables.fills, row.booking ∈ bookings f.book
  backed : ∀ i, ∀ row ∈ (f.phase i).fills, row.booking ∈ bookings f.book
  paired : ∀ i, (f.phase i).Paired
  pending : ∀ i, ∀ row ∈ (f.phase i).fills, row.clientOrderId ∉ f.tables.fillIds
  apart : ∀ i j, i ≠ j → ∀ row ∈ (f.phase i).fills, ∀ row' ∈ (f.phase j).fills,
    row.clientOrderId ≠ row'.clientOrderId

/-- What a fill row claims is not of an order that is new to the book. -/
private theorem ne_of_new {book : List VenueOrder} {v : VenueOrder} {row : FillRecord}
    (hv : NewTo book v.request) (hrow : row.booking ∈ bookings book) :
    row.clientOrderId ≠ v.request.clientOrderId := by
  obtain ⟨w, hw, hbooking⟩ := List.mem_map.mp hrow
  have hid : w.request.clientOrderId = row.clientOrderId := congrArg Booking.clientOrderId hbooking
  exact hid ▸ hv w hw

omit [DecidableEq ι] in
/-- The book of the venue only grows. -/
private theorem Effect.prefix_book (h : f.Effect f' i) : f.book <+: f'.book := by
  rcases h.book with hsame | ⟨v, hnew, -⟩
  · rw [hsame]
  · rw [hnew]
    exact List.prefix_append _ _

omit [DecidableEq ι] in
/-- A fill row of the process, as far as the others and the tables can tell, is one it had
    before or one of an order they have never seen. -/
private theorem Effect.sources_cases (h : f.Effect f' i) {row : FillRecord}
    (hrow : row ∈ (f'.phase i).fills) :
    (row ∈ (f.phase i).fills ∧ f'.tables.fills = f.tables.fills) ∨
      ∀ other : FillRecord, other.booking ∈ bookings f.book →
        other.clientOrderId ≠ row.clientOrderId := by
  rcases h.sources row hrow with hbefore | ⟨v, -, hv, hbooking⟩
  · exact .inl hbefore
  · refine .inr fun other hother => ?_
    have hid : row.clientOrderId = v.request.clientOrderId :=
      congrArg Booking.clientOrderId hbooking
    exact hid ▸ ne_of_new hv hother

omit [DecidableEq ι] in
/-- What a turn commits the venue had executed. -/
private theorem Honest.executed_effect (h : f.Honest) (heffect : f.Effect f' i) :
    ∀ row ∈ f'.tables.fills, row.booking ∈ bookings f.book := by
  intro row hrow
  rcases heffect.rows with ⟨-, hfills⟩ | ⟨-, -, hfills⟩
  · exact h.executed row (hfills ▸ hrow)
  · rw [hfills, List.mem_append] at hrow
    exact hrow.elim (h.executed row) (h.backed i row)

omit [DecidableEq ι] in
/-- What a process has yet to commit is not among the rows. -/
private theorem Honest.pending_effect (h : f.Honest) (heffect : f.Effect f' i) (j : ι) :
    ∀ row ∈ (f'.phase j).fills, row.clientOrderId ∉ f'.tables.fillIds := by
  intro row hrow hknown
  obtain ⟨other, hother, hid⟩ := List.mem_map.mp hknown
  by_cases hj : j = i
  · subst hj
    rcases heffect.sources_cases hrow with ⟨hbefore, hfills⟩ | hnew
    · exact h.pending j row hbefore (List.mem_map.mpr ⟨other, hfills ▸ hother, hid⟩)
    · exact hnew other (h.executed_effect heffect other hother) hid
  · rw [heffect.others j hj] at hrow
    have hbefore : other ∉ f.tables.fills := fun hbefore =>
      h.pending j row hrow (List.mem_map.mpr ⟨other, hbefore, hid⟩)
    rcases heffect.rows with ⟨-, hfills⟩ | ⟨-, -, hfills⟩
    · exact hbefore (hfills ▸ hother)
    · rw [hfills, List.mem_append] at hother
      exact h.apart j i hj row hrow other (hother.resolve_left hbefore) hid.symm

omit [DecidableEq ι] in
/-- What a process has yet to commit is of another order than what the others have. -/
private theorem Honest.apart_effect (h : f.Honest) (heffect : f.Effect f' i) {j : ι}
    (hj : j ≠ i) : ∀ row ∈ (f'.phase i).fills, ∀ other ∈ (f'.phase j).fills,
      row.clientOrderId ≠ other.clientOrderId := by
  intro row hrow other hother
  rw [heffect.others j hj] at hother
  rcases heffect.sources_cases hrow with ⟨hbefore, -⟩ | hnew
  · exact h.apart i j (Ne.symm hj) row hbefore other hother
  · exact (hnew other (h.backed j other hother)).symm

omit [DecidableEq ι] in
/-- A turn keeps the rows honest. -/
theorem Honest.effect (h : f.Honest) (heffect : f.Effect f' i) : f'.Honest := by
  -- the book only grows, so what was executed stays so
  have hgrow : ∀ b ∈ bookings f.book, b ∈ bookings f'.book := fun b hb =>
    (heffect.prefix_book.map _).subset hb
  refine ⟨?_, ?_, ?_, fun row hrow => ?_, fun j row hrow => ?_, fun j => ?_,
    h.pending_effect heffect, fun j k hjk => ?_⟩
  -- the venue executes an id once
  · rcases heffect.book with hsame | ⟨v, hnew, hv, -⟩
    · rw [hsame]
      exact h.executed_once
    · rw [hnew, List.map_append, List.map_singleton, List.nodup_append]
      refine ⟨h.executed_once, List.nodup_singleton _, fun id hid other hother => ?_⟩
      obtain ⟨w, hw, rfl⟩ := List.mem_map.mp hid
      rw [List.mem_singleton.mp hother]
      exact hv w hw
  -- the commit refuses an id that is there
  · rcases heffect.rows with ⟨horders, -⟩ | ⟨hnew, horders, -⟩
    · rw [horders]
      exact h.ordered_once
    · rw [horders, List.nodup_append]
      refine ⟨h.ordered_once, by cases (f.phase i).order <;> simp, ?_⟩
      intro id hid other hother
      obtain ⟨order, horder, rfl⟩ := List.mem_map.mp hother
      rintro rfl
      exact hnew order (Option.mem_toList.mp horder) hid
  · rcases heffect.rows with ⟨horders, hfills⟩ | ⟨-, horders, hfills⟩
    · rw [horders, Database.fillIds, hfills]
      exact h.filled_once
    · rw [horders, Database.fillIds, hfills, List.map_append]
      exact h.filled_once.append (h.paired i)
  · exact hgrow _ (h.executed_effect heffect row hrow)
  · by_cases hj : j = i
    · subst hj
      rcases heffect.sources row hrow with ⟨hbefore, -⟩ | ⟨v, hnew, -, hbooking⟩
      · exact hgrow _ (h.backed j row hbefore)
      · rw [hbooking, hnew, bookings, List.map_append]
        exact List.mem_append_right _ (List.mem_singleton_self _)
    · exact hgrow _ (h.backed j row (heffect.others j hj ▸ hrow))
  · by_cases hj : j = i
    · subst hj
      exact heffect.paired (h.paired j)
    · rw [heffect.others j hj]
      exact h.paired j
  · by_cases hj : j = i
    · subst hj
      exact h.apart_effect heffect (Ne.symm hjk)
    · by_cases hk : k = i
      · subst hk
        exact fun row hrow other hother => (h.apart_effect heffect hj other hother row hrow).symm
      · rw [heffect.others j hj, heffect.others k hk]
        exact h.apart j k hjk

/-! ## Lost executions -/

/-- Every execution of the venue is among the rows or about to be. -/
def Accounted (f : Fleet ι) : Prop :=
  ∀ v ∈ f.book, v.booking ∈ f.tables.bookings ∨
    ∃ i, v.booking ∈ (f.phase i).fills.map FillRecord.booking

/-- A process fails with fill rows it has yet to commit, or the venue executes its order and
    it comes away without a fill. -/
def Loses (f : Fleet ι) (i : ι) (f' : Fleet ι) : Prop :=
  ((f'.phase i).Failed ∧ (f.phase i).fills ≠ []) ∨ (f'.book ≠ f.book ∧ (f'.phase i).fills = [])

omit [DecidableEq ι] in
/-- A turn that loses nothing leaves every execution accounted for. -/
private theorem Accounted.effect (h : f.Accounted) (heffect : f.Effect f' i)
    (hkeeps : ¬f.Loses i f') : f'.Accounted := by
  intro v hv
  -- an execution of before, or the one of this turn
  by_cases hbefore : v ∈ f.book
  · rcases h v hbefore with hrow | ⟨j, hpending⟩
    · left
      rcases heffect.rows with ⟨-, hfills⟩ | ⟨-, -, hfills⟩
      · rwa [Database.bookings, hfills]
      · rw [Database.bookings, hfills, List.map_append]
        exact List.mem_append_left _ hrow
    · by_cases hj : j = i
      · subst hj
        obtain ⟨row, hrow, hbooking⟩ := List.mem_map.mp hpending
        rcases heffect.carried row hrow with hcarried | hcommitted | hfailed
        · exact .inr ⟨j, List.mem_map.mpr ⟨row, hcarried, hbooking⟩⟩
        · exact .inl (List.mem_map.mpr ⟨row, hcommitted, hbooking⟩)
        · exact absurd (.inl ⟨hfailed, List.ne_nil_of_mem hrow⟩) hkeeps
      · exact .inr ⟨j, by rwa [heffect.others j hj]⟩
  · rcases heffect.book with hsame | ⟨w, hnew, -, hw⟩
    · exact absurd (hsame ▸ hv) hbefore
    · have hmem : v ∈ f.book ++ [w] := hnew ▸ hv
      obtain rfl : v = w := by simpa [hbefore] using hmem
      rcases hw with hpending | hempty
      · exact .inr ⟨i, hpending⟩
      · exact absurd (.inr ⟨fun hsame => hbefore (hsame ▸ hv), hempty⟩) hkeeps

omit [DecidableEq ι] in
/-- What a losing turn loses is neither among the rows nor with another process. -/
private theorem not_accounted_of_loses (h : f.Honest) (heffect : f.Effect f' i)
    (hloses : f.Loses i f') : ¬f'.Accounted := by
  -- an execution that the process no longer has, and nobody else knows
  obtain ⟨v, hv, hown, hrows, hothers⟩ : ∃ v ∈ f'.book, (f'.phase i).fills = [] ∧
      (∀ other ∈ f'.tables.fills, other.booking ≠ v.booking) ∧
        ∀ j, j ≠ i → ∀ other ∈ (f.phase j).fills, other.booking ≠ v.booking := by
    rcases hloses with ⟨hfailed, hfills⟩ | ⟨hbook, hempty⟩
    · obtain ⟨row, hrow⟩ := List.exists_mem_of_ne_nil _ hfills
      obtain ⟨v, hv, hbooking⟩ := List.mem_map.mp (h.backed i row hrow)
      refine ⟨v, heffect.prefix_book.subset hv, Phase.fills_of_ended hfailed.ended,
        fun other hother heq => ?_, fun j hj other hother heq => ?_⟩
      · rw [heffect.failed hfailed] at hother
        refine h.pending i row hrow (List.mem_map.mpr ⟨other, hother, ?_⟩)
        exact congrArg Booking.clientOrderId (heq.trans hbooking)
      · exact h.apart j i hj other hother row hrow
          (congrArg Booking.clientOrderId (heq.trans hbooking))
    · obtain ⟨v, hnew, hv, -⟩ := heffect.book.resolve_left hbook
      refine ⟨v, by simp [hnew], hempty, fun other hother heq => ?_,
        fun j hj other hother heq => ?_⟩
      · exact ne_of_new hv (h.executed_effect heffect other hother)
          (congrArg Booking.clientOrderId heq)
      · exact ne_of_new hv (h.backed j other hother) (congrArg Booking.clientOrderId heq)
  intro haccounted
  rcases haccounted v hv with hrow | ⟨j, hpending⟩
  · obtain ⟨other, hother, hbooking⟩ := List.mem_map.mp hrow
    exact hrows other hother hbooking
  · obtain ⟨other, hother, hbooking⟩ := List.mem_map.mp hpending
    by_cases hj : j = i
    · subst hj
      rw [hown] at hother
      exact absurd hother List.not_mem_nil
    · exact hothers j hj other (heffect.others j hj ▸ hother) hbooking

omit [DecidableEq ι] in
/-- What is lost stays lost. -/
private theorem accounted_of_effect (heffect : f.Effect f' i) (h : f'.Accounted) :
    f.Accounted := by
  intro v hv
  rcases h v (heffect.prefix_book.subset hv) with hrow | ⟨j, hpending⟩
  · rcases heffect.rows with ⟨-, hfills⟩ | ⟨-, -, hfills⟩
    · exact .inl (by rwa [Database.bookings, hfills] at hrow)
    · rw [Database.bookings, hfills, List.map_append, List.mem_append] at hrow
      exact hrow.imp_right fun hpending => ⟨i, hpending⟩
  · right
    by_cases hj : j = i
    · subst hj
      obtain ⟨row, hrow, hbooking⟩ := List.mem_map.mp hpending
      rcases heffect.sources row hrow with ⟨hbefore, -⟩ | ⟨w, -, hw, hnew⟩
      · exact ⟨j, List.mem_map.mpr ⟨row, hbefore, hbooking⟩⟩
      · -- an order that is new to the book was not in it
        exact absurd (congrArg Booking.clientOrderId (hbooking.symm.trans hnew)) (hw v hv)
    · exact ⟨j, by rwa [heffect.others j hj] at hpending⟩

/-! ## Rows and executions -/

omit [DecidableEq ι] in
/-- Honest tables claim no more than the venue executed. -/
theorem Honest.subperm (h : f.Honest) : f.tables.bookings.Subperm (bookings f.book) := by
  refine List.subperm_of_subset ?_ fun b hb => ?_
  · refine List.Nodup.of_map Booking.clientOrderId ?_
    rw [Database.map_clientOrderId_bookings]
    exact h.filled_once.nodup h.ordered_once
  · obtain ⟨row, hrow, rfl⟩ := List.mem_map.mp hb
    exact h.executed row hrow

omit [DecidableEq ι] in
/-- Once nobody has rows left to commit, rows and executions are the same exactly when every
    execution is accounted for. -/
theorem Honest.perm_iff (h : f.Honest) (hquiet : ∀ i, (f.phase i).fills = []) :
    f.tables.bookings.Perm (bookings f.book) ↔ f.Accounted := by
  constructor
  · intro hperm v hv
    exact .inl (hperm.mem_iff.mpr (List.mem_map.mpr ⟨v, hv, rfl⟩))
  · intro haccounted
    have hnodup : (bookings f.book).Nodup :=
      List.Nodup.of_map Booking.clientOrderId (map_clientOrderId_bookings f.book ▸
        h.executed_once)
    refine List.Subperm.antisymm h.subperm (List.subperm_of_subset hnodup fun b hb => ?_)
    obtain ⟨v, hv, rfl⟩ := List.mem_map.mp hb
    rcases haccounted v hv with hrow | ⟨i, hpending⟩
    · exact hrow
    · simp [hquiet i] at hpending

end Fleet

/-- Rows and executions are the same, and nothing is among them twice. -/
structure Reconciled (db : Database) (book : List VenueOrder) : Prop where
  executed_once : (book.map (·.request.clientOrderId)).Nodup
  ordered_once : db.orderIds.Nodup
  filled_once : db.fillIds.Sublist db.orderIds
  same : db.bookings.Perm (bookings book)

namespace Fleet

variable {ι : Type} [DecidableEq ι] {attempt : ι → Attempt} {f : Fleet ι} {db : Database}
  {book : List VenueOrder}

omit [DecidableEq ι] in
/-- A fleet that starts on reconciled tables is honest: no process holds any rows yet. -/
private theorem honest_start (h : Reconciled db book) : (start db book : Fleet ι).Honest where
  executed_once := h.executed_once
  ordered_once := h.ordered_once
  filled_once := h.filled_once
  executed row hrow := h.same.subset (List.mem_map.mpr ⟨row, hrow, rfl⟩)
  backed _ _ hrow := absurd hrow List.not_mem_nil
  paired _ := Phase.paired_of_nil rfl
  pending _ _ hrow := absurd hrow List.not_mem_nil
  apart _ _ _ _ hrow := absurd hrow List.not_mem_nil

end Fleet

/-- The bar at noon, by two processes. -/
def sandboxTwice (again : Bool) : Attempt :=
  sandboxRun (if again then noon + 60000000 else noon) none

/-- The second process loads its account first, finds the order of the other one, and commits
    without one of its own. -/
def overlappedTurns : List (Turn Bool) :=
  [true, false, false, false, false, false, true, true].map .step

/-- Both runs are answered with what the venue executed. -/
private theorem sandboxTwice_truthful (again : Bool) : (sandboxTwice again).Truthful := by
  rintro order _ price ⟨⟩ - hprice
  cases hprice
  rfl

/-- The processes, once all turns are taken. -/
def overlappedFleet : Fleet Bool :=
  overlappedTurns.foldl (Fleet.turn sandboxTwice) (Fleet.start Database.empty [])

end TradingBot
