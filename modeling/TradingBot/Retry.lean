import TradingBot.Exchange.CcxtSandbox
import TradingBot.Spec.CycleSteps

/-!
# Runs that may die

A venue behind the ccxt sandbox, and runs of the job that may die at any point and are
then retried. The venue keeps a book of the orders it executed, which no crash undoes. It
executes each client order id at most once and answers a repeated one with an error. What it
answers to a new one is up to it: it may execute an order and report it, report something
else, answer without a fill, or not answer at all, as when the request times out.
-/

namespace TradingBot

/-- What the venue executed of an order. -/
structure VenueExecution where
  quantity : ℚ
  price : ℚ
  feeQuote : ℚ
  deriving DecidableEq, Repr

/-- An order the venue executed. -/
structure VenueOrder where
  request : CreateOrder
  execution : VenueExecution
  deriving DecidableEq, Repr

/-- Where a run dies. -/
inductive CrashPoint where
  | beforeSubmit
  | beforeCommit
  | afterCommit
  deriving DecidableEq, Repr

/-- One run of the job: the cycle, what the venue would execute of an order with a new client
    order id and what it would answer, its answer to a repeated id, the time an answer comes,
    and where the run dies, if it does. -/
structure Attempt where
  cycle : TradingCycle
  executes : CreateOrder → Option VenueExecution
  answer : CreateOrder → Except ClientError OrderResponse
  repeated : ClientError
  answeredAt : Instant
  diesAt : Option CrashPoint

/-- The venue has executed an order with this id. -/
def knownTo (book : List VenueOrder) (order : CreateOrder) : Bool :=
  book.any (·.request.clientOrderId = order.clientOrderId)

/-- The order is new to a book. -/
def NewTo (book : List VenueOrder) (order : CreateOrder) : Prop :=
  ∀ v ∈ book, v.request.clientOrderId ≠ order.clientOrderId

/-- An order is new to the venue exactly where its id is not known there. -/
theorem knownTo_eq_false_iff {book : List VenueOrder} {order : CreateOrder} :
    knownTo book order = false ↔ NewTo book order := by
  simp [knownTo, NewTo]

namespace Attempt

/-- `create_order` of a venue with a book. -/
def createOrder (a : Attempt) (book : List VenueOrder) (order : CreateOrder) :
    Except ClientError OrderResponse :=
  if knownTo book order then .error a.repeated else a.answer order

/-- A new order is answered. -/
theorem createOrder_of_new {a : Attempt} {book : List VenueOrder} {order : CreateOrder}
    (h : NewTo book order) : a.createOrder book order = a.answer order := by
  rw [createOrder, knownTo_eq_false_iff.mpr h, if_neg Bool.false_ne_true]

/-- Only a new order id is answered with a response. -/
theorem createOrder_ok {a : Attempt} {book : List VenueOrder} {order : CreateOrder}
    {response : OrderResponse} (h : a.createOrder book order = .ok response) :
    NewTo book order ∧ a.answer order = .ok response := by
  unfold createOrder at h
  split at h
  next => cases h
  next hnew => exact ⟨knownTo_eq_false_iff.mp (by simpa using hnew), h⟩

/-- The book once an order has reached the venue, whatever the venue answers. -/
def bookAfter (a : Attempt) (book : List VenueOrder) (order : CreateOrder) : List VenueOrder :=
  if knownTo book order then book
  else
    match a.executes order with
    | some execution => book ++ [⟨order, execution⟩]
    | none => book

/-- A venue executes an order that is new to it, or its book stays as it is. -/
theorem bookAfter_spec (a : Attempt) (book : List VenueOrder) (order : CreateOrder) :
    (a.bookAfter book order = book ∧ (NewTo book order → a.executes order = none)) ∨
      ∃ execution, NewTo book order ∧ a.executes order = some execution ∧
        a.bookAfter book order = book ++ [⟨order, execution⟩] := by
  unfold bookAfter
  cases hknown : knownTo book order with
  | true =>
    refine .inl ⟨rfl, fun hnew => ?_⟩
    rw [knownTo_eq_false_iff.mpr hnew] at hknown
    cases hknown
  | false =>
    cases hexecutes : a.executes order with
    | none => exact .inl ⟨rfl, fun _ => rfl⟩
    | some execution => exact .inr ⟨execution, knownTo_eq_false_iff.mp hknown, rfl, rfl⟩

/-- The sandbox gateway in front of the venue. -/
def gateway (a : Attempt) (book : List VenueOrder) : Gateway where
  fetchSnapshot := a.cycle.gateway.fetchSnapshot
  submit := CcxtSandboxExchange.submit (a.createOrder book) a.answeredAt
  submit_intent _ _ := CcxtSandboxExchange.submit_intent

/-- The cycle in front of the venue. -/
def cycleAt (a : Attempt) (book : List VenueOrder) : TradingCycle :=
  { a.cycle with gateway := a.gateway book }

section CycleAt

variable (a : Attempt) (book : List VenueOrder)

/-- The book of the venue does not change the symbol of a cycle. -/
@[simp] theorem cycleAt_symbol : (a.cycleAt book).symbol = a.cycle.symbol := rfl

/-- Nor its strategy. -/
@[simp] theorem cycleAt_strategy : (a.cycleAt book).strategy = a.cycle.strategy := rfl

end CycleAt

end Attempt

/-- The committed rows, and the book of the venue. -/
structure Market where
  tables : Database
  book : List VenueOrder

namespace Market

/-- What the run of an attempt comes to when it does not die. -/
def outcome (m : Market) (a : Attempt) (A : DecimalContext := .exact) :
    Except Error (CycleResult × Database) × List OrderIntent :=
  (a.cycleAt m.book).outcome m.tables A

/-- The book once the orders of an attempt have reached the venue. -/
def bookAfter (m : Market) (a : Attempt) (A : DecimalContext := .exact) : List VenueOrder :=
  (m.outcome a A).2.foldl
    (fun book intent => a.bookAfter book (CcxtSandboxExchange.request intent)) m.book

/-- A run of the job. One that dies before it has submitted leaves no trace; one that dies
    before its commit leaves what the venue did; so does one that raises. -/
def attempt (m : Market) (a : Attempt) (A : DecimalContext := .exact) : Market :=
  match a.diesAt, (m.outcome a A).1 with
  | some .beforeSubmit, _ => m
  | some .beforeCommit, _ => ⟨m.tables, m.bookAfter a A⟩
  | _, .ok (_, db) => ⟨db, m.bookAfter a A⟩
  | _, .error _ => ⟨m.tables, m.bookAfter a A⟩

/-- The run of an attempt commits. -/
def Commits (m : Market) (a : Attempt) (A : DecimalContext := .exact) : Prop :=
  a.diesAt ≠ some .beforeSubmit ∧ a.diesAt ≠ some .beforeCommit ∧
    ∃ r db, (m.outcome a A).1 = .ok (r, db)

/-- An attempt that dies before it submits leaves no trace. Otherwise the venue keeps what it
    did, and the tables are what the run committed, if it did. -/
theorem attempt_cases (m : Market) (a : Attempt) (A : DecimalContext := .exact) :
    (a.diesAt = some .beforeSubmit ∧ m.attempt a A = m) ∨
      (a.diesAt ≠ some .beforeSubmit ∧
        ((¬m.Commits a A ∧ m.attempt a A = ⟨m.tables, m.bookAfter a A⟩) ∨
          (m.Commits a A ∧ ∃ r db, (m.outcome a A).1 = .ok (r, db) ∧
            m.attempt a A = ⟨db, m.bookAfter a A⟩))) := by
  unfold attempt Commits
  cases hdies : a.diesAt with
  | none => rcases houtcome : (m.outcome a A).1 with e | ⟨r, db⟩ <;> simp
  | some point =>
    rcases houtcome : (m.outcome a A).1 with e | ⟨r, db⟩ <;> cases point <;> simp

/-- A run gets to send a new order. -/
structure SendsNew (m : Market) (a : Attempt) (p : Prepared) (intent : OrderIntent)
    (A : DecimalContext := .exact) : Prop where
  lives : a.diesAt ≠ some .beforeSubmit
  prepared : (a.cycleAt m.book).Prepares m.tables p A
  intent_eq : p.decision.intent = some intent
  unknown : m.tables.alreadyExecuted intent.clientOrderId = false
  new : NewTo m.book (CcxtSandboxExchange.request intent)

/-- A run gets to send an order that the venue executes. -/
structure Executes (m : Market) (a : Attempt) (p : Prepared) (intent : OrderIntent)
    (execution : VenueExecution) (A : DecimalContext := .exact) : Prop
    extends SendsNew m a p intent A where
  executed : a.executes (CcxtSandboxExchange.request intent) = some execution

/-- One attempt after another. -/
def Tries (m : Market) (a : Attempt) (m' : Market) (A : DecimalContext := .exact) : Prop :=
  m' = m.attempt a A

end Market

end TradingBot
