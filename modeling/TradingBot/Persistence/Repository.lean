import TradingBot.Execution.DecimalLedger
import TradingBot.Persistence.Models
import TradingBot.Exchange.Timeframes
import Mathlib.Data.List.MinMax

/-!
# The repository

Reads and writes of a cycle. Cash is carried by the most recent equity snapshot,
quantity by the positions row. PostgreSQL leaves the order of equal `taken_at` open;
here the row inserted first counts as both the latest and the earliest of such rows.
-/

namespace TradingBot

namespace Database

/-! ## Reads -/

def loadPosition (db : Database) (symbol : String) : Except Error Position :=
  match db.positions symbol with
  | none => Position.validate symbol 0 0
  | some record =>
    Position.validate record.symbol record.quantity.toRat record.averagePrice.toRat

/-- The equity snapshots of one symbol. -/
def snapshotsFor (db : Database) (symbol : String) : List EquitySnapshotRecord :=
  db.equitySnapshots.filter (·.symbol = symbol)

section TakenAt

-- named, since the search would find an order that does not compute
local instance : Preorder Instant := Int.instLinearOrder.toPreorder

def latestSnapshotFor (db : Database) (symbol : String) : Option EquitySnapshotRecord :=
  (db.snapshotsFor symbol).argmax (·.takenAt)

/-- Midnight UTC before a moment. -/
def dayStart (now : Instant) : Instant := now / dayMicros * dayMicros

/-- Equity at the first snapshot of the current UTC day. -/
def dayOpeningEquity (db : Database) (symbol : String) (now : Instant) (fallback : ℚ) : ℚ :=
  match ((db.snapshotsFor symbol).filter (dayStart now ≤ ·.takenAt)).argmin (·.takenAt) with
  | none => fallback
  | some first => first.equityQuote.toRat

end TakenAt

/-- The cash of the most recent snapshot, or the initial cash when there is none. -/
def loadCash (db : Database) (symbol : String) (initialCashQuote : ℚ) : ℚ :=
  match db.latestSnapshotFor symbol with
  | none => initialCashQuote
  | some latest => latest.cashQuote.toRat

/-- Rebuild the ledger the bot reasons about. -/
def loadAccountState (db : Database) (symbol : String) (initialCashQuote markPrice : ℚ)
    (now : Instant) (A : DecimalContext := .exact) : Except Error AccountState := do
  let cash := db.loadCash symbol initialCashQuote
  let position ← db.loadPosition symbol
  -- the fallback of a day without a snapshot
  let equityNow := equityIn A cash position markPrice
  AccountState.validate cash position (db.dayOpeningEquity symbol now equityNow)

/-- Whether this exact order was already sent. -/
def alreadyExecuted (db : Database) (clientOrderId : String) : Bool :=
  db.orders.any (·.clientOrderId = clientOrderId)

/-- The quantity of the positions row, zero when there is none. -/
def heldQuantity (db : Database) (symbol : String) : ℚ :=
  match db.positions symbol with
  | none => 0
  | some record => record.quantity.toRat

end Database

/-! ## Writes -/

/-- A query of the session writes the rows added before it, which their columns must take. -/
def autoflush (storable : Bool) : Except Error Unit :=
  if storable then .ok () else .error .dataError

/-- A query goes through exactly where the pending rows fit their columns. -/
@[simp] theorem autoflush_ok_iff {storable : Bool} :
    autoflush storable = .ok () ↔ storable = true := by
  cases storable <;> simp [autoflush]

def recordSignal (cycleId : String) (signal : Signal) : SignalRecord where
  cycleId := cycleId
  symbol := signal.symbol
  strategy := signal.strategy
  action := signal.action
  strength := .ofRat 5 signal.strength
  reason := signal.reason
  asOf := signal.asOf

/-- The fill rows of `record_execution`. -/
def recordFill (fill : Fill) : FillRecord where
  clientOrderId := fill.clientOrderId
  symbol := fill.symbol
  side := fill.side
  quantity := .ofRat 18 fill.quantity
  price := .ofRat 18 fill.price
  feeQuote := .ofRat 18 fill.feeQuote
  filledAt := fill.filledAt

def recordExecution (cycleId : String) (decision : PolicyDecision) (execution : OrderExecution) :
    OrderRecord × List FillRecord :=
  let intent := execution.intent
  ({ clientOrderId := intent.clientOrderId
     cycleId := cycleId
     symbol := intent.symbol
     side := intent.side
     quantity := .ofRat 18 intent.quantity
     referencePrice := .ofRat 18 intent.referencePrice
     status := execution.status
     venueOrderId := execution.venueOrderId.map (cutBlanks 64)
     rejectionReason := execution.rejectionReason
     decisionReason := decision.reason
     createdAt := intent.createdAt }, execution.fills.map recordFill)

/-- The value a column is set to, when it is assigned one that it does not have. -/
def changed (column : Amount) (value : ℚ) : Option Amount :=
  if column.toRat = value then none else some (.ofRat 18 value)

def savePosition (db : Database) (position : Position) (now : Instant) : PositionWrite :=
  match db.positions position.symbol with
  | none => .insert
      { symbol := position.symbol
        quantity := .ofRat 18 position.quantity
        averagePrice := .ofRat 18 position.averagePrice
        updatedAt := now }
  | some record => .update
      { symbol := position.symbol
        quantity := changed record.quantity position.quantity
        averagePrice := changed record.averagePrice position.averagePrice
        updatedAt := if record.updatedAt = now then none else some now }

def recordEquitySnapshot (cycleId : String) (snapshot : EquitySnapshot) :
    EquitySnapshotRecord where
  cycleId := cycleId
  symbol := snapshot.symbol
  markPrice := .ofRat 18 snapshot.markPrice
  cashQuote := .ofRat 18 snapshot.cashQuote
  positionQuantity := .ofRat 18 snapshot.positionQuantity
  equityQuote := .ofRat 18 snapshot.equityQuote
  dayOpeningEquity := .ofRat 18 snapshot.dayOpeningEquity
  takenAt := snapshot.takenAt

namespace Database

/-! ## What the reads return -/

/-- An order is known exactly where a row has its id. -/
theorem alreadyExecuted_iff {db : Database} {id : String} :
    db.alreadyExecuted id = true ↔ ∃ row ∈ db.orders, row.clientOrderId = id := by
  simp [alreadyExecuted]

/-- A loaded position is of its symbol and holds the quantity of its row. -/
theorem loadPosition_ok {db : Database} {symbol : String} {p : Position}
    (h : db.loadPosition symbol = .ok p) :
    p.symbol = symbol ∧ p.quantity = db.heldQuantity symbol := by
  unfold loadPosition at h
  unfold heldQuantity
  cases hrow : db.positions symbol with
  | none =>
    simp only [hrow] at h
    exact ⟨(Position.validate_ok h).1, (Position.validate_ok h).2.1⟩
  | some record =>
    simp only [hrow] at h
    obtain ⟨hsym, hqty, -⟩ := Position.validate_ok h
    exact ⟨hsym.trans (db.positions_keyed symbol record hrow), hqty⟩

/-- A loaded account holds the cash of the latest snapshot, the quantity of the
    positions row, and the day's opening equity. -/
theorem loadAccountState_ok {db : Database} {symbol : String} {initial mark : ℚ} {now : Instant}
    {a : AccountState} {A : DecimalContext}
    (h : db.loadAccountState symbol initial mark now A = .ok a) :
    a.cashQuote = db.loadCash symbol initial ∧ a.position.symbol = symbol ∧
      a.position.quantity = db.heldQuantity symbol ∧
      a.dayOpeningEquity =
        db.dayOpeningEquity symbol now (equityIn A a.cashQuote a.position mark) := by
  unfold loadAccountState at h
  cases hp : db.loadPosition symbol with
  | error e => simp [hp, bind, Except.bind] at h
  | ok p =>
    simp only [hp, bind, Except.bind] at h
    obtain ⟨hcash, hpos, hday⟩ := AccountState.validate_ok h
    obtain ⟨hsym, hqty⟩ := loadPosition_ok hp
    refine ⟨hcash, hpos ▸ hsym, hpos ▸ hqty, ?_⟩
    rw [hday, hcash, hpos]

/-- The cash that is loaded fits its column: it is stored there, or is the initial one. -/
theorem loadCash_mem {db : Database} {symbol : String} {initial : ℚ}
    (hinitial : initial ∈ FixedPoint.Grid ℚ 18) :
    db.loadCash symbol initial ∈ FixedPoint.Grid ℚ 18 := by
  unfold loadCash
  split
  · exact hinitial
  · exact Numeric.toRat_mem _

/-- The quantity that is loaded fits its column. -/
theorem heldQuantity_mem (db : Database) (symbol : String) :
    db.heldQuantity symbol ∈ FixedPoint.Grid ℚ 18 := by
  unfold heldQuantity
  split
  · exact zero_mem _
  · exact Numeric.toRat_mem _

/-! ## What saving a position writes -/

section SavePosition

variable (tables : Database) (position : Position) (now : Instant)

/-- A position is saved under its symbol. -/
@[simp] theorem savePosition_symbol :
    (savePosition tables position now).symbol = position.symbol := by
  unfold savePosition
  split <;> rfl

/-- A quantity column that is not set has the value already. -/
theorem heldQuantity_of_not_setsQuantity
    (hset : (savePosition tables position now).setsQuantity = false) :
    tables.heldQuantity position.symbol = position.quantity := by
  unfold savePosition at hset
  split at hset
  next => cases hset
  next record hrow =>
    have hsame : record.quantity.toRat = position.quantity := by
      by_contra hne
      simp [PositionWrite.setsQuantity, changed, hne] at hset
    rw [heldQuantity, hrow]
    exact hsame

/-- A quantity column that is set has the value afterwards, in the row there is. -/
theorem quantity_rowAfter_savePosition {current : Option PositionRecord}
    (hset : (savePosition tables position now).setsQuantity = true)
    (hrow : ((savePosition tables position now).rowAfter current).isSome = true) :
    ((savePosition tables position now).rowAfter current).map (·.quantity) =
      some (.ofRat 18 position.quantity) := by
  unfold savePosition at hset hrow ⊢
  split at hset
  next => simp [PositionWrite.rowAfter]
  next record hsome =>
    have hne : record.quantity.toRat ≠ position.quantity := by
      intro hsame
      simp [PositionWrite.setsQuantity, changed, hsame] at hset
    simp only [hsome, PositionWrite.rowAfter, Option.isSome_map] at hrow ⊢
    obtain ⟨found, rfl⟩ := Option.isSome_iff_exists.mp hrow
    simp [PositionUpdate.applyTo, changed, hne]

/-- A quantity column that is not set stays as it is. -/
theorem quantity_rowAfter {w : PositionWrite} (hset : w.setsQuantity = false)
    (current : Option PositionRecord) :
    (w.rowAfter current).map (·.quantity) = current.map (·.quantity) := by
  cases w with
  | insert row => cases hset
  | update columns =>
    have hnone : columns.quantity = none := by simpa [PositionWrite.setsQuantity] using hset
    cases current <;> simp [PositionWrite.rowAfter, PositionUpdate.applyTo, hnone]

/-- On the rows it was looked up in, a position is inserted only if it has no row there and
    updated only if it has one. -/
theorem savePosition_placed {tx : Transaction}
    (hsave : tx.position = some (savePosition tables position now)) :
    tx.duplicatesPosition tables = false ∧ tx.missesPosition tables = false := by
  unfold Transaction.duplicatesPosition Transaction.missesPosition
  rw [hsave, savePosition]
  cases hrow : tables.positions position.symbol <;> simp [hrow]

end SavePosition

/-- The held quantity is read off the quantity column. -/
theorem heldQuantity_eq (db : Database) (symbol : String) :
    db.heldQuantity symbol = ((db.positions symbol).map (·.quantity)).elim 0 (·.toRat) := by
  unfold heldQuantity
  cases db.positions symbol <;> rfl

/-! ## The latest snapshot -/

section Append

variable {db tables : Database} {symbol : String} {row : EquitySnapshotRecord}
  (happend : tables.equitySnapshots = db.equitySnapshots ++ [row]) (hsym : row.symbol = symbol)

include happend hsym

/-- A snapshot of the symbol is its newest row. -/
theorem snapshotsFor_append :
    tables.snapshotsFor symbol = db.snapshotsFor symbol ++ [row] := by
  simp [snapshotsFor, happend, hsym]

/-- A snapshot newer than all others of its symbol becomes the latest. -/
theorem latestSnapshotFor_append
    (hnew : ∀ r ∈ db.snapshotsFor symbol, r.takenAt < row.takenAt) :
    tables.latestSnapshotFor symbol = some row := by
  rw [latestSnapshotFor, snapshotsFor_append happend hsym, List.argmax_concat]
  cases hmax : (db.snapshotsFor symbol).argmax (·.takenAt) with
  | none => rfl
  | some r =>
    -- the last element takes over from the maximum so far
    exact if_pos (hnew r (List.argmax_mem hmax))

/-- A snapshot that is not newer than all others leaves the latest as it is. -/
theorem latestSnapshotFor_append_late {r : EquitySnapshotRecord}
    (hr : r ∈ db.snapshotsFor symbol) (hlate : row.takenAt ≤ r.takenAt) :
    tables.latestSnapshotFor symbol = db.latestSnapshotFor symbol := by
  rw [latestSnapshotFor, latestSnapshotFor, snapshotsFor_append happend hsym, List.argmax_concat]
  cases hmax : (db.snapshotsFor symbol).argmax (·.takenAt) with
  | none =>
    rw [List.argmax_eq_none.mp hmax] at hr
    exact absurd hr List.not_mem_nil
  | some m =>
    -- the maximum so far is at least as new as `r`
    exact if_neg (not_lt.mpr (hlate.trans (List.le_of_mem_argmax hr hmax)))

end Append

end Database

end TradingBot
