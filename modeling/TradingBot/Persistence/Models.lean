import TradingBot.Domain.Portfolio
import TradingBot.ForMathlib.Rounding
import Mathlib.Logic.Function.Basic

/-!
# Tables

The rows the bot persists. A `NUMERIC(p, s)` column holds a whole number of units of
its last digit and rounds what is stored in it to nearest, ties away from zero. A value
that is too wide for its column fails the statement that would write it: each kind of row
says what its columns take, and `Transaction.flush` says when.

Surrogate keys are left out, since nothing reads them, and so is the signal's context.
-/

namespace TradingBot

open FixedPoint

/-- A value of a `NUMERIC` column with `scale` digits after the point, in units of the
    last digit. -/
structure Numeric (scale : ℕ) where
  units : ℤ
  deriving DecidableEq, Repr

namespace Numeric

variable {scale : ℕ}

/-- The value read back from the column. -/
def toRat (x : Numeric scale) : ℚ := x.units / 10 ^ scale

/-- Store a decimal in the column. -/
def ofRat (scale : ℕ) (q : ℚ) : Numeric scale := ⟨roundHalfUp (q * 10 ^ scale)⟩

/-- What comes back is the stored value rounded to the column's scale. -/
theorem toRat_ofRat (scale : ℕ) (q : ℚ) : (ofRat scale q).toRat = roundTo scale q := rfl

/-- A stored number is on the grid of its column. -/
theorem toRat_mem (x : Numeric scale) : x.toRat ∈ Grid ℚ scale := intCast_div_mem_grid _ _

/-- A decimal that fits the column comes back unchanged. -/
theorem toRat_ofRat_of_mem {q : ℚ} (h : q ∈ Grid ℚ scale) : (ofRat scale q).toRat = q := by
  rw [toRat_ofRat, roundTo_of_mem h]

/-- Stored numbers with the same value are the same. -/
theorem toRat_injective : Function.Injective (toRat : Numeric scale → ℚ) := by
  intro x y h
  have hpow : (10 : ℚ) ^ scale ≠ 0 := by positivity
  have hunits : (x.units : ℚ) = y.units := by
    rwa [toRat, toRat, div_left_inj' hpow] at h
  cases x
  cases y
  simpa using hunits

/-- Storing what was read back changes nothing. -/
@[simp] theorem ofRat_toRat (x : Numeric scale) : ofRat scale x.toRat = x :=
  toRat_injective (toRat_ofRat_of_mem x.toRat_mem)

end Numeric

/-- The scale of `QUANTITY` and `PRICE`. -/
abbrev Amount := Numeric 18

/-- `NUMERIC(38, 18)` holds numbers of at most 38 digits. -/
def Amount.storable (x : Amount) : Bool := |x.units| < 10 ^ 38

/-- A `VARCHAR(width)` column takes texts of at most that length, a `TEXT` column texts of
    any length. Neither takes a null character. Blanks past the width count like other
    characters, except in the id of the venue, where `cutBlanks` comes first. -/
def storableText (width : Option ℕ) (text : String) : Bool :=
  width.all (text.length ≤ ·) && !text.toList.contains (Char.ofNat 0)

/-- What a `VARCHAR(width)` column makes of a text that only blanks make too long. -/
def cutBlanks (width : ℕ) (text : String) : String :=
  if (text.toList.drop width).all (· = ' ') then String.ofList (text.toList.take width) else text

structure SignalRecord where
  cycleId : String
  symbol : String
  strategy : String
  action : SignalAction
  strength : Numeric 5
  reason : String
  asOf : Instant
  deriving DecidableEq, Repr

/-- The columns take the row. A strength is at most 1, so its column always does. -/
def SignalRecord.storable (row : SignalRecord) : Bool :=
  storableText (some 64) row.cycleId && storableText (some 32) row.symbol &&
    storableText (some 64) row.strategy && storableText none row.reason

structure OrderRecord where
  clientOrderId : String
  cycleId : String
  symbol : String
  side : OrderSide
  quantity : Amount
  referencePrice : Amount
  status : OrderStatus
  venueOrderId : Option String
  rejectionReason : Option String
  decisionReason : String
  createdAt : Instant
  deriving DecidableEq, Repr

/-- The columns take the row. Sides and states are short. -/
def OrderRecord.storable (row : OrderRecord) : Bool :=
  storableText (some 64) row.clientOrderId && storableText (some 64) row.cycleId &&
    storableText (some 32) row.symbol && row.quantity.storable && row.referencePrice.storable &&
    row.venueOrderId.all (storableText (some 64)) &&
    row.rejectionReason.all (storableText none) && storableText none row.decisionReason

structure FillRecord where
  clientOrderId : String
  symbol : String
  side : OrderSide
  quantity : Amount
  price : Amount
  feeQuote : Amount
  filledAt : Instant
  deriving DecidableEq, Repr

/-- The columns take the row. -/
def FillRecord.storable (row : FillRecord) : Bool :=
  storableText (some 64) row.clientOrderId && storableText (some 32) row.symbol &&
    row.quantity.storable && row.price.storable && row.feeQuote.storable

structure PositionRecord where
  symbol : String
  quantity : Amount
  averagePrice : Amount
  updatedAt : Instant
  deriving DecidableEq, Repr

structure EquitySnapshotRecord where
  cycleId : String
  symbol : String
  markPrice : Amount
  cashQuote : Amount
  positionQuantity : Amount
  equityQuote : Amount
  dayOpeningEquity : Amount
  takenAt : Instant
  deriving DecidableEq, Repr

/-- The columns take the row. -/
def EquitySnapshotRecord.storable (row : EquitySnapshotRecord) : Bool :=
  storableText (some 64) row.cycleId && storableText (some 32) row.symbol &&
    row.markPrice.storable && row.cashQuote.storable && row.positionQuantity.storable &&
    row.equityQuote.storable && row.dayOpeningEquity.storable

/-- The committed rows. `positions` has the symbol as its primary key, the other tables
    are in insertion order. -/
structure Database where
  signals : List SignalRecord
  orders : List OrderRecord
  fills : List FillRecord
  positions : String → Option PositionRecord
  equitySnapshots : List EquitySnapshotRecord
  positions_keyed : ∀ symbol row, positions symbol = some row → row.symbol = symbol

namespace Database

/-- The tables as the migration creates them. -/
def empty : Database := ⟨[], [], [], fun _ => none, [], nofun⟩

end Database

/-- The columns of a positions row that an update sets: those that were assigned a value
    they did not have when the session read the row. -/
structure PositionUpdate where
  symbol : String
  quantity : Option Amount
  averagePrice : Option Amount
  updatedAt : Option Instant
  deriving DecidableEq, Repr

/-- The row with the columns of the update set. -/
def PositionUpdate.applyTo (u : PositionUpdate) (row : PositionRecord) : PositionRecord :=
  { row with
    quantity := u.quantity.getD row.quantity
    averagePrice := u.averagePrice.getD row.averagePrice
    updatedAt := u.updatedAt.getD row.updatedAt }

/-- A write to the positions table. Whether it inserts or updates was decided when the
    session looked the row up. -/
inductive PositionWrite where
  | insert (row : PositionRecord)
  | update (columns : PositionUpdate)
  deriving DecidableEq, Repr

namespace PositionWrite

def symbol : PositionWrite → String
  | insert row => row.symbol
  | update columns => columns.symbol

/-- The row it leaves in place of the current one. -/
def rowAfter : PositionWrite → Option PositionRecord → Option PositionRecord
  | insert row, _ => some row
  | update columns, current => current.map columns.applyTo

/-- Whether the quantity column is part of it. -/
def setsQuantity : PositionWrite → Bool
  | insert _ => true
  | update columns => columns.quantity.isSome

/-- The columns take what is written. -/
def storable : PositionWrite → Bool
  | insert row =>
    storableText (some 32) row.symbol && row.quantity.storable && row.averagePrice.storable
  | update columns =>
    columns.quantity.all Amount.storable && columns.averagePrice.all Amount.storable

/-- A position row is written under the symbol of its key. -/
theorem rowAfter_keyed {w : PositionWrite} {current : Option PositionRecord}
    (hcurrent : ∀ row, current = some row → row.symbol = w.symbol) {row : PositionRecord}
    (h : w.rowAfter current = some row) : row.symbol = w.symbol := by
  cases w with
  | insert new =>
    cases h
    rfl
  | update columns =>
    obtain ⟨found, hfound, rfl⟩ := Option.map_eq_some_iff.mp h
    exact hcurrent found hfound

end PositionWrite

/-- What one session has added and not yet committed. -/
structure Transaction where
  signal : SignalRecord
  order : Option OrderRecord
  fills : List FillRecord
  position : Option PositionWrite
  equity : EquitySnapshotRecord
  deriving DecidableEq, Repr

namespace Transaction

/-- The positions table after the transaction. -/
def positionsAfter (tx : Transaction) (db : Database) : String → Option PositionRecord :=
  match tx.position with
  | none => db.positions
  | some write =>
    Function.update db.positions write.symbol (write.rowAfter (db.positions write.symbol))

/-- After a commit each position row is under the symbol of its key. -/
theorem positionsAfter_keyed (tx : Transaction) (db : Database) (symbol : String)
    (row : PositionRecord) (h : tx.positionsAfter db symbol = some row) : row.symbol = symbol := by
  unfold positionsAfter at h
  cases hwrite : tx.position with
  | none =>
    simp only [hwrite] at h
    exact db.positions_keyed symbol row h
  | some write =>
    simp only [hwrite] at h
    -- only the row of the written symbol is replaced
    by_cases hsym : symbol = write.symbol
    · subst hsym
      rw [Function.update_self] at h
      exact PositionWrite.rowAfter_keyed (db.positions_keyed write.symbol) h
    · rw [Function.update_of_ne hsym] at h
      exact db.positions_keyed symbol row h

/-- The rows after the transaction, if it commits. -/
def applyTo (tx : Transaction) (db : Database) : Database where
  signals := db.signals ++ [tx.signal]
  orders := db.orders ++ tx.order.toList
  fills := db.fills ++ tx.fills
  positions := tx.positionsAfter db
  equitySnapshots := db.equitySnapshots ++ [tx.equity]
  positions_keyed := tx.positionsAfter_keyed db

section ApplyTo

variable (tx : Transaction) (db : Database)

/-- A commit adds its signal row. -/
@[simp] theorem applyTo_signals : (tx.applyTo db).signals = db.signals ++ [tx.signal] := rfl

/-- A commit adds its order row, if there is one. -/
@[simp] theorem applyTo_orders : (tx.applyTo db).orders = db.orders ++ tx.order.toList := rfl

/-- A commit adds its fill rows. -/
@[simp] theorem applyTo_fills : (tx.applyTo db).fills = db.fills ++ tx.fills := rfl

/-- A commit leaves the positions that its write gives. -/
@[simp] theorem applyTo_positions : (tx.applyTo db).positions = tx.positionsAfter db := rfl

/-- A commit adds its equity row. -/
@[simp] theorem applyTo_equitySnapshots :
    (tx.applyTo db).equitySnapshots = db.equitySnapshots ++ [tx.equity] := rfl

end ApplyTo

/-- The order carries a client order id that is already taken. -/
def duplicatesOrder (tx : Transaction) (db : Database) : Bool :=
  tx.order.any fun order => db.orders.any (·.clientOrderId = order.clientOrderId)

/-- The position is inserted although its row exists. -/
def duplicatesPosition (tx : Transaction) (db : Database) : Bool :=
  match tx.position with
  | some (.insert row) => (db.positions row.symbol).isSome
  | _ => false

/-- The position is updated although it has no row. -/
def missesPosition (tx : Transaction) (db : Database) : Bool :=
  match tx.position with
  | some (.update columns) => (db.positions columns.symbol).isNone
  | _ => false

/-- The columns take the rows that a commit writes last. The others were written before, by
    the queries that followed them. -/
def storable (tx : Transaction) : Bool :=
  tx.position.all PositionWrite.storable && tx.equity.storable

/-- Write the rows that are still pending when the session commits. -/
def flush (tx : Transaction) : Except Error Unit :=
  if tx.storable then .ok () else .error .dataError

/-- Commit the written rows atomically, or fail on a unique constraint or on an update that
    matches no row, and leave every row as it was. -/
def commit (tx : Transaction) (db : Database) : Except Error Database :=
  if tx.duplicatesOrder db then .error (.integrityError "orders_client_order_id_key")
  else if tx.duplicatesPosition db then .error (.integrityError "positions_pkey")
  else if tx.missesPosition db then .error (.staleDataError "positions")
  else .ok (tx.applyTo db)

/-- The transaction can be placed on the rows it finds. -/
structure Fits (tx : Transaction) (db : Database) : Prop where
  order : tx.duplicatesOrder db = false
  insert : tx.duplicatesPosition db = false
  update : tx.missesPosition db = false

/-- A write that can be placed leaves a row. -/
theorem Fits.rowAfter_isSome {tx : Transaction} {db : Database} (h : tx.Fits db)
    {w : PositionWrite} (hw : tx.position = some w) :
    (w.rowAfter (db.positions w.symbol)).isSome = true := by
  cases w with
  | insert row => rfl
  | update columns =>
    have hrow := h.update
    simp only [missesPosition, hw, Option.isNone_eq_false_iff] at hrow
    simpa [PositionWrite.rowAfter, PositionWrite.symbol] using hrow

/-- A commit goes through exactly where the rows fit the tables, and then all of them are written.
    -/
theorem commit_ok_iff {tx : Transaction} {db db' : Database} :
    tx.commit db = .ok db' ↔ tx.Fits db ∧ db' = tx.applyTo db := by
  unfold commit
  split
  next h => exact iff_of_false nofun fun hok => by simp [hok.1.order] at h
  next horder =>
    split
    next h => exact iff_of_false nofun fun hok => by simp [hok.1.insert] at h
    next hinsert =>
      split
      next h => exact iff_of_false nofun fun hok => by simp [hok.1.update] at h
      next hupdate =>
        have hfits : tx.Fits db := ⟨by simpa using horder, by simpa using hinsert,
          by simpa using hupdate⟩
        simp [hfits, eq_comm]

/-- `session.commit()`. -/
def commitSession (tx : Transaction) (db : Database) : Except Error Database := do
  tx.flush
  tx.commit db

/-- A session commits when its columns take the last rows and they can be placed. -/
theorem commitSession_ok_iff {tx : Transaction} {db db' : Database} :
    tx.commitSession db = .ok db' ↔ tx.storable = true ∧ tx.Fits db ∧ db' = tx.applyTo db := by
  unfold commitSession flush
  rw [← commit_ok_iff]
  split
  next hstored => simp [hstored, bind, Except.bind]
  next hstored => simp [hstored, bind, Except.bind]

end Transaction

end TradingBot
