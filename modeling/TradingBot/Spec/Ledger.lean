import TradingBot.Exchange.Simulated
import TradingBot.ForMathlib.Journal
import TradingBot.Spec.CycleSteps
import Mathlib.Algebra.Group.Submonoid.BigOperators

/-!
# The ledger behind the tables

Two journals are kept in the fill rows: one of the cash and one of the inventory of a
symbol. Their balances are stored elsewhere, the cash in the latest equity snapshot and
the inventory in the positions row. This file says what a committed run posts to each.

The columns are read back as they were stored when what a fill moves has at most 18
decimals (`Fill.Exact`), which is the case for every fill of the simulated exchange.
-/

namespace TradingBot

open FixedPoint

/-! ## The two journals -/

namespace FillRecord

/-- What a fill row did to the cash. -/
def cashFlow (f : FillRecord) : ℚ :=
  match f.side with
  | .buy => -(f.quantity.toRat * f.price.toRat + f.feeQuote.toRat)
  | .sell => f.quantity.toRat * f.price.toRat - f.feeQuote.toRat

/-- What a fill row did to the inventory. -/
def signedQuantity (f : FillRecord) : ℚ :=
  match f.side with
  | .buy => f.quantity.toRat
  | .sell => -f.quantity.toRat

end FillRecord

namespace Database

/-- The cash of a symbol: what its fills moved, and the balance the next cycle loads. -/
def cashJournal (db : Database) (symbol : String) (initialCashQuote : ℚ) : Journal ℚ where
  entries := db.fills.map FillRecord.cashFlow
  balance := db.loadCash symbol initialCashQuote

/-- The inventory of a symbol. -/
def inventory (db : Database) (symbol : String) : Journal ℚ where
  entries := db.fills.map FillRecord.signedQuantity
  balance := db.heldQuantity symbol

/-- The stored cash and the stored quantity are what the committed fills add up to. -/
def Agrees (db : Database) (symbol : String) (initialCashQuote : ℚ) : Prop :=
  (db.cashJournal symbol initialCashQuote).InSync initialCashQuote ∧
    (db.inventory symbol).InSync 0

/-- Empty tables agree with a ledger without entries. -/
theorem agrees_empty (symbol : String) (initialCashQuote : ℚ) :
    empty.Agrees symbol initialCashQuote :=
  ⟨Journal.inSync_nil, Journal.inSync_nil⟩

end Database

/-! ## Fills that fit their columns -/

/-- The amounts of a fill, and its notional, have at most 18 decimals. -/
structure Fill.Exact (f : Fill) : Prop where
  quantity : f.quantity ∈ Grid ℚ 18
  price : f.price ∈ Grid ℚ 18
  feeQuote : f.feeQuote ∈ Grid ℚ 18
  notional : f.notional ∈ Grid ℚ 18

namespace Fill

/-- The cash flow of an exact fill fits its column. -/
theorem Exact.cashFlow_mem {f : Fill} (h : f.Exact) : f.cashFlow ∈ Grid ℚ 18 := by
  unfold cashFlow
  split
  · exact neg_mem (add_mem h.notional h.feeQuote)
  · exact sub_mem h.notional h.feeQuote

/-- So does what the fill adds to the position. -/
theorem Exact.signedQuantity_mem {f : Fill} (h : f.Exact) : f.signedQuantity ∈ Grid ℚ 18 := by
  unfold signedQuantity
  split
  · exact h.quantity
  · exact neg_mem h.quantity

/-- The row of an exact fill moves what the fill moved. -/
theorem Exact.recordFill_cashFlow {f : Fill} (h : f.Exact) :
    (recordFill f).cashFlow = f.cashFlow := by
  simp only [FillRecord.cashFlow, recordFill, Numeric.toRat_ofRat_of_mem h.quantity,
    Numeric.toRat_ofRat_of_mem h.price, Numeric.toRat_ofRat_of_mem h.feeQuote]
  rfl

/-- The row of an exact fill adds what the fill does. -/
theorem Exact.recordFill_signedQuantity {f : Fill} (h : f.Exact) :
    (recordFill f).signedQuantity = f.signedQuantity := by
  simp only [FillRecord.signedQuantity, recordFill, Numeric.toRat_ofRat_of_mem h.quantity]
  rfl

end Fill

/-- A sum of numbers on a grid is on the grid. -/
private theorem sum_map_mem {α : Type} {n : ℕ} {f : α → ℚ} {xs : List α}
    (h : ∀ x ∈ xs, f x ∈ Grid ℚ n) : (xs.map f).sum ∈ Grid ℚ n :=
  list_sum_mem fun y hy => by
    obtain ⟨x, hx, rfl⟩ := List.mem_map.mp hy
    exact h x hx

/-! ## What a settlement moves -/

namespace Settlement

/-- The fills a settlement came with. -/
def filled (s : Settlement) : List Fill :=
  match s.execution with
  | none => []
  | some execution => execution.fills

/-- Whether a settlement sets the quantity of the positions row. -/
def setsQuantity (s : Settlement) : Bool := s.write.any (·.setsQuantity)

/-- A settlement records its fills, and saves its position unless it has none. -/
structure Saves (s : Settlement) (account : AccountState) : Prop where
  symbol : s.position.symbol = account.position.symbol
  fills : s.fills = s.filled.map recordFill
  no_write : s.write = none → s.filled = []
  write : ∀ w, s.write = some w → ∃ tables now, w = savePosition tables s.position now

/-- A settlement moves the account it started from by its fills, exactly. -/
structure Moves (s : Settlement) (account : AccountState) : Prop extends Saves s account where
  cash : s.cash = account.cashQuote + (s.filled.map Fill.cashFlow).sum
  quantity : s.position.quantity =
    account.position.quantity + (s.filled.map Fill.signedQuantity).sum

/-- A settlement without an order has nothing to record. -/
theorem unchanged_saves (account : AccountState) (duplicateSuppressed : Bool) :
    (unchanged account duplicateSuppressed).Saves account := by
  constructor <;> simp [unchanged, filled]

/-- A settlement without an order leaves the account as it is. -/
theorem unchanged_moves (account : AccountState) (duplicateSuppressed : Bool) :
    (unchanged account duplicateSuppressed).Moves account :=
  { unchanged_saves account duplicateSuppressed with
    cash := by simp [unchanged, filled]
    quantity := by simp [unchanged, filled] }

end Settlement

namespace TradingCycle

variable {A : DecimalContext} {c : TradingCycle} {db : Database} {p : Prepared} {s : Settlement}
  {sent : List OrderIntent}

/-- An order that was sent saves the position its answer is folded to, whatever rows the session
    finds when it looks up the position. -/
theorem Sends.saves {intent : OrderIntent} {x : Executed} (h : c.Sends p intent x A)
    (tables : Database) : (c.settle tables x).Saves p.account := by
  obtain ⟨fees, hfold⟩ := h.foldedIn
  refine ⟨applyExecutionIn_symbol hfold, (congrArg Prod.snd h.recorded).symm, nofun, ?_⟩
  rintro w ⟨⟩
  exact ⟨tables, c.clock, rfl⟩

/-- With exact arithmetic it moves the account by the fills of its answer. -/
theorem Sends.moves {intent : OrderIntent} {x : Executed} (h : c.Sends p intent x)
    (tables : Database) : (c.settle tables x).Moves p.account := by
  obtain ⟨fees, hfold⟩ := h.folded
  obtain ⟨hcash, -, hqty, -, -⟩ := applyExecution_ok hfold
  exact { h.saves tables with cash := hcash, quantity := hqty }

/-- Every settlement records its fills and saves its position, in any arithmetic. -/
theorem Settles.saves (h : c.Settles db p s sent A) : s.Saves p.account := by
  cases h with
  | held => exact Settlement.unchanged_saves _ _
  | suppressed => exact Settlement.unchanged_saves _ _
  | sent _ _ hsends => exact hsends.saves db

/-- With exact sums a settlement moves the account by its fills. -/
theorem Settles.moves (h : c.Settles db p s sent) : s.Moves p.account := by
  cases h with
  | held => exact Settlement.unchanged_moves _ _
  | suppressed => exact Settlement.unchanged_moves _ _
  | sent _ _ hsends => exact hsends.moves db

/-- What a settlement does not set is what the rows have already. -/
theorem Settles.heldQuantity (h : c.Settles db p s sent A) (hp : c.Prepares db p A)
    (hset : s.setsQuantity = false) : db.heldQuantity c.symbol = s.position.quantity := by
  obtain ⟨-, hsym, hheld, -⟩ := hp.loaded_eq
  cases h with
  | held => exact hheld.symm
  | suppressed => exact hheld.symm
  | @sent _ intent x hintent hnew hsends =>
    have hsaved : x.position.symbol = c.symbol := (hsends.saves db).symbol.trans hsym
    have hset : (savePosition db x.position c.clock).setsQuantity = false := by
      simpa [Settlement.setsQuantity, settle] using hset
    exact hsaved ▸ Database.heldQuantity_of_not_setsQuantity db x.position c.clock hset

end TradingCycle

/-! ## What a committed transaction saves -/

namespace Settlement.Saves

variable {A : DecimalContext} {c : TradingCycle} {db : Database} {p : Prepared} {s : Settlement}

/-- The quantity column of the positions row after a transaction. -/
private theorem quantityColumn (h : s.Saves p.account)
    (hsym : p.account.position.symbol = c.symbol) {w : PositionWrite} (hw : s.write = some w) :
    ((c.pending p s A).applyTo db).positions c.symbol = w.rowAfter (db.positions c.symbol) := by
  obtain ⟨tables, now, rfl⟩ := h.write w hw
  have hsaved : (savePosition tables s.position now).symbol = c.symbol := by
    rw [Database.savePosition_symbol, h.symbol, hsym]
  simp only [Transaction.applyTo_positions, Transaction.positionsAfter,
    TradingCycle.pending_position, hw]
  rw [hsaved, Function.update_self]

/-- A transaction that sets the quantity stores the one it settled at, rounded to the
    column. -/
theorem heldQuantity_set (h : s.Saves p.account) (hsym : p.account.position.symbol = c.symbol)
    (hfits : (c.pending p s A).Fits db) (hset : s.setsQuantity = true) :
    ((c.pending p s A).applyTo db).heldQuantity c.symbol = roundTo 18 s.position.quantity := by
  obtain ⟨w, hw, hset⟩ : ∃ w, s.write = some w ∧ w.setsQuantity = true := by
    simpa [Settlement.setsQuantity, Option.any_eq_true] using hset
  have hrow := hfits.rowAfter_isSome hw
  rw [Database.heldQuantity_eq, h.quantityColumn hsym hw]
  obtain ⟨tables, now, rfl⟩ := h.write w hw
  rw [Database.savePosition_symbol, h.symbol, hsym] at hrow
  rw [Database.quantity_rowAfter_savePosition tables s.position now hset hrow]
  exact Numeric.toRat_ofRat 18 s.position.quantity

/-- A transaction that does not set the quantity leaves it as it is. -/
theorem heldQuantity_kept (h : s.Saves p.account) (hsym : p.account.position.symbol = c.symbol)
    (hset : s.setsQuantity = false) :
    ((c.pending p s A).applyTo db).heldQuantity c.symbol = db.heldQuantity c.symbol := by
  rw [Database.heldQuantity_eq, Database.heldQuantity_eq]
  cases hw : s.write with
  | none => simp [Transaction.positionsAfter, hw]
  | some w =>
    have hset : w.setsQuantity = false := by simpa [Settlement.setsQuantity, hw] using hset
    rw [h.quantityColumn hsym hw, Database.quantity_rowAfter hset]

end Settlement.Saves

namespace TradingCycle.Commits

variable {A : DecimalContext} {c : TradingCycle} {db db' : Database} {p : Prepared}
  {s : Settlement} {sent : List OrderIntent}

/-- A run that was alone leaves the quantity it settled at, rounded to the column. -/
theorem heldQuantity (h : c.Commits db db' p s sent A) :
    db'.heldQuantity c.symbol = roundTo 18 s.position.quantity := by
  obtain ⟨-, hsym, -⟩ := h.prepared.loaded_eq
  have hsaves := h.settled.saves
  rw [h.tables]
  cases hset : s.setsQuantity with
  | true => exact hsaves.heldQuantity_set hsym h.fits hset
  | false =>
    -- nothing is set because the row has the quantity already
    have hsame := h.settled.heldQuantity h.prepared hset
    rw [hsaves.heldQuantity_kept hsym hset, ← hsame, roundTo_of_mem (db.heldQuantity_mem _)]

/-- The rows of other symbols are left alone. -/
theorem positions_of_ne (h : c.Commits db db' p s sent A) {symbol : String}
    (hne : symbol ≠ c.symbol) : db'.positions symbol = db.positions symbol := by
  have hsaves := h.settled.saves
  rw [h.tables, Transaction.applyTo_positions, Transaction.positionsAfter, pending_position]
  cases hw : s.write with
  | none => rfl
  | some w =>
    obtain ⟨tables, now, rfl⟩ := hsaves.write w hw
    refine Function.update_of_ne ?_ _ _
    rwa [Database.savePosition_symbol, hsaves.symbol, h.prepared.loaded_eq.2.1]

end TradingCycle.Commits

/-! ## What a committed transaction posts -/

namespace Settlement.Moves

variable {c : TradingCycle} {db : Database} {p : Prepared} {s : Settlement}

/-- The cash a settlement leaves fits its column when its fills do. -/
theorem cash_mem (h : s.Moves p.account) (hexact : ∀ f ∈ s.filled, f.Exact)
    (hcash : p.account.cashQuote ∈ Grid ℚ 18) : s.cash ∈ Grid ℚ 18 :=
  h.cash ▸ add_mem hcash (sum_map_mem fun f hf => (hexact f hf).cashFlow_mem)

/-- A position that fits its column and is moved by exact fills still fits. -/
theorem quantity_mem (h : s.Moves p.account) (hexact : ∀ f ∈ s.filled, f.Exact)
    (hqty : p.account.position.quantity ∈ Grid ℚ 18) : s.position.quantity ∈ Grid ℚ 18 :=
  h.quantity ▸ add_mem hqty (sum_map_mem fun f hf => (hexact f hf).signedQuantity_mem)

/-- The rows of exact fills have the cash flows of the fills. -/
theorem fills_cashFlow (h : s.Moves p.account) (hexact : ∀ f ∈ s.filled, f.Exact) :
    s.fills.map FillRecord.cashFlow = s.filled.map Fill.cashFlow := by
  rw [h.fills, List.map_map]
  exact List.map_congr_left fun f hf => (hexact f hf).recordFill_cashFlow

/-- The rows of exact fills add what the fills do. -/
theorem fills_signedQuantity (h : s.Moves p.account) (hexact : ∀ f ∈ s.filled, f.Exact) :
    s.fills.map FillRecord.signedQuantity = s.filled.map Fill.signedQuantity := by
  rw [h.fills, List.map_map]
  exact List.map_congr_left fun f hf => (hexact f hf).recordFill_signedQuantity

/-- A snapshot that is the newest carries the cash the next cycle loads. -/
theorem loadCash (h : s.Moves p.account) (hexact : ∀ f ∈ s.filled, f.Exact)
    (hcash : p.account.cashQuote ∈ Grid ℚ 18) (initial : ℚ)
    (hnew : ∀ r ∈ db.snapshotsFor c.symbol, r.takenAt < c.clock) :
    ((c.pending p s).applyTo db).loadCash c.symbol initial = s.cash := by
  have hlatest : ((c.pending p s).applyTo db).latestSnapshotFor c.symbol =
      some (c.snapshotRow p s) := Database.latestSnapshotFor_append (by simp) rfl hnew
  rw [Database.loadCash, hlatest]
  exact Numeric.toRat_ofRat_of_mem (h.cash_mem hexact hcash)

/-- A transaction whose snapshot is the newest posts its fills on top of the cash the
    cycle had loaded. -/
theorem cashJournal (h : s.Moves p.account) (hexact : ∀ f ∈ s.filled, f.Exact)
    (hcash : p.account.cashQuote ∈ Grid ℚ 18) (initial : ℚ)
    (hnew : ∀ r ∈ db.snapshotsFor c.symbol, r.takenAt < c.clock) :
    ((c.pending p s).applyTo db).cashJournal c.symbol initial =
      (db.cashJournal c.symbol initial).post p.account.cashQuote
        (s.filled.map Fill.cashFlow) := by
  rw [Database.cashJournal, h.loadCash hexact hcash initial hnew, h.cash]
  simp [Database.cashJournal, Journal.post, h.fills_cashFlow hexact]

/-- A transaction whose snapshot is not the newest leaves the cash as it was. -/
theorem cashJournal_late (h : s.Moves p.account) (hexact : ∀ f ∈ s.filled, f.Exact)
    (initial : ℚ) {r : EquitySnapshotRecord} (hr : r ∈ db.snapshotsFor c.symbol)
    (hlate : c.clock ≤ r.takenAt) :
    ((c.pending p s).applyTo db).cashJournal c.symbol initial =
      (db.cashJournal c.symbol initial).postAside (s.filled.map Fill.cashFlow) := by
  have hlatest : ((c.pending p s).applyTo db).latestSnapshotFor c.symbol =
      db.latestSnapshotFor c.symbol :=
    Database.latestSnapshotFor_append_late
      (Transaction.applyTo_equitySnapshots (c.pending p s) db) rfl hr hlate
  rw [Database.cashJournal, Database.loadCash, hlatest]
  simp [Database.cashJournal, Database.loadCash, Journal.postAside, h.fills_cashFlow hexact]

/-- A transaction that sets the quantity posts its fills on top of the quantity the cycle
    had loaded. -/
theorem inventory_set (h : s.Moves p.account) (hexact : ∀ f ∈ s.filled, f.Exact)
    (hsym : p.account.position.symbol = c.symbol)
    (hqty : p.account.position.quantity ∈ Grid ℚ 18) (hfits : (c.pending p s).Fits db)
    (hset : s.setsQuantity = true) :
    ((c.pending p s).applyTo db).inventory c.symbol =
      (db.inventory c.symbol).post p.account.position.quantity
        (s.filled.map Fill.signedQuantity) := by
  rw [Database.inventory, h.toSaves.heldQuantity_set hsym hfits hset,
    roundTo_of_mem (h.quantity_mem hexact hqty), h.quantity]
  simp [Database.inventory, Journal.post, h.fills_signedQuantity hexact]

/-- A transaction that does not set the quantity posts its fills aside. -/
theorem inventory_kept (h : s.Moves p.account) (hexact : ∀ f ∈ s.filled, f.Exact)
    (hsym : p.account.position.symbol = c.symbol) (hset : s.setsQuantity = false) :
    ((c.pending p s).applyTo db).inventory c.symbol =
      (db.inventory c.symbol).postAside (s.filled.map Fill.signedQuantity) := by
  rw [Database.inventory, h.toSaves.heldQuantity_kept hsym hset]
  simp [Database.inventory, Journal.postAside, h.fills_signedQuantity hexact]

end Settlement.Moves

namespace TradingCycle.Commits

variable {c : TradingCycle} {db db' : Database} {p : Prepared} {s : Settlement}
  {sent : List OrderIntent}

/-- A run that was alone posts its fills on top of the inventory there was. -/
theorem inventory (h : c.Commits db db' p s sent) (hexact : ∀ f ∈ s.filled, f.Exact) :
    db'.inventory c.symbol =
      (db.inventory c.symbol).post p.account.position.quantity
        (s.filled.map Fill.signedQuantity) := by
  obtain ⟨-, -, hheld, -⟩ := h.prepared.account_eq
  have hmoves := h.settled.moves
  have hqty : s.position.quantity ∈ Grid ℚ 18 :=
    hmoves.quantity_mem hexact (hheld ▸ db.heldQuantity_mem c.symbol)
  rw [Database.inventory, h.heldQuantity, roundTo_of_mem hqty, hmoves.quantity, h.tables]
  simp [Database.inventory, Journal.post, hmoves.fills_signedQuantity hexact]

end TradingCycle.Commits

/-! ## Orders filled by the simulated exchange -/

/-- The orders of a cycle are filled by a simulated exchange, wherever its market data
    comes from. -/
def TradingCycle.SubmitsTo (c : TradingCycle) (x : SimulatedExchange)
    (A : DecimalContext := .exact) : Prop :=
  ∃ submitClock, c.gateway.submit = fun intent => x.submit submitClock intent A

/-- A cycle of a symbol, with its initial cash, on a simulated exchange. -/
structure TradingCycle.OnSimulator (c : TradingCycle) (x : SimulatedExchange) (symbol : String)
    (initialCashQuote : ℚ) : Prop where
  symbol_eq : c.symbol = symbol
  initial_eq : c.initialCashQuote = initialCashQuote
  gateway_eq : ∃ fetchClock submitClock, c.gateway = x.gateway fetchClock submitClock

namespace TradingCycle

variable {c : TradingCycle} {x : SimulatedExchange} {symbol : String} {initial : ℚ}
  {db found : Database} {p : Prepared} {s : Settlement} {sent : List OrderIntent}

/-- A cycle on a simulator submits to it. -/
theorem OnSimulator.submitsTo (hsim : c.OnSimulator x symbol initial) : c.SubmitsTo x := by
  obtain ⟨_, submitClock, hgateway⟩ := hsim.gateway_eq
  exact ⟨submitClock, hgateway ▸ rfl⟩

/-- The mark price of a simulated market is in cents. -/
theorem OnSimulator.markPrice_mem (hsim : c.OnSimulator x symbol initial)
    (hp : c.Prepares db p) : p.markPrice ∈ Grid ℚ priceDigits := by
  obtain ⟨fetchClock, submitClock, hgateway⟩ := hsim.gateway_eq
  have hfetched := hp.fetched
  rw [hgateway] at hfetched
  exact hp.markPrice_eq ▸ (SimulatedExchange.fetchSnapshot_ok hfetched).2

/-- A cycle that submits to the simulator leaves its account alone, having nothing new to
    submit, or its order is filled at once, at the slipped price. -/
theorem SubmitsTo.settles (hx : c.SubmitsTo x) (hp : c.Prepares found p)
    (hs : c.Settles db p s sent) :
    ((∃ suppressed, s = .unchanged p.account suppressed) ∧
        ∀ i, p.decision.intent = some i → db.alreadyExecuted i.clientOrderId = true) ∨
      ∃ i f, p.decision.intent = some i ∧ db.alreadyExecuted i.clientOrderId = false ∧
        (∃ a, s.execution = some a ∧ a.intent = i ∧ a.fills = [f]) ∧ f.side = i.side ∧
        f.quantity = i.quantity ∧ f.price = x.fillPrice i.side p.markPrice ∧
        f.feeQuote = x.fee i.quantity f.price := by
  cases hs with
  | held hnone => exact .inl ⟨⟨false, rfl⟩, by simp [hnone]⟩
  | @suppressed _ intent hintent hknown =>
    refine .inl ⟨⟨true, rfl⟩, fun i hi => ?_⟩
    cases hintent.symm.trans hi
    exact hknown
  | @sent _ intent executed hintent hnew hsends =>
    -- the reference price of the intent is the mark price
    obtain ⟨submitClock, hsubmit⟩ := hx
    have hanswer := hsends.answered
    rw [hsubmit] at hanswer
    obtain ⟨heq, -, f, hfills, -, -, hside, hqty, hprice, hfee⟩ :=
      SimulatedExchange.submit_ok hanswer
    obtain ⟨-, -, -, href⟩ := hp.intent_eq hintent
    refine .inr ⟨intent, f, hintent, hnew, ⟨executed.execution, rfl, heq, hfills⟩, hside, hqty,
      ?_, ?_⟩
    · rw [hprice, href]
    · rw [hfee, hprice]

/-- The fills of a settlement on the simulator, when there are any. -/
theorem SubmitsTo.filled (hx : c.SubmitsTo x) (hp : c.Prepares found p)
    (hs : c.Settles db p s sent) :
    s.filled = [] ∨ ∃ i f, p.decision.intent = some i ∧ s.filled = [f] ∧ f.side = i.side ∧
      f.quantity = i.quantity ∧ f.price ∈ Grid ℚ priceDigits ∧
      f.feeQuote ∈ Grid ℚ priceDigits := by
  rcases hx.settles hp hs with ⟨⟨_, rfl⟩, -⟩ | ⟨i, f, hi, -, ⟨a, ha, -, hfills⟩, hside, hqty,
    hprice, hfee⟩
  · exact .inl rfl
  · refine .inr ⟨i, f, hi, by simp [Settlement.filled, ha, hfills], hside, hqty, ?_, ?_⟩
    · rw [hprice]
      exact roundTo_mem _ _
    · rw [hfee]
      exact roundTo_mem _ _

/-- A fill of the simulator moves whole venue steps at a price in cents. -/
theorem SubmitsTo.filled_mem (hx : c.SubmitsTo x) (hp : c.Prepares found p)
    (hs : c.Settles db p s sent) :
    ∀ f ∈ s.filled, f.quantity ∈ Grid ℚ 8 ∧ f.price ∈ Grid ℚ 2 ∧ f.feeQuote ∈ Grid ℚ 2 := by
  rcases hx.filled hp hs with hnone | ⟨i, f, hi, hfilled, -, hqty, hprice, hfee⟩
  · simp [hnone]
  · rw [hfilled]
    rintro g hg
    obtain rfl := List.mem_singleton.mp hg
    exact ⟨hqty ▸ (PolicyEngine.approved_size (hp.intent_eq hi).1).2.1, hprice, hfee⟩

/-- Every fill of the simulator fits its columns. -/
theorem SubmitsTo.exact (hx : c.SubmitsTo x) (hp : c.Prepares found p)
    (hs : c.Settles db p s sent) : ∀ f ∈ s.filled, f.Exact := by
  intro f hf
  obtain ⟨hqty, hprice, hfee⟩ := hx.filled_mem hp hs f hf
  exact ⟨grid_mono (by norm_num) hqty, grid_mono (by norm_num) hprice,
    grid_mono (by norm_num) hfee, grid_mono (by norm_num) (grid_mul hqty hprice)⟩

end TradingCycle

end TradingBot
