import TradingBot.Spec.Ledger
import TradingBot.Spec.Scenario

/-!
# Conservation of the ledger

Over any run of cycles on the simulated exchange, the cash the next cycle loads, the
positions row and the latest equity snapshot are what the committed fills add up to,
with no rounding. `Conserved` is the invariant; one lemma shows that a committed cycle
keeps it.
-/

namespace TradingBot

open FixedPoint

/-! ## Sums over buys and sells -/

namespace FillRecord

/-- What a buy took from the cash. -/
def cost (f : FillRecord) : ℚ := f.quantity.toRat * f.price.toRat + f.feeQuote.toRat

/-- What a sell brought in. -/
def proceeds (f : FillRecord) : ℚ := f.quantity.toRat * f.price.toRat - f.feeQuote.toRat

end FillRecord

namespace Database

/-- The committed fills of one side. -/
def fillsOn (db : Database) (side : OrderSide) : List FillRecord :=
  db.fills.filter (·.side = side)

end Database

/-- A sum over the fills splits into the buys and the sells, each with its sign. -/
private theorem sum_by_side {flow onBuy onSell : FillRecord → ℚ} {a b : ℚ}
    (fills : List FillRecord) (hbuy : ∀ f, f.side = .buy → flow f = a * onBuy f)
    (hsell : ∀ f, f.side = .sell → flow f = b * onSell f) :
    (fills.map flow).sum = a * ((fills.filter (·.side = .buy)).map onBuy).sum +
      b * ((fills.filter (·.side = .sell)).map onSell).sum := by
  induction fills with
  | nil => simp
  | cons f fs ih =>
    cases hside : f.side with
    | buy =>
      simp [hside, ih, hbuy f hside]
      ring
    | sell =>
      simp [hside, ih, hsell f hside]
      ring

/-! ## The invariant -/

/-- What every committed cycle keeps. -/
structure Conserved (symbol : String) (initialCashQuote : ℚ) (db : Database) : Prop where
  agrees : db.Agrees symbol initialCashQuote
  held_nonneg : 0 ≤ db.heldQuantity symbol
  held_mem : db.heldQuantity symbol ∈ Grid ℚ 8
  latest_held : ∀ row, db.latestSnapshotFor symbol = some row →
    row.positionQuantity.toRat = db.heldQuantity symbol
  latest_equity : ∀ row, db.latestSnapshotFor symbol = some row →
    row.equityQuote.toRat =
      row.cashQuote.toRat + row.positionQuantity.toRat * row.markPrice.toRat

/-- Empty tables have nothing to conserve. -/
theorem conserved_empty (symbol : String) (initial : ℚ) :
    Conserved symbol initial Database.empty where
  agrees := Database.agrees_empty symbol initial
  held_nonneg := le_rfl
  held_mem := zero_mem _
  latest_held := nofun
  latest_equity := nofun

section Step

variable {c : TradingCycle} {x : SimulatedExchange} {symbol : String} {initial : ℚ}
  {db db' : Database} {p : Prepared} {s : Settlement} {sent : List OrderIntent}

/-- A settlement on the simulator holds whole venue steps. -/
private theorem settled_quantity_mem (hsim : c.OnSimulator x symbol initial)
    (hp : c.Prepares db p) (hs : c.Settles db p s sent)
    (hheld : p.account.position.quantity ∈ Grid ℚ 8) : s.position.quantity ∈ Grid ℚ 8 := by
  rw [hs.moves.quantity]
  refine add_mem hheld (list_sum_mem fun q hq => ?_)
  obtain ⟨f, hf, rfl⟩ := List.mem_map.mp hq
  have hqty := (hsim.submitsTo.filled_mem hp hs f hf).1
  unfold Fill.signedQuantity
  split
  · exact hqty
  · exact neg_mem hqty

/-- A committed cycle with the newest clock keeps the ledger conserved. -/
theorem Conserved.step (hinitial : initial ∈ Grid ℚ 18) (hsim : c.OnSimulator x symbol initial)
    (hnew : ∀ r ∈ db.equitySnapshots, r.takenAt < c.clock) (hdb : Conserved symbol initial db)
    (h : c.Commits db db' p s sent) : Conserved symbol initial db' := by
  have hmoves := h.settled.moves
  have hexact := hsim.submitsTo.exact h.prepared h.settled
  have hmark := hsim.markPrice_mem h.prepared
  obtain ⟨hcash, hsym, hheld, -⟩ := h.prepared.account_eq
  obtain rfl := hsim.symbol_eq
  obtain rfl := hsim.initial_eq
  -- everything that is stored fits its column
  have hnewest : ∀ r ∈ db.snapshotsFor c.symbol, r.takenAt < c.clock :=
    fun r hr => hnew r (List.mem_filter.mp hr).1
  have hcash_mem : p.account.cashQuote ∈ Grid ℚ 18 := hcash ▸ Database.loadCash_mem hinitial
  have hqty_mem : s.position.quantity ∈ Grid ℚ 8 :=
    settled_quantity_mem hsim h.prepared h.settled (hheld ▸ hdb.held_mem)
  have hheld' : db'.heldQuantity c.symbol = s.position.quantity := by
    rw [h.heldQuantity, roundTo_of_mem (grid_mono (by norm_num) hqty_mem)]
  have hlatest : ∀ row, db'.latestSnapshotFor c.symbol = some row → row = c.snapshotRow p s := by
    intro row hrow
    rw [h.latestSnapshotFor hnew] at hrow
    exact (Option.some.inj hrow).symm
  have hqty_stored : (c.snapshotRow p s).positionQuantity.toRat = s.position.quantity :=
    Numeric.toRat_ofRat_of_mem (grid_mono (by norm_num) hqty_mem)
  refine ⟨⟨?_, ?_⟩, ?_, ?_, ?_, ?_⟩
  · -- the cash was read from the newest snapshot, and no other run came between
    rw [h.tables, hmoves.cashJournal hexact hcash_mem _ hnewest]
    exact hdb.agrees.1.post_iff.mpr hcash
  · rw [h.inventory hexact]
    exact hdb.agrees.2.post_iff.mpr hheld
  · exact hheld' ▸ s.position.quantity_nonneg
  · exact hheld' ▸ hqty_mem
  · intro row hrow
    rw [hlatest row hrow, hqty_stored, hheld']
  · intro row hrow
    obtain rfl := hlatest row hrow
    -- 8 decimals of the quantity and 2 of the price leave the equity within its column
    have hequity : s.cash + s.position.notionalAt p.markPrice ∈ Grid ℚ 18 :=
      add_mem (hmoves.cash_mem hexact hcash_mem)
        (grid_mono (by norm_num [priceDigits]) (grid_mul hqty_mem hmark))
    rw [hqty_stored]
    simp only [TradingCycle.snapshotRow, equityIn_exact, Numeric.toRat_ofRat_of_mem hequity,
      Numeric.toRat_ofRat_of_mem (hmoves.cash_mem hexact hcash_mem),
      Numeric.toRat_ofRat_of_mem (grid_mono (by norm_num [priceDigits]) hmark :
        p.markPrice ∈ Grid ℚ 18)]
    rfl

end Step

/-! ## Whole runs -/

/-- The invariant of one step holds after every run. -/
theorem conserved_of_runs {symbol : String} {initial : ℚ} (hinitial : initial ∈ Grid ℚ 18)
    {cycles : List TradingCycle} {db : Database}
    (hrun : Runs Attempted Database.empty cycles db)
    (hsim : ∀ c ∈ cycles, ∃ x, c.OnSimulator x symbol initial)
    (hclock : cycles.Pairwise (·.clock < ·.clock)) : Conserved symbol initial db :=
  attempted_invariant hrun hclock nofun (conserved_empty symbol initial)
    fun _ c _ _ _ _ hc hnew hdb h =>
      have ⟨_, hx⟩ := hsim c hc
      hdb.step hinitial hx hnew h

/-- Conservation over whole runs: after any sequence of cycles, each of which commits or
    raises, the cash that is loaded next, the positions row and the latest snapshot agree
    with the committed fills. -/
theorem ledger_conserved {symbol : String} {initial : ℚ} (hinitial : initial ∈ Grid ℚ 18)
    {cycles : List TradingCycle} {db : Database}
    (hrun : Runs Attempted Database.empty cycles db)
    (hsim : ∀ c ∈ cycles, ∃ x, c.OnSimulator x symbol initial)
    (hclock : cycles.Pairwise (·.clock < ·.clock)) :
    let bought := db.fillsOn .buy
    let sold := db.fillsOn .sell
    let cash := initial - (bought.map FillRecord.cost).sum + (sold.map FillRecord.proceeds).sum
    let held := (bought.map (·.quantity.toRat)).sum - (sold.map (·.quantity.toRat)).sum
    db.loadCash symbol initial = cash ∧
      (∀ mark now a, db.loadAccountState symbol initial mark now = .ok a → a.cashQuote = cash) ∧
      db.heldQuantity symbol = held ∧ 0 ≤ held ∧
      ∀ row, db.latestSnapshotFor symbol = some row →
        row.cashQuote.toRat = cash ∧ row.positionQuantity.toRat = held ∧
          row.equityQuote.toRat = cash + held * row.markPrice.toRat := by
  intro bought sold cash held
  have h := conserved_of_runs hinitial hrun hsim hclock
  -- the fills are split by their sides
  have hcash : db.loadCash symbol initial = cash := by
    have hsync : db.loadCash symbol initial =
        initial + (db.fills.map FillRecord.cashFlow).sum := h.agrees.1
    have hsides : (db.fills.map FillRecord.cashFlow).sum =
        -1 * (bought.map FillRecord.cost).sum + 1 * (sold.map FillRecord.proceeds).sum :=
      sum_by_side db.fills (fun f hf => by simp [FillRecord.cashFlow, FillRecord.cost, hf])
        fun f hf => by simp [FillRecord.cashFlow, FillRecord.proceeds, hf]
    rw [hsync, hsides]
    ring
  have hheld : db.heldQuantity symbol = held := by
    have hsync : db.heldQuantity symbol =
        0 + (db.fills.map FillRecord.signedQuantity).sum := h.agrees.2
    have hsides : (db.fills.map FillRecord.signedQuantity).sum =
        1 * (bought.map (·.quantity.toRat)).sum + -1 * (sold.map (·.quantity.toRat)).sum :=
      sum_by_side db.fills (fun f hf => by simp [FillRecord.signedQuantity, hf])
        fun f hf => by simp [FillRecord.signedQuantity, hf]
    rw [hsync, hsides]
    ring
  -- the cash that is loaded is that of the latest snapshot
  have hlatest : ∀ row, db.latestSnapshotFor symbol = some row → row.cashQuote.toRat = cash := by
    intro row hrow
    simpa [Database.loadCash, hrow] using hcash
  refine ⟨hcash, ?_, hheld, hheld ▸ h.held_nonneg, fun row hrow => ⟨hlatest row hrow, ?_, ?_⟩⟩
  · intro mark now a ha
    exact (Database.loadAccountState_ok ha).1.trans hcash
  · exact (h.latest_held row hrow).trans hheld
  · rw [h.latest_equity row hrow, hlatest row hrow, h.latest_held row hrow, hheld]

/-- A buy and a sell one bar later. -/
theorem ledger_conserved_buyThenSell : ∃ db, commitAll Database.empty buyThenSell = some db ∧
    db.loadCash "BTC/USDT" 10000 = 10000 - ((db.fillsOn .buy).map FillRecord.cost).sum +
      ((db.fillsOn .sell).map FillRecord.proceeds).sum := by
  obtain ⟨db, hdb⟩ := Option.isSome_iff_exists.mp
    (by decide +kernel : (commitAll Database.empty buyThenSell).isSome = true)
  have hrun := attempted_of_committed (runs_of_commitAll hdb)
  refine ⟨db, hdb, (ledger_conserved ?_ hrun buyThenSell_onSimulator (by decide)).1⟩
  exact mem_grid.mpr ⟨10000 * 10 ^ 18, by norm_num⟩

end TradingBot
