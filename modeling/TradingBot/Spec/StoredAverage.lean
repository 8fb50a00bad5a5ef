import TradingBot.ForMathlib.RoundedAverage
import TradingBot.Spec.AverageCost
import TradingBot.Spec.LedgerConservation

/-!
# The average price in the positions row

The positions row carries the average price from cycle to cycle, in a column of 18 decimals,
while a weighted average has as many as it likes. What is stored is still within the prices
paid since the position was last closed, and off by at most half a unit of the column for each
purchase since then; a closed position is stored at zero.

## Key results

- `StoresAverage.step`: a committed cycle keeps the row
- `stored_average_near`: the result over every sequence of cycles
-/

namespace TradingBot

open FixedPoint

/-! ## The stored average -/

namespace Database

/-- The average price of the positions row, zero when there is none. -/
def averagePrice (db : Database) (symbol : String) : ℚ :=
  match db.positions symbol with
  | none => 0
  | some record => record.averagePrice.toRat

/-- The stored average is that of the row, or zero. -/
theorem averagePrice_eq (db : Database) (symbol : String) :
    db.averagePrice symbol = ((db.positions symbol).map (·.averagePrice)).elim 0 (·.toRat) := by
  unfold averagePrice
  cases db.positions symbol <;> rfl

/-- The stored average fits its column. -/
theorem averagePrice_mem (db : Database) (symbol : String) :
    db.averagePrice symbol ∈ Grid ℚ 18 := by
  unfold averagePrice
  split
  · exact zero_mem _
  · exact Numeric.toRat_mem _

/-- A loaded position has the average price of its row. -/
theorem loadPosition_averagePrice {db : Database} {symbol : String} {p : Position}
    (h : db.loadPosition symbol = .ok p) : p.averagePrice = db.averagePrice symbol := by
  unfold loadPosition at h
  unfold averagePrice
  cases hrow : db.positions symbol <;> simp only [hrow] at h <;> exact (Position.validate_ok h).2.2

/-- The account is loaded with the stored average. -/
theorem loadAccountState_averagePrice {db : Database} {symbol : String} {initial mark : ℚ}
    {now : Instant} {a : AccountState} (h : db.loadAccountState symbol initial mark now = .ok a) :
    a.position.averagePrice = db.averagePrice symbol := by
  obtain ⟨p, hp, h⟩ := Except.bind_eq_ok.mp h
  rw [(AccountState.validate_ok h).2.1]
  exact loadPosition_averagePrice hp

/-- Saving a position stores its average price, rounded to the column. -/
theorem averagePrice_savePosition (db : Database) (position : Position) (now : Instant) :
    (((savePosition db position now).rowAfter (db.positions position.symbol)).map
      (·.averagePrice)).elim 0 (·.toRat) = roundTo 18 position.averagePrice := by
  unfold savePosition
  cases hrow : db.positions position.symbol with
  | none => exact Numeric.toRat_ofRat 18 _
  | some record =>
    -- a column that is not set has the value already
    by_cases hsame : record.averagePrice.toRat = position.averagePrice
    · simp only [PositionWrite.rowAfter, PositionUpdate.applyTo, changed, Option.map_some,
        Option.elim_some, ← hsame]
      exact (roundTo_of_mem (Numeric.toRat_mem _)).symm
    · simp only [PositionWrite.rowAfter, PositionUpdate.applyTo, changed, if_neg hsame,
        Option.map_some, Option.getD_some, Option.elim_some]
      exact Numeric.toRat_ofRat 18 _

end Database

/-- The trade a fill row records. -/
def FillRecord.Records (row : FillRecord) : Trade ℚ → Prop
  | .buy d => row.side = .buy ∧ row.quantity.toRat = d.quantity ∧ row.price.toRat = d.price
  | .sell d => row.side = .sell ∧ row.quantity.toRat = d.quantity ∧ row.price.toRat = d.price

/-- The positions row of a symbol stores the lot that the fill rows make, at the average that
    was carried through the column. -/
def StoresAverage (symbol : String) (db : Database) (trades : List (Trade ℚ)) (lot : Lot ℚ) :
    Prop :=
  List.Forall₂ FillRecord.Records db.fills trades ∧ db.heldQuantity symbol = lot.quantity ∧
    Lot.Carried (roundTo 18) trades lot (db.averagePrice symbol)

/-- Empty tables store the empty lot. -/
theorem storesAverage_empty (symbol : String) :
    StoresAverage symbol Database.empty [] Lot.flat := ⟨.nil, rfl, .nil⟩

/-! ## One fill -/

/-- What applying a fill makes of the average, once it is stored. -/
theorem Position.apply_average {p q : Position} {f : Fill} {l : Lot ℚ} (h : p.apply f = .ok q)
    (hquantity : p.quantity = l.quantity) (hstored : p.averagePrice ∈ Grid ℚ 18) :
    ∃ m, l.after f.trade = some m ∧ q.quantity = m.quantity ∧
      roundTo 18 q.averagePrice = Lot.averageAfter (roundTo 18) l p.averagePrice f.trade := by
  obtain ⟨hsymbol, -, hmoved⟩ := apply_ok h
  unfold apply at h
  rw [if_neg (not_not.mpr hsymbol)] at h
  -- a buy takes the stored average into the new one, a sell keeps it or drops it
  cases hside : f.side with
  | buy =>
    rw [if_pos hside] at h
    obtain ⟨-, hq, haverage⟩ := validate_ok h
    rw [Fill.trade_of_buy hside]
    refine ⟨_, rfl, by rw [hq, hquantity]; rfl, ?_⟩
    rw [haverage, hquantity]
    rfl
  | sell =>
    have hsell : ¬f.side = .buy := by rw [hside]; decide
    rw [if_neg hsell] at h
    split at h
    next => cases h
    next hcovered =>
      obtain ⟨-, hq, haverage⟩ := validate_ok h
      have hle : f.deal.quantity ≤ l.quantity := hquantity ▸ not_lt.mp hcovered
      rw [Fill.trade_of_sell hside]
      refine ⟨l.sell f.deal hle, dif_pos hle, by rw [hq, hquantity]; rfl, ?_⟩
      have hcarried : Lot.averageAfter (roundTo 18) l p.averagePrice (.sell f.deal) =
          if l.quantity - f.quantity > 0 then p.averagePrice else 0 := rfl
      rw [haverage, hquantity, hcarried]
      split
      · exact roundTo_of_mem hstored
      · exact roundTo_of_mem (zero_mem _)

/-- The row of an exact fill records its trade. -/
theorem recordFill_records {f : Fill} (h : f.Exact) : (recordFill f).Records f.trade := by
  have hquantity : (recordFill f).quantity.toRat = f.quantity :=
    Numeric.toRat_ofRat_of_mem h.quantity
  have hprice : (recordFill f).price.toRat = f.price := Numeric.toRat_ofRat_of_mem h.price
  cases hside : f.side with
  | buy =>
    rw [Fill.trade_of_buy hside]
    exact ⟨hside, hquantity, hprice⟩
  | sell =>
    rw [Fill.trade_of_sell hside]
    exact ⟨hside, hquantity, hprice⟩

/-! ## One cycle -/

section Step

variable {c : TradingCycle} {x : SimulatedExchange} {db db' : Database} {p : Prepared}
  {s : Settlement} {sent : List OrderIntent} {trades : List (Trade ℚ)} {lot : Lot ℚ}

/-- A settlement on the simulator leaves the position alone, or applies one fill to it and
    saves it. -/
private theorem settled_fill (hx : c.SubmitsTo x) (hp : c.Prepares db p)
    (hs : c.Settles db p s sent) :
    (s.fills = [] ∧ s.write = none) ∨
      ∃ f, s.fills = [recordFill f] ∧ f.Exact ∧ p.account.position.apply f = .ok s.position ∧
        s.write = some (savePosition db s.position c.clock) := by
  have hexacts := hx.exact hp hs
  cases hs with
  | held => exact .inl ⟨rfl, rfl⟩
  | suppressed => exact .inl ⟨rfl, rfl⟩
  | @sent _ intent executed hintent hnew hsends =>
    right
    obtain ⟨submitClock, hsubmit⟩ := hx
    have hanswer := hsends.answered
    rw [hsubmit] at hanswer
    obtain ⟨-, -, f, hfills, -⟩ := SimulatedExchange.submit_ok hanswer
    obtain ⟨fees, hfold⟩ := hsends.folded
    have hrows : executed.fills = executed.execution.fills.map recordFill :=
      (congrArg Prod.snd hsends.recorded).symm
    -- the fold of one fill is the fill applied
    have happlied : p.account.position.apply f = .ok executed.position := by
      rw [applyExecution, hfills, List.foldlM_cons, LedgerUpdate.applyFill] at hfold
      cases happly : p.account.position.apply f with
      | error e => simp [happly, bind, Except.bind] at hfold
      | ok q =>
        simp only [happly, bind, Except.bind, List.foldlM_nil, pure, Except.pure,
          Except.ok.injEq, LedgerUpdate.mk.injEq] at hfold
        rw [hfold.2.1]
    refine ⟨f, by rw [TradingCycle.settle, hrows, hfills]; rfl, hexacts f ?_, happlied, rfl⟩
    simp [Settlement.filled, TradingCycle.settle, hfills]

/-- A run that saves its position stores the average of it, rounded to the column. -/
theorem averagePrice_of_saved (h : c.Commits db db' p s sent)
    (hsaved : s.write = some (savePosition db s.position c.clock)) :
    db'.averagePrice c.symbol = roundTo 18 s.position.averagePrice := by
  have hsymbol : s.position.symbol = c.symbol :=
    h.settled.moves.symbol.trans h.prepared.account_eq.2.1
  rw [Database.averagePrice_eq, h.tables, Transaction.applyTo_positions,
    Transaction.positionsAfter, TradingCycle.pending_position, hsaved]
  dsimp only
  rw [Database.savePosition_symbol, hsymbol, Function.update_self, ← hsymbol]
  exact db.averagePrice_savePosition s.position c.clock

/-- A committed cycle keeps the positions row. -/
theorem StoresAverage.step (hx : c.SubmitsTo x) (hdb : StoresAverage c.symbol db trades lot)
    (h : c.Commits db db' p s sent) :
    ∃ trades' lot', StoresAverage c.symbol db' trades' lot' := by
  obtain ⟨hrecords, hheld, hcarried⟩ := hdb
  have hfills : db'.fills = db.fills ++ s.fills := by
    rw [h.tables]
    rfl
  obtain ⟨-, hsym, hquantity, -⟩ := h.prepared.account_eq
  have hmoves := h.settled.moves
  have hheld' := h.heldQuantity
  rcases settled_fill hx h.prepared h.settled with
    ⟨hnone, hkept⟩ | ⟨f, hone, hexact, happly, hsaved⟩
  -- without a fill no row is touched
  · have hpositions : db'.positions = db.positions := by
      rw [h.tables, Transaction.applyTo_positions, Transaction.positionsAfter,
        TradingCycle.pending_position, hkept]
    refine ⟨trades, lot, ?_, ?_, ?_⟩
    · rwa [hfills, hnone, List.append_nil]
    · rwa [Database.heldQuantity, hpositions]
    · rwa [Database.averagePrice, hpositions]
  -- with one, the average was read from the column and is written back rounded
  · have haverage := Database.loadAccountState_averagePrice h.prepared.loaded
    obtain ⟨lot', hafter, hlot', hrounded⟩ := Position.apply_average happly
      (hquantity.trans hheld) (haverage ▸ db.averagePrice_mem c.symbol)
    have hstored := averagePrice_of_saved h hsaved
    have hmem : s.position.quantity ∈ Grid ℚ 18 :=
      hmoves.quantity_mem (hx.exact h.prepared h.settled)
        (hquantity ▸ db.heldQuantity_mem c.symbol)
    refine ⟨trades ++ [f.trade], lot', ?_, ?_, ?_⟩
    · rw [hfills, hone]
      exact List.rel_append hrecords (.cons (recordFill_records hexact) .nil)
    · rw [hheld', roundTo_of_mem hmem, hlot']
    · rw [hstored, hrounded, haverage]
      exact hcarried.snoc hafter

end Step

/-! ## Whole runs -/

/-- A price paid is that of a fill row, so the column holds it. -/
private theorem paid_mem {rows : List FillRecord} {trades : List (Trade ℚ)}
    (h : List.Forall₂ FillRecord.Records rows trades) {price : ℚ}
    (hpaid : price ∈ Lot.paid trades) : 0 < price ∧ price ∈ Grid ℚ 18 := by
  obtain ⟨d, hd, rfl⟩ := hpaid
  obtain ⟨row, -, -, -, hprice⟩ := h.exists_mem_left hd
  exact ⟨d.price_pos, hprice ▸ row.price.toRat_mem⟩

/-- Over any sequence of cycles of one symbol whose orders the simulated exchange fills, each of
    which commits or raises, the positions row holds what the fill rows add up to, at an average
    that is zero when nothing is held. Since the position was last closed, the average is off by
    at most half a unit of its column for each purchase, and never outside the prices paid. -/
theorem stored_average_near {symbol : String} {cycles : List TradingCycle} {db : Database}
    (hrun : Runs Attempted Database.empty cycles db)
    (hsim : ∀ c ∈ cycles, c.symbol = symbol ∧ ∃ x, c.SubmitsTo x) :
    ∃ trades lot, List.Forall₂ FillRecord.Records db.fills trades ∧
      Lot.flat.run trades = some lot ∧ db.heldQuantity symbol = lot.quantity ∧
      (db.averagePrice symbol = 0 ↔ db.heldQuantity symbol = 0) ∧
      ∀ since, Lot.SinceFlat trades since →
        |db.averagePrice symbol - lot.average| ≤ Lot.purchases since * (1 / 2 / 10 ^ 18) ∧
        (0 < db.heldQuantity symbol → ∃ lo hi, IsLeast (Lot.paid since) lo ∧
          IsGreatest (Lot.paid since) hi ∧ lo ≤ db.averagePrice symbol ∧
          db.averagePrice symbol ≤ hi) := by
  obtain ⟨trades, lot, hrecords, hheld, hcarried⟩ :
      ∃ trades lot, StoresAverage symbol db trades lot := by
    refine hrun.invariant (I := fun db => ∃ trades lot, StoresAverage symbol db trades lot)
      ⟨[], Lot.flat, storesAverage_empty symbol⟩ ?_
    rintro t c u hc ⟨trades, lot, hstores⟩ (hcommitted | rfl)
    · obtain ⟨rfl, x, hx⟩ := hsim c hc
      obtain ⟨p, s, sent, hcommits⟩ := hcommitted.commits
      exact hstores.step hx hcommits
    · exact ⟨trades, lot, hstores⟩
  -- prices paid are on the grid of the column, so rounding keeps the average between them
  have hrange : ∀ since, Lot.SinceFlat trades since → 0 < lot.quantity →
      ∃ lo hi, IsLeast (Lot.paid since) lo ∧ IsGreatest (Lot.paid since) hi ∧
        lo ≤ db.averagePrice symbol ∧ db.averagePrice symbol ≤ hi := by
    intro since hsince hpos
    obtain ⟨before, l, hsplit, hl, hflat⟩ := hsince
    have hsince_run : l.run since = some lot := by
      have hall := hcarried.run_eq
      rwa [hsplit, Lot.run_append, hl, Option.bind_some] at hall
    obtain ⟨lo, hi, hlo, hhi, -⟩ := Lot.run_average_mem hsince_run hflat hpos
    have hpaid : ∀ price ∈ Lot.paid since, price ∈ Lot.paid trades := by
      rintro price ⟨d, hd, rfl⟩
      exact ⟨d, hsplit ▸ List.mem_append_right _ hd, rfl⟩
    obtain ⟨hl', hh'⟩ := hcarried.mem_range (roundTo_mono 18)
      (roundTo_of_mem (paid_mem hrecords (hpaid lo hlo.1)).2)
      (roundTo_of_mem (paid_mem hrecords (hpaid hi hhi.1)).2) ⟨before, l, hsplit, hl, hflat⟩
      (fun price hprice => ⟨hlo.2 hprice, hhi.2 hprice⟩) hpos
    exact ⟨lo, hi, hlo, hhi, hl', hh'⟩
  refine ⟨trades, lot, hrecords, hcarried.run_eq, hheld, ⟨fun hzero => ?_, fun hnothing => ?_⟩,
    fun since hsince => ⟨?_, hheld ▸ hrange since hsince⟩⟩
  · -- the prices paid are positive
    by_contra hne
    have hpos : 0 < lot.quantity := lot.quantity_nonneg.lt_of_ne' (hheld ▸ hne)
    obtain ⟨lo, -, hlo, -, hle, -⟩ := hrange trades ⟨[], Lot.flat, rfl, rfl, rfl⟩ hpos
    exact (hle.trans_eq hzero).not_gt (paid_mem hrecords hlo.1).1
  · exact hcarried.eq_zero (hheld ▸ hnothing)
  · exact hcarried.abs_average_sub_le (abs_roundTo_sub_le 18) hsince

/-- Two purchases at different prices. -/
def twoBuys : List TradingCycle :=
  [simulatedCycle (flatMarket 100 10 5) (fixedStrategy .buy (1 / 10)) defaultLimits 10000 noon,
    simulatedCycle (flatMarket 110 10 5) (fixedStrategy .buy (1 / 5)) defaultLimits 10000
      (noon + 900000000)]

/-- An average that the column does not hold. -/
theorem stored_average_near_twoBuys : ∃ (db : Database) (lot : Lot ℚ),
    commitAll Database.empty twoBuys = some db ∧ 0 < lot.quantity ∧
      |db.averagePrice "BTC/USDT" - lot.average| ≤ 2 * (1 / 2 / 10 ^ 18) := by
  obtain ⟨db, hdb, hbought⟩ : ∃ db, commitAll Database.empty twoBuys = some db ∧
      db.fills.length = 2 ∧ 0 < db.heldQuantity "BTC/USDT" := by
    have hsome : (commitAll Database.empty twoBuys).any (fun db =>
        db.fills.length = 2 ∧ 0 < db.heldQuantity "BTC/USDT") = true := by
      decide +kernel
    simpa [Option.any_eq_true] using hsome
  have hsim : ∀ c ∈ twoBuys, c.symbol = "BTC/USDT" ∧ ∃ x, c.SubmitsTo x := by
    simp only [twoBuys, List.forall_mem_cons]
    exact ⟨⟨rfl, _, noon, rfl⟩, ⟨rfl, _, noon + 900000000, rfl⟩, List.forall_mem_nil _⟩
  obtain ⟨trades, lot, hrecords, -, hheld, -, hnear⟩ :=
    stored_average_near (attempted_of_committed (runs_of_commitAll hdb)) hsim
  -- two fills are at most two purchases
  have hcount : Lot.purchases trades ≤ 2 :=
    List.countP_le_length.trans_eq (hrecords.length_eq.symm.trans hbought.1)
  refine ⟨db, lot, hdb, hheld ▸ hbought.2, ?_⟩
  refine (hnear trades ⟨[], Lot.flat, rfl, rfl, rfl⟩).1.trans ?_
  have hcast : (Lot.purchases trades : ℚ) ≤ 2 := by exact_mod_cast hcount
  exact mul_le_mul_of_nonneg_right hcast (by norm_num)

end TradingBot
