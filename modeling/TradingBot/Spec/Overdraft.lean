import TradingBot.Spec.DecimalRounding
import TradingBot.Spec.Ledger
import TradingBot.Spec.Scenario

/-!
# When the cash stays nonnegative

The available-cash check caps a buy at the mark price, but the fill is charged at the
slipped price and with a fee. So the cash of a run stays nonnegative exactly when every
order it sends is covered: what the simulated exchange charges for it is no more than
the cash the cycle loaded, up to the half unit that the column rounds away. All of it is
computed with the 28 digits of the default context, in the engine, the simulator and the ledger.
-/

namespace TradingBot

open FixedPoint

/-! ## What an order costs -/

/-- The cash a context leaves after a fill: less the notional and the fee of a buy, plus the
    proceeds of a sell less its fee. -/
def cashAfterIn (A : DecimalContext) (cashQuote : ℚ) (side : OrderSide)
    (quantity price feeQuote : ℚ) : ℚ :=
  match side with
  | .buy => A.sub cashQuote (A.add (A.mul quantity price) feeQuote)
  | .sell => A.add cashQuote (A.sub (A.mul quantity price) feeQuote)

/-- Folding a single fill leaves that cash. -/
theorem applyExecutionIn_cash {A : DecimalContext} {cash : ℚ} {position : Position}
    {execution : OrderExecution} {f : Fill} {update : LedgerUpdate}
    (hfills : execution.fills = [f])
    (h : applyExecutionIn A cash position execution = .ok update) :
    update.cashQuote = cashAfterIn A cash f.side f.quantity f.price f.feeQuote := by
  unfold applyExecutionIn at h
  rw [hfills, List.foldlM_cons] at h
  obtain ⟨u, hfill, h⟩ := Except.bind_eq_ok.mp h
  cases h
  obtain ⟨q, -, hfill⟩ := Except.bind_eq_ok.mp hfill
  cases hfill
  unfold cashAfterIn Fill.notionalIn
  cases f.side <;> rfl

/-- Half a unit of the last digit of a stored amount. -/
def halfUnit : ℚ := 1 / 2 / 10 ^ 18

namespace TradingCycle

/-- An order the engine decides on for the loaded account, and that is not known yet, is
    charged no more than the cash that was loaded, up to half a unit. -/
def Covered (c : TradingCycle) (db : Database) : Prop :=
  ∀ x p intent price feeQuote, c.SubmitsTo x .default → c.Prepares db p .default →
    p.decision.intent = some intent → db.alreadyExecuted intent.clientOrderId = false →
    x.fillPriceIn .default intent.side intent.referencePrice = .ok price →
    x.feeIn .default intent.quantity price = .ok feeQuote →
    -halfUnit <
      cashAfterIn .default p.account.cashQuote intent.side intent.quantity price feeQuote

variable {c : TradingCycle} {x : SimulatedExchange} {db db' : Database} {p : Prepared}
  {s : Settlement} {sent : List OrderIntent}

/-- A settlement on the simulator leaves the loaded cash, or what its order leaves of it. -/
private theorem cash_after (hx : c.SubmitsTo x .default)
    (hs : c.Settles db p s sent .default) :
    (s.cash = p.account.cashQuote ∧
        ∀ i, p.decision.intent = some i → db.alreadyExecuted i.clientOrderId = true) ∨
      ∃ i price feeQuote, p.decision.intent = some i ∧
        db.alreadyExecuted i.clientOrderId = false ∧
        x.fillPriceIn .default i.side i.referencePrice = .ok price ∧
        x.feeIn .default i.quantity price = .ok feeQuote ∧
        s.cash = cashAfterIn .default p.account.cashQuote i.side i.quantity price feeQuote := by
  cases hs with
  | held hnone => exact .inl ⟨rfl, by simp [hnone]⟩
  | @suppressed _ intent hintent hknown =>
    refine .inl ⟨rfl, fun i hi => ?_⟩
    cases hintent.symm.trans hi
    exact hknown
  -- the fill is the one the simulator makes, so the cash is what the fold leaves
  | @sent _ intent executed hintent hnew hsends =>
    obtain ⟨submitClock, hsubmit⟩ := hx
    have hanswer := hsends.answered
    rw [hsubmit] at hanswer
    obtain ⟨-, -, f, hfills, -, -, hside, hquantity, hprice, hfee⟩ :=
      SimulatedExchange.submit_okIn hanswer
    obtain ⟨fees, hfold⟩ := hsends.foldedIn
    have hcash := applyExecutionIn_cash hfills hfold
    rw [hside, hquantity] at hcash
    exact .inr ⟨intent, f.price, f.feeQuote, hintent, hnew, hprice, hfee, hcash⟩

/-- From nonnegative cash, a cycle writes nonnegative cash exactly when it is covered. -/
private theorem row_nonneg_iff (hx : c.SubmitsTo x .default)
    (h : c.Commits db db' p s sent .default) (hcash : 0 ≤ p.account.cashQuote) :
    0 ≤ (c.snapshotRow p s .default).cashQuote.toRat ↔ c.Covered db := by
  have hstored : 0 ≤ (c.snapshotRow p s .default).cashQuote.toRat ↔ -halfUnit < s.cash := by
    change 0 ≤ roundTo 18 s.cash ↔ _
    rw [roundTo_nonneg_iff, halfUnit, neg_div]
  rw [hstored]
  constructor
  · intro hrow y q intent price feeQuote hy hq hintent hnew hprice hfee
    cases hq.unique h.prepared
    rcases cash_after hy h.settled with ⟨-, hknown⟩ | ⟨j, price', fee', hj, -, hprice', hfee',
      hafter⟩
    · simp [hknown intent hintent] at hnew
    · -- the order it settled is the one it decided on
      cases hj.symm.trans hintent
      cases hprice.symm.trans hprice'
      cases hfee.symm.trans hfee'
      exact hafter ▸ hrow
  · -- a cycle that sends nothing writes back the cash it loaded
    intro hcovered
    rcases cash_after hx h.settled with ⟨hsame, -⟩ | ⟨i, price, feeQuote, hi, hnew, hprice, hfee,
      hafter⟩
    · have hunit : 0 < halfUnit := by norm_num [halfUnit]
      rw [hsame]
      linarith
    · exact hafter ▸ hcovered x p i price feeQuote hx h.prepared hi hnew hprice hfee

end TradingCycle

/-! ## Whole runs -/

/-- No stored cash is negative. -/
def Solvent (db : Database) : Prop := ∀ row ∈ db.equitySnapshots, 0 ≤ row.cashQuote.toRat

instance (db : Database) : Decidable (Solvent db) :=
  inferInstanceAs (Decidable (∀ row ∈ db.equitySnapshots, 0 ≤ row.cashQuote.toRat))

/-- What is loaded from a solvent database is nonnegative. -/
private theorem loadCash_nonneg {db : Database} (hdb : Solvent db) {symbol : String}
    {initial : ℚ} (hinitial : 0 < initial) : 0 ≤ db.loadCash symbol initial := by
  unfold Database.loadCash
  cases hlatest : db.latestSnapshotFor symbol with
  | none => exact hinitial.le
  | some row =>
    exact hdb row (List.mem_filter.mp (List.argmax_mem hlatest)).1

/-- The bot spends no cash it does not have exactly in the runs whose orders are covered. -/
theorem solvent_iff_covered {cycles : List TradingCycle} {db : Database}
    (hrun : Runs (fun db c db' => Attempted db c db' .default) Database.empty cycles db)
    (hinitial : ∀ c ∈ cycles, 0 < c.initialCashQuote)
    (hsubmits : ∀ c ∈ cycles, ∃ x, c.SubmitsTo x .default) :
    Solvent db ↔
      Runs (fun db c db' => Attempted db c db' .default ∧
          (Committed db c db' .default → c.Covered db))
        Database.empty cycles db := by
  refine hrun.keeps_iff (I := fun _ => True) trivial nofun (fun _ _ _ _ _ _ => trivial) ?_ ?_
  · intro t c u hc _ ht hstep
    obtain ⟨x, hx⟩ := hsubmits c hc
    -- the rows of before are not negative, so the new row decides
    have hcommitted : Committed t c u .default → (Solvent u ↔ c.Covered t) := by
      intro hcommitted
      obtain ⟨p, s, sent, h⟩ := hcommitted.commits
      have hloaded := h.prepared.loaded_eq.1
      rw [← TradingCycle.row_nonneg_iff hx h (hloaded ▸ loadCash_nonneg ht (hinitial c hc)),
        Solvent, h.tables]
      simp only [Transaction.applyTo_equitySnapshots, TradingCycle.pending_equity,
        List.forall_mem_append, List.forall_mem_singleton]
      exact and_iff_right ht
    rcases hstep with hstep | rfl
    · rw [hcommitted hstep]
      exact ⟨fun hcov _ => hcov, fun hcov => hcov hstep⟩
    · exact iff_of_true ht fun hstep => (hcommitted hstep).mp ht
  · -- rows are never taken back
    rintro t c u - - (hstep | rfl) hu
    · obtain ⟨p, s, sent, h⟩ := hstep.commits
      intro row hrow
      refine hu row ?_
      rw [h.tables, Transaction.applyTo_equitySnapshots]
      exact List.mem_append_left _ hrow
    · exact hu

/-- A buy of five units at noon and a sale of all of them one bar later, in the default
    context. -/
def soldBack : List TradingCycle :=
  let market := flatMarket 100 10 5
  [simulatedCycle market (fixedStrategy .buy (1 / 2)) defaultLimits 10000 noon .default,
    simulatedCycle market (fixedStrategy .sell 1) defaultLimits 10000 (noon + 900000000) .default]

/-- A buy that is covered and sold again. -/
theorem solvent_iff_covered_soldBack : ∃ db, commitAll Database.empty soldBack .default = some db ∧
    Runs (fun db c db' => Attempted db c db' .default ∧
        (Committed db c db' .default → c.Covered db))
      Database.empty soldBack db := by
  obtain ⟨db, hdb, hsolvent⟩ : ∃ db, commitAll Database.empty soldBack .default = some db ∧
      Solvent db := by
    have hsome : (commitAll Database.empty soldBack .default).any (Solvent ·) = true := by
      decide +kernel
    simpa [Option.any_eq_true] using hsome
  have hrun := attempted_of_committed (runs_of_commitAll hdb)
  have hsubmits : ∀ c ∈ soldBack, ∃ x, c.SubmitsTo x .default := by
    simp only [soldBack, List.forall_mem_cons]
    exact ⟨⟨_, _, rfl⟩, ⟨_, _, rfl⟩, List.forall_mem_nil _⟩
  exact ⟨db, hdb, (solvent_iff_covered hrun (by decide +kernel) hsubmits).mp hsolvent⟩

/-- A single buy with all of the cash, at the default costs: 10 units at 100.05 and a fee
    of 1.00, out of 1000. -/
def overspend : List TradingCycle :=
  [simulatedCycle (flatMarket 100 10 5) (fixedStrategy .buy 1) wideLimits 1000 noon .default]

/-- The cash check passes, and the account is overdrawn by 1.50. -/
theorem overspend_overdraws : ∃ db, commitAll Database.empty overspend .default = some db ∧
    (db.equitySnapshots.map fun row => row.cashQuote.toRat) = [-3 / 2] ∧ ¬Solvent db := by
  have hsome : (commitAll Database.empty overspend .default).any (fun db =>
      (db.equitySnapshots.map fun row => row.cashQuote.toRat) = [-3 / 2] ∧ ¬Solvent db) = true := by
    decide +kernel
  simpa [Option.any_eq_true] using hsome

end TradingBot
