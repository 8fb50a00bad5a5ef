import TradingBot.Spec.CycleSteps

/-!
# Overlapping runs

Processes that run at the same time share the committed rows and nothing else. Under
READ COMMITTED every statement of a session sees what is committed when it executes, and
a commit is atomic. So a run is cut where it touches the database or the venue: it loads
the account, looks for an earlier order, submits, looks up the position, and commits.
Between two of its steps the others may do any of theirs. The statements of
`load_account_state` count as one step.
-/

namespace TradingBot

/-- How far a run has come. -/
inductive Phase where
  | idle
  /-- The account is loaded and the decision taken. -/
  | prepared (p : Prepared)
  /-- No earlier order was found. -/
  | admitted (p : Prepared) (intent : OrderIntent)
  /-- The venue has answered. -/
  | answered (p : Prepared) (x : Executed)
  /-- Everything is ready to be committed. -/
  | settled (p : Prepared) (s : Settlement)
  | committed (r : CycleResult)
  | failed (e : Error)

/-- A run that has ended takes no more steps. -/
def Phase.Ended : Phase → Prop
  | .committed _ | .failed _ => True
  | _ => False

namespace TradingCycle

/-- The next step of a run, on the rows committed so far. -/
def advance (c : TradingCycle) : Phase × Database → Phase × Database
  | (.idle, db) =>
    match c.prepare db with
    | .ok p => (.prepared p, db)
    | .error e => (.failed e, db)
  | (.prepared p, db) =>
    -- the rows may be newer than those the account was loaded from
    match p.decision.outcome, p.decision.intent with
    | .hold, _ => (.settled p (.unchanged p.account false), db)
    | .submit, none =>
      (.failed (.tradingBotError "a submit decision reached execution without an intent"), db)
    | .submit, some intent =>
      if db.alreadyExecuted intent.clientOrderId then
        (.settled p (.unchanged p.account true), db)
      else (.admitted p intent, db)
  | (.admitted p intent, db) =>
    -- the venue is asked without a look at the rows
    match (c.send p intent).eval [] with
    | (.ok x, _) => (.answered p x, db)
    | (.error e, _) => (.failed e, db)
  | (.answered p x, db) => (.settled p (c.settle db x), db)
  | (.settled p s, db) =>
    match c.conclude p s with
    | .ok (r, tx) =>
      match tx.commitSession db with
      | .ok db' => (.committed r, db')
      | .error e => (.failed e, db)
    | .error e => (.failed e, db)
  | (.committed r, db) => (.committed r, db)
  | (.failed e, db) => (.failed e, db)

/-- How a run has ended, and the rows it left. -/
def ending (db : Database) : Except Error (CycleResult × Database) → Phase × Database
  | .ok (r, db') => (.committed r, db')
  | .error e => (.failed e, db)

/-- A run that has ended stays as it is. -/
theorem iterate_advance_ending (c : TradingCycle) (db : Database)
    (x : Except Error (CycleResult × Database)) (n : ℕ) :
    c.advance^[n] (ending db x) = ending db x :=
  Function.iterate_fixed (by rcases x with _ | ⟨_, _⟩ <;> rfl) n

/-- The last step of a settled run is its end. -/
theorem advance_settled (c : TradingCycle) (db : Database) (p : Prepared) (s : Settlement) :
    c.advance (.settled p s, db) = ending db (c.finish p s db) := by
  unfold advance finish
  cases hconclude : c.conclude p s with
  | error e => simp [hconclude, bind, Except.bind, ending]
  | ok rtx =>
    cases hcommit : rtx.2.commitSession db <;>
      simp [hconclude, hcommit, bind, Except.bind, pure, Except.pure, ending]

/-- A run that is alone does what the job does: five steps are enough. -/
theorem advance_alone (c : TradingCycle) (db : Database) :
    c.advance^[5] (.idle, db) = ending db (c.outcome db).1 := by
  have hsettled : ∀ p s n, c.advance^[n + 1] (.settled p s, db) =
      ending db (c.finish p s db) := fun p s n => by
    rw [Function.iterate_succ_apply, advance_settled, iterate_advance_ending]
  -- step by step along the path the decision takes
  rw [outcome_fst, Function.iterate_succ_apply]
  cases hprepare : c.prepare db with
  | error e =>
    simp only [advance, hprepare]
    exact c.iterate_advance_ending db (.error e) 4
  | ok p =>
    simp only [advance, hprepare, bind, Except.bind]
    rw [Function.iterate_succ_apply]
    unfold execute
    cases houtcome : p.decision.outcome with
    | hold => simp only [advance, houtcome, hsettled, ExceptT.eval_pure]
    | submit =>
      obtain ⟨intent, hintent⟩ := PolicyDecision.exists_intent houtcome
      cases hknown : db.alreadyExecuted intent.clientOrderId with
      | true =>
        simp only [advance, houtcome, hintent, hknown, if_true, hsettled, ExceptT.eval_pure]
      | false =>
        simp only [advance, houtcome, hintent, hknown, Bool.false_eq_true, if_false]
        rw [Function.iterate_succ_apply]
        simp only [advance, ExceptT.eval_bind]
        rcases (c.send p intent).eval [] with ⟨e | x, sent⟩
        · exact c.iterate_advance_ending db (.error e) 2
        · simp only [ExceptT.eval_pure]
          rw [Function.iterate_succ_apply]
          simp only [advance]
          exact hsettled p (c.settle db x) 0

end TradingCycle

/-- Processes, each with the phase of its run, over shared tables. -/
structure Overlap (ι : Type) where
  tables : Database
  phase : ι → Phase

namespace Overlap

variable {ι : Type} [DecidableEq ι]

/-- Nobody has started. -/
def start (db : Database) : Overlap ι := ⟨db, fun _ => .idle⟩

/-- One process takes its next step. -/
def step (cycle : ι → TradingCycle) (o : Overlap ι) (i : ι) : Overlap ι where
  tables := ((cycle i).advance (o.phase i, o.tables)).2
  phase := Function.update o.phase i ((cycle i).advance (o.phase i, o.tables)).1

/-- One step of an interleaving. The labels of a run are its schedule: they say whose turn
    it was. -/
def Steps (cycle : ι → TradingCycle) (o : Overlap ι) (i : ι) (o' : Overlap ι) : Prop :=
  o' = o.step cycle i

end Overlap

end TradingBot
