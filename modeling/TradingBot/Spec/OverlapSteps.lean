import TradingBot.Overlap

/-!
# What one step of an overlapping run can do

The inversion of `advance`: one constructor for each thing that can happen to a run in each
of its phases. Results about interleavings split on it and never unfold the step.
-/

namespace TradingBot

namespace TradingCycle

/-- The steps of a run, with the rows found and the rows left. -/
inductive Advances (c : TradingCycle) (db : Database) : Phase → Phase → Database → Prop
  | prepared {p : Prepared} : c.Prepares db p → Advances c db .idle (.prepared p) db
  | unprepared {e : Error} : c.prepare db = .error e → Advances c db .idle (.failed e) db
  | held {p : Prepared} : p.decision.intent = none →
      Advances c db (.prepared p) (.settled p (.unchanged p.account false)) db
  | suppressed {p : Prepared} {i : OrderIntent} : p.decision.intent = some i →
      db.alreadyExecuted i.clientOrderId = true →
      Advances c db (.prepared p) (.settled p (.unchanged p.account true)) db
  | admitted {p : Prepared} {i : OrderIntent} : p.decision.intent = some i →
      db.alreadyExecuted i.clientOrderId = false →
      Advances c db (.prepared p) (.admitted p i) db
  | answered {p : Prepared} {i : OrderIntent} {x : Executed} : c.Sends p i x →
      Advances c db (.admitted p i) (.answered p x) db
  | unanswered {p : Prepared} {i : OrderIntent} {e : Error} : c.afterSubmit p i = .error e →
      Advances c db (.admitted p i) (.failed e) db
  | settled {p : Prepared} {x : Executed} :
      Advances c db (.answered p x) (.settled p (c.settle db x)) db
  | committed {p : Prepared} {s : Settlement} {r : CycleResult} {db' : Database} :
      c.finish p s db = .ok (r, db') → Advances c db (.settled p s) (.committed r) db'
  | aborted {p : Prepared} {s : Settlement} {e : Error} :
      c.finish p s db = .error e → Advances c db (.settled p s) (.failed e) db
  | ended {phase : Phase} : phase.Ended → Advances c db phase phase db

variable {c : TradingCycle} {db : Database} {phase : Phase}

/-- The relation lists every step. -/
theorem advances (c : TradingCycle) (db : Database) (phase : Phase) :
    c.Advances db phase (c.advance (phase, db)).1 (c.advance (phase, db)).2 := by
  -- the branches of `advance`, with what each of them found
  cases phase with
  | idle =>
    cases hprepare : c.prepare db with
    | error e =>
      simp only [advance, hprepare]
      exact .unprepared hprepare
    | ok p =>
      simp only [advance, hprepare]
      exact .prepared (prepare_ok.mp hprepare)
  | prepared p =>
    cases houtcome : p.decision.outcome with
    | hold =>
      simp only [advance, houtcome]
      exact .held (PolicyDecision.outcome_eq_hold_iff.mp houtcome)
    | submit =>
      obtain ⟨i, hi⟩ := PolicyDecision.exists_intent houtcome
      cases hknown : db.alreadyExecuted i.clientOrderId with
      | true =>
        simp only [advance, houtcome, hi, hknown, if_true]
        exact .suppressed hi hknown
      | false =>
        simp only [advance, houtcome, hi, hknown, Bool.false_eq_true, if_false]
        exact .admitted hi hknown
  | admitted p i =>
    cases hafter : c.afterSubmit p i with
    | error e =>
      simp only [advance, send_eval, hafter]
      exact .unanswered hafter
    | ok x =>
      simp only [advance, send_eval, hafter]
      exact .answered (afterSubmit_ok.mp hafter)
  | answered p x => exact .settled
  | settled p s =>
    rw [advance_settled]
    cases hfinish : c.finish p s db with
    | error e => exact .aborted hfinish
    | ok result => exact .committed hfinish
  | committed r => exact .ended trivial
  | failed e => exact .ended trivial

/-- The steps are what `advance` computes. -/
theorem Advances.eq {phase' : Phase} {db' : Database} (h : c.Advances db phase phase' db') :
    c.advance (phase, db) = (phase', db') := by
  cases h with
  | prepared hp => simp only [advance, prepare_ok.mpr hp]
  | unprepared he => simp only [advance, he]
  | @held p hnone => simp only [advance, PolicyDecision.outcome_eq_hold_iff.mpr hnone]
  | @suppressed p i hi hknown =>
    have houtcome := p.decision.intent_matches.mpr (by simp [hi])
    simp only [advance, houtcome, hi, hknown, if_true]
  | @admitted p i hi hnew =>
    have houtcome := p.decision.intent_matches.mpr (by simp [hi])
    simp only [advance, houtcome, hi, hnew, Bool.false_eq_true, if_false]
  | answered hsends => simp only [advance, send_eval, afterSubmit_ok.mpr hsends]
  | unanswered he => simp only [advance, send_eval, he]
  | settled => rfl
  | committed hfinish => rw [advance_settled, hfinish, ending]
  | aborted hfinish => rw [advance_settled, hfinish, ending]
  | ended hended =>
    cases phase with
    | committed r => rfl
    | failed e => rfl
    | _ => exact hended.elim

end TradingCycle

end TradingBot
