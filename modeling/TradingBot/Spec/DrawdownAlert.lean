import TradingBot.ForMathlib.Infix
import TradingBot.Spec.AuditTrail
import TradingBot.Spec.LossLimit

/-!
# What the drawdown alert says of the loss limit

The alert on the drawdown is there to say that the engine has stopped trading. The engine
compares an amount with the loss of the day, though, and the alert a fraction of the day's
opening equity, once it is read as a double. So the alert follows every refusal only where the
limit reads above that fraction, and where it does not, a day may be refused to its end in
silence. Of the reading it is only used that it is monotone.

## Key results

- `PolicyEngine.dailyLoss_mem_failedChecks_iff`: when a decision names the daily loss
- `Site.Tells`, `Site.Refuses`: the invariants of a day
- `Site.drawdown_alert_tells`: the alert over every sequence of processes of a day
-/

namespace TradingBot

open Database

/-! ## The check of the daily loss -/

/-- A decision carries the checks it was built with. -/
theorem PolicyDecision.validate_checks {outcome : DecisionOutcome} {reason : String}
    {checks : List RiskCheck} {intent : Option OrderIntent} {d : PolicyDecision}
    (h : validate outcome reason checks intent = .ok d) : d.checks = checks := by
  unfold validate at h
  split at h
  next =>
    split at h
    next => cases h; rfl
    next => cases h
  next => cases h

namespace PolicyEngine

/-- A decision whose record goes on from some checks, none of them about the daily loss. -/
def GoesOn (checks : List RiskCheck) (d : PolicyDecision) : Prop :=
  ∃ more, d.checks = checks ++ more ∧ ∀ check ∈ more, check.name ≠ .dailyLoss

variable {e : PolicyEngine} {signal : Signal} {account : AccountState} {markPrice : ℚ}
  {now : Instant} {cycleId : String} {checks : List RiskCheck} {killSwitchEngaged : Bool}
  {d : PolicyDecision}

/-- A record that goes on from more checks goes on from fewer, if the check between is not about
    the daily loss. -/
theorem GoesOn.of_concat {check : RiskCheck} (h : GoesOn (checks ++ [check]) d)
    (hname : check.name ≠ .dailyLoss) : GoesOn checks d := by
  obtain ⟨more, hchecks, hmore⟩ := h
  refine ⟨check :: more, by rw [hchecks, List.append_assoc]; rfl, ?_⟩
  rw [List.forall_mem_cons]
  exact ⟨hname, hmore⟩

/-- A hold ends the record where it is. -/
theorem goesOn_of_hold {reason : String} (h : hold checks reason = .ok d) : GoesOn checks d :=
  ⟨[], by rw [PolicyDecision.validate_checks h, List.append_nil], by simp⟩

/-- The last checks are about the size of the order. -/
private theorem goesOn_of_finalise {side : OrderSide} {quantity : ℚ}
    (h : e.finalise side signal quantity markPrice now cycleId checks = .ok d) :
    GoesOn checks d := by
  unfold finalise at h
  dsimp only at h
  split at h
  next => exact (goesOn_of_hold h).of_concat nofun
  next =>
    obtain ⟨intent, -, h⟩ := Except.bind_eq_ok.mp h
    exact ⟨_, PolicyDecision.validate_checks h, by simp⟩

/-- The checks of a buy are about the room for it. -/
private theorem goesOn_of_decideBuy
    (h : e.decideBuy signal account markPrice now cycleId checks = .ok d) : GoesOn checks d := by
  unfold decideBuy at h
  dsimp only at h
  split at h
  next => exact (goesOn_of_hold h).of_concat nofun
  next =>
    split at h
    next => exact ((goesOn_of_hold h).of_concat nofun).of_concat nofun
    next => exact ((goesOn_of_finalise h).of_concat nofun).of_concat nofun

/-- The check of a sell is about the position. -/
private theorem goesOn_of_decideSell
    (h : e.decideSell signal account markPrice now cycleId checks = .ok d) : GoesOn checks d := by
  unfold decideSell at h
  dsimp only at h
  split at h
  next => exact (goesOn_of_hold h).of_concat nofun
  next => exact (goesOn_of_finalise h).of_concat nofun

/-- A decision names the daily loss among its failed checks exactly when the loss has reached
    the limit and the kill switch is clear. -/
theorem dailyLoss_mem_failedChecks_iff
    (h : e.decide signal account markPrice killSwitchEngaged now cycleId = .ok d) :
    RiskCheckName.dailyLoss ∈ d.failedChecks.map (·.name) ↔
      killSwitchEngaged = false ∧ account.dailyPnlAt markPrice ≤ -e.limits.maxDailyLossQuote := by
  unfold decide at h
  cases killSwitchEngaged with
  | true =>
    rw [if_pos rfl] at h
    have hchecks := PolicyDecision.validate_checks h
    simp [PolicyDecision.failedChecks, hchecks]
  | false =>
    rw [if_neg Bool.false_ne_true] at h
    by_cases hloss : account.dailyPnlAt markPrice ≤ -e.limits.maxDailyLossQuote
    · rw [if_pos (decide_eq_true hloss)] at h
      have hchecks := PolicyDecision.validate_checks h
      simp [PolicyDecision.failedChecks, hchecks, hloss]
    · rw [if_neg (by simpa using hloss)] at h
      -- the check of the daily loss has passed, and nothing after it is about the loss
      obtain ⟨more, hchecks, hmore⟩ : GoesOn ([⟨.killSwitch, true, .killSwitchClear⟩] ++
          [⟨.dailyLoss, true, .dailyPnl (account.dailyPnlAt markPrice)
            e.limits.maxDailyLossQuote⟩]) d := by
        have hpassed : (!Decidable.decide (account.dailyPnlAt markPrice ≤
            -e.limits.maxDailyLossQuote)) = true := by simpa using hloss
        rw [hpassed] at h
        dsimp only at h
        split at h
        next => exact (goesOn_of_hold h).of_concat nofun
        next =>
          split at h
          next => exact (goesOn_of_decideBuy h).of_concat nofun
          next => exact (goesOn_of_decideSell h).of_concat nofun
      refine iff_of_false ?_ fun hboth => hloss hboth.2
      rw [PolicyDecision.failedChecks, hchecks]
      simp only [List.mem_map, List.mem_filter, List.mem_append, List.mem_singleton]
      rintro ⟨check, ⟨(rfl | rfl) | hcheck, hfailed⟩, hname⟩
      · cases hname
      · simp at hfailed
      · exact hmore check hcheck hname

end PolicyEngine

/-! ## The lines of a cycle -/

namespace LogEvent

/-- The line of a decision that names the loss of the day. -/
def refusesLoss : LogEvent → Bool
  | decision _ _ _ _ _ _ _ _ failedChecks => .dailyLoss ∈ failedChecks
  | _ => false

/-- The line of a decision that holds, for the kill switch or for the loss of the day. -/
def refuses : LogEvent → Bool
  | decision _ _ _ _ _ outcome _ killSwitchEngaged failedChecks =>
    outcome = .hold ∧ (killSwitchEngaged = true ∨ .dailyLoss ∈ failedChecks)
  | _ => false

/-- The lines that report a drawdown are those of completed cycles. -/
theorem message_eq_completed_iff {event : LogEvent} :
    event.message = "cycle.completed" ↔ ∃ drawdown, event.drawdown = some drawdown := by
  cases event <;> simp [message, drawdown]

end LogEvent

namespace TradingCycle

variable {c : TradingCycle} {db db' : Database} {p : Prepared} {s : Settlement}
  {sent : List OrderIntent} {event : LogEvent} {drawdown : ℚ}

/-- Acting on a decision neither takes one nor completes. -/
theorem of_mem_executeEvents (h : event ∈ c.executeEvents db p) :
    event.drawdown = none ∧ event.message ≠ "cycle.decision" ∧ event.refusesLoss = false := by
  obtain ⟨intent, -, rfl | ⟨x, rfl⟩⟩ := mem_executeEvents h
  · exact ⟨rfl, by simp [LogEvent.message], rfl⟩
  · exact ⟨rfl, by simp [LogEvent.message, executedEvent], rfl⟩

/-- What recording the equity reports. -/
theorem of_mem_concludeEvents (h : event ∈ c.concludeEvents p s) :
    ∃ equity, event = completedEvent p equity ∧
      equity.equityQuote = s.cash + s.position.notionalAt p.markPrice ∧
      equity.dayOpeningEquity = p.account.dayOpeningEquity := by
  obtain ⟨equity, htaken, rfl⟩ := mem_concludeEvents h
  obtain ⟨equity', hvalid, htaken⟩ := Except.bind_eq_ok.mp htaken
  obtain ⟨_, -, htaken⟩ := Except.bind_eq_ok.mp htaken
  obtain ⟨_, -, htaken⟩ := Except.bind_eq_ok.mp htaken
  cases htaken
  obtain ⟨-, -, -, -, -, hequity, hopening⟩ := EquitySnapshot.validate_ok hvalid
  exact ⟨equity, rfl, hequity, hopening⟩

/-- The fraction of the opening equity that is lost by the end of a cycle, or nothing. -/
def lostFraction (p : Prepared) (s : Settlement) : ℚ :=
  max 0 ((p.account.dayOpeningEquity - (s.cash + s.position.notionalAt p.markPrice)) /
    p.account.dayOpeningEquity)

/-- What is lost is at most the lost fraction of the opening equity. -/
theorem loss_le_lostFraction (p : Prepared) (s : Settlement) :
    p.account.dayOpeningEquity - (s.cash + s.position.notionalAt p.markPrice) ≤
      lostFraction p s * p.account.dayOpeningEquity :=
  (div_le_iff₀ p.account.dayOpeningEquity_pos).mp (le_max_right _ _)

/-- A drawdown that a cycle reports is that of the equity it settled with. -/
theorem exists_eq_lostFraction (h : event ∈ c.events db)
    (hevent : event.drawdown = some drawdown) :
    ∃ p s sent, c.Prepares db p ∧ c.Settles db p s sent ∧ drawdown = lostFraction p s := by
  obtain ⟨p, hp, rfl | h | ⟨s, sent, hs, h⟩⟩ := mem_events h
  · cases hevent
  · cases (of_mem_executeEvents h).1.symm.trans hevent
  · obtain ⟨equity, rfl, hequity, hopening⟩ := of_mem_concludeEvents h
    cases hevent
    refine ⟨p, s, sent, hp, hs, ?_⟩
    rw [EquitySnapshot.drawdownRatioIn_exact, equity.drawdownRatio_eq_max, hequity, hopening,
      lostFraction]

/-- The first line of a cycle is that of its decision. -/
theorem drawdown_of_mem_head (h : event ∈ (c.events db).head?) : event.drawdown = none := by
  unfold events at h
  split at h
  next => cases h
  next p _ =>
    cases h
    rfl

/-- A cycle that concludes reports the drawdown of the row it commits. -/
theorem Commits.exists_drawdown {r : CycleResult} (hcommits : c.Commits db db' p s sent)
    (houtcome : (c.outcome db).1 = .ok (r, db')) :
    ∃ event ∈ c.events db, event.drawdown = some (lostFraction p s) := by
  -- its report is one of its lines
  obtain ⟨row, -, -, -, -, hreported, -⟩ := events_of_outcome_ok houtcome
  have hsome : row.report ∈ completions (c.events db) := by simp [hreported]
  obtain ⟨event, hevent, hcompleted⟩ := List.mem_filterMap.mp hsome
  obtain ⟨drawdown, hdrawdown⟩ : ∃ drawdown, event.drawdown = some drawdown := by
    cases event <;> first | exact ⟨_, rfl⟩ | cases hcompleted
  obtain ⟨q, t, sent', hq, ht, rfl⟩ := exists_eq_lostFraction hevent hdrawdown
  -- a cycle prepares and settles in one way
  obtain rfl := hq.unique hcommits.prepared
  have hsame := (execute_ok.mpr ht).symm.trans (execute_ok.mpr hcommits.settled)
  cases hsame
  exact ⟨event, hevent, hdrawdown⟩

/-- The line of a decision is that of the prepared cycle. -/
theorem eq_decisionEvent (h : event ∈ c.events db) (hevent : event.message = "cycle.decision") :
    ∃ p, c.Prepares db p ∧ event = c.decisionEvent p := by
  obtain ⟨p, hp, rfl | h | ⟨s, sent, -, h⟩⟩ := mem_events h
  · exact ⟨p, hp, rfl⟩
  · exact absurd hevent (of_mem_executeEvents h).2.1
  · obtain ⟨equity, rfl, -⟩ := of_mem_concludeEvents h
    simp [completedEvent, LogEvent.message] at hevent

/-- A decision names the daily loss when the loss has reached the limit. -/
theorem Prepares.refusesLoss_iff (hp : c.Prepares db p) :
    (c.decisionEvent p).refusesLoss = true ↔
      c.killSwitch = false ∧
        p.account.dailyPnlAt p.markPrice ≤ -c.policy.limits.maxDailyLossQuote := by
  rw [← PolicyEngine.dailyLoss_mem_failedChecks_iff hp.decided]
  exact decide_eq_true_iff

/-- Without an intent the ledger is the one that was loaded. -/
theorem Settles.eq_account (hs : c.Settles db p s sent) (hnone : p.decision.intent = none) :
    s.cash = p.account.cashQuote ∧ s.position = p.account.position := by
  cases hs with
  | held => exact ⟨rfl, rfl⟩
  | suppressed => exact ⟨rfl, rfl⟩
  | sent hintent => cases hnone.symm.trans hintent

/-- A cycle that is refused for the loss of the day settles with a loss of the limit or
    more. -/
theorem le_loss_of_refusesLoss (hp : c.Prepares db p) (hs : c.Settles db p s sent)
    (hrefused : (c.decisionEvent p).refusesLoss = true) :
    c.policy.limits.maxDailyLossQuote ≤
      p.account.dayOpeningEquity - (s.cash + s.position.notionalAt p.markPrice) := by
  obtain ⟨-, hloss⟩ := hp.refusesLoss_iff.mp hrefused
  obtain ⟨hcash, hposition⟩ := hs.eq_account (hp.intent_eq_none hloss)
  rw [hcash, hposition]
  unfold AccountState.dailyPnlAt AccountState.equityAt at hloss
  linarith

end TradingCycle

/-! ## What a process leaves -/

/-- What settings and surroundings a cycle is built from. -/
theorem Settings.buildCycle_ok {settings : Settings} {around : Surroundings}
    {telemetry : Telemetry} {c : TradingCycle}
    (h : settings.buildCycle around telemetry = .ok c) :
    c.symbol = settings.symbol ∧ c.initialCashQuote = settings.initialCashQuote ∧
      c.policy.limits.maxDailyLossQuote = settings.maxDailyLossQuote ∧
      c.clock = around.clock := by
  obtain ⟨limits, hlimits, h⟩ := Except.bind_eq_ok.mp h
  obtain ⟨gateway, -, h⟩ := Except.bind_eq_ok.mp h
  obtain ⟨strategy, -, h⟩ := Except.bind_eq_ok.mp h
  cases h
  obtain ⟨_, rfl⟩ := validated_eq_ok_iff.mp hlimits
  exact ⟨rfl, rfl, rfl, rfl⟩

/-! ## A day that has opened -/

/-- A symbol has a snapshot since a midnight, and this is what its day opened with. -/
structure Database.DayOpened (db : Database) (symbol : String) (midnight : Instant) (opening : ℚ) :
    Prop where
  opened : ∃ r ∈ db.snapshotsFor symbol, midnight ≤ r.takenAt
  opening_eq : ∀ now fallback, dayStart now = midnight →
    db.dayOpeningEquity symbol now fallback = opening

/-- A process of a symbol on a day, that logs its decisions. -/
structure Invocation.WithinDay (i : Invocation) (symbol : String) (initial limit : ℚ)
    (midnight : Instant) : Prop where
  symbol_eq : i.settings.symbol = symbol
  initial_eq : i.settings.initialCashQuote = initial
  limit_eq : i.settings.maxDailyLossQuote = limit
  day : dayStart i.around.clock = midnight
  logs : i.logLevel.value ≤ LogLevel.info.value

section Day

variable {symbol : String} {initial limit opening : ℚ} {midnight : Instant}
  {db db' : Database} {c : TradingCycle} {p : Prepared} {s : Settlement}
  {sent : List OrderIntent} {i : Invocation}

/-- The cycle of a process on a day is one of that day. -/
theorem Invocation.WithinDay.cycle (hi : i.WithinDay symbol initial limit midnight)
    (hc : i.settings.buildCycle i.around i.telemetry.toTelemetry = .ok c) :
    c.WithinDay symbol initial limit midnight ∧
      c.policy.limits.maxDailyLossQuote = limit ∧ c.clock = i.around.clock := by
  obtain ⟨hsymbol, hinitial, hlimit, hclock⟩ := Settings.buildCycle_ok hc
  have hlimit := hlimit.trans hi.limit_eq
  exact ⟨⟨hsymbol.trans hi.symbol_eq, hinitial.trans hi.initial_eq, hclock ▸ hi.day, hlimit.le⟩,
    hlimit, hclock⟩

namespace Database.DayOpened

/-- A cycle of the day measures against its opening. -/
theorem opening_of_prepares (h : db.DayOpened symbol midnight opening)
    (hc : c.WithinDay symbol initial limit midnight) (hp : c.Prepares db p) :
    p.account.dayOpeningEquity = opening := by
  rw [hp.account_eq.2.2.2, hc.symbol_eq]
  exact h.opening_eq _ _ hc.day

/-- A later snapshot leaves the opening as it is. -/
theorem step (h : db.DayOpened symbol midnight opening) (hcommits : c.Commits db db' p s sent)
    (hnew : ∀ r ∈ db.equitySnapshots, r.takenAt < c.clock) :
    db'.DayOpened symbol midnight opening := by
  obtain ⟨r, hr, htoday⟩ := h.opened
  have hrows : db'.equitySnapshots = db.equitySnapshots ++ [c.snapshotRow p s] := by
    rw [hcommits.tables]
    rfl
  refine ⟨⟨r, ?_, htoday⟩, fun now fallback hday => ?_⟩
  · rw [snapshotsFor, hrows, List.filter_append]
    exact List.mem_append_left _ hr
  · rw [dayOpeningEquity_append hrows hr (hday ▸ htoday) hnew fallback fallback]
    exact h.opening_eq now fallback hday

end Database.DayOpened

end Day

/-! ## The alert over a day -/

namespace Site

/-- The console shows a cycle that was refused for the loss of the day and went on to
    complete. -/
def ShowsRefusal (console : List LogEvent) : Prop :=
  ∃ refusal completion, [refusal, completion] <:+: console ∧ refusal.refusesLoss = true ∧
    completion.message = "cycle.completed"

/-- The invariant rule for processes with strictly increasing clocks: when a process runs, its
    clock is newer than every snapshot there is. -/
theorem seen_invariant {P : Site → Prop} {db : Database} {calls : List (Invocation × Option ℕ)}
    {s : Site} (hrun : Runs Invokes ⟨db, []⟩ calls s)
    (hclock : calls.Pairwise (·.1.around.clock < ·.1.around.clock))
    (hlater : ∀ r ∈ db.equitySnapshots, ∀ call ∈ calls, r.takenAt < call.1.around.clock)
    (h0 : P ⟨db, []⟩)
    (hstep : ∀ t call u, call ∈ calls →
      (∀ r ∈ t.tables.equitySnapshots, r.takenAt < call.1.around.clock) → P t →
      t.Seen call.1 u → P u) : P s := by
  -- a snapshot was there at the start or was taken at the clock of an earlier process
  let Taken : List (Invocation × Option ℕ) → Site → Prop := fun before t =>
    ∀ r ∈ t.tables.equitySnapshots,
      r ∈ db.equitySnapshots ∨ ∃ call ∈ before, r.takenAt = call.1.around.clock
  have hinv : P s ∧ Taken calls s := by
    refine hrun.invariant_of_pairwise (P := fun before t => P t ∧ Taken before t) hclock
      ⟨h0, fun r hr => .inl hr⟩ ?_
    rintro before t call u hcall hnewer ⟨ht, htaken⟩ hinvokes
    have hnew : ∀ r ∈ t.tables.equitySnapshots, r.takenAt < call.1.around.clock := by
      intro r hr
      rcases htaken r hr with hr | ⟨k, hk, hrk⟩
      · exact hlater r hr call hcall
      · exact hrk ▸ hnewer k hk
    have hseen := hinvokes.seen
    refine ⟨hstep t call u hcall hnew ht hseen, fun r hr => ?_⟩
    have hkept : ∀ r ∈ t.tables.equitySnapshots, r ∈ db.equitySnapshots ∨
        ∃ call' ∈ before ++ [call], r.takenAt = call'.1.around.clock := fun r hr =>
      (htaken r hr).imp_right fun ⟨k, hk, hrk⟩ => ⟨k, List.mem_append_left _ hk, hrk⟩
    cases hseen with
    | idle => exact hkept r hr
    | stopped => exact hkept r hr
    | committed hcycle houtcome =>
      obtain ⟨p, s, hcommits, -⟩ := TradingCycle.outcome_ok (Prod.ext houtcome rfl)
      rw [hcommits.tables, Transaction.applyTo_equitySnapshots] at hr
      rcases List.mem_append.mp hr with hr | hr
      · exact hkept r hr
      · obtain rfl := List.mem_singleton.mp hr
        exact .inr ⟨call, by simp, (Settings.buildCycle_ok hcycle).2.2.2⟩
  exact hinv.1

section Lines

variable {console lines own last : List LogEvent} {refusal completion event : LogEvent}
  {drawdown : ℚ}

/-- Only the line of a decision refuses for the daily loss. -/
private theorem isRunEvent_of_refusesLoss (h : event.refusesLoss = true) :
    TradingCycle.IsRunEvent event := by
  cases event <;> trivial

/-- Only the line of a completed cycle has a drawdown. -/
private theorem isRunEvent_of_drawdown (h : event.drawdown = some drawdown) :
    TradingCycle.IsRunEvent event := by
  cases event <;> trivial

/-- A refusal and a completion that are neighbours are so in the lines of one cycle: a process
    neither starts with a completion nor ends with a decision of its own. -/
private theorem refusal_cases (hlines : lines <+: own)
    (hhead : ∀ event ∈ own.head?, event.drawdown = none)
    (hlast : ∀ event ∈ last, ¬TradingCycle.IsRunEvent event)
    (hpair : [refusal, completion] <:+: console ++ (lines ++ last))
    (hrefusal : refusal.refusesLoss = true) (hcompletion : completion.drawdown = some drawdown) :
    [refusal, completion] <:+: console ∨ refusal ∈ own ∧ completion ∈ own := by
  -- a line of a run is one of the cycle: failures and exits are none
  have hown : ∀ event ∈ lines ++ last, TradingCycle.IsRunEvent event → event ∈ own := by
    intro event hevent hrun
    rcases List.mem_append.mp hevent with hevent | hevent
    · exact hlines.subset hevent
    · exact absurd hrun (hlast event hevent)
  have hrefuses := isRunEvent_of_refusesLoss hrefusal
  have hcompletes := isRunEvent_of_drawdown hcompletion
  rcases List.pair_infix_append_iff.mp hpair with hconsole | hnew | ⟨-, hfirst⟩
  · exact .inl hconsole
  · exact .inr ⟨hown _ (hnew.subset (by simp)) hrefuses, hown _ (hnew.subset (by simp)) hcompletes⟩
  · -- the first new line would be a completion
    exfalso
    cases lines with
    | nil => exact hlast _ (hfirst.subset (by simp)) hcompletes
    | cons line lines =>
      obtain rfl : completion = line := (List.cons_prefix_cons.mp hfirst).1
      obtain ⟨rest, rfl⟩ := hlines
      cases (hhead completion (by simp)).symm.trans hcompletion

end Lines

section Step

variable {todouble : ℚ → ℚ} {symbol : String} {initial limit opening threshold cash : ℚ}
  {midnight : Instant} {start : Database} {t u : Site} {i : Invocation} {event : LogEvent}
  {drawdown : ℚ}

/-- The lines a process adds: some of its cycle's, from the first one on, and how it ended. -/
theorem Seen.lines (h : t.Seen i u) (hlevel : i.logLevel.value ≤ LogLevel.info.value) :
    ∃ own lines last, u.console = t.console ++ (lines ++ last) ∧ lines <+: own ∧
      (∀ event ∈ last, ¬TradingCycle.IsRunEvent event) ∧
      (own = [] ∨ ∃ c, i.settings.buildCycle i.around i.telemetry.toTelemetry = .ok c ∧
        own = c.events t.tables) := by
  -- the line of a failure is no line of a run
  have hfailures : ∀ event : LogEvent, event.isFailure = true →
      ¬TradingCycle.IsRunEvent event := by
    intro event hfailure hrun
    cases event <;> first | exact hrun | simp [LogEvent.isFailure, LogEvent.message] at hfailure
  cases h with
  | @idle last hlast =>
    exact ⟨[], [], last, by rw [emitted_of_le _ hlevel]; rfl, List.prefix_rfl,
      fun event h => hfailures event (hlast event h), .inl rfl⟩
  | @stopped c lines last hcycle hlines hlast =>
    exact ⟨_, lines, last, by rw [emitted_of_le _ hlevel], hlines,
      fun event h => hfailures event (hlast event h), .inr ⟨c, hcycle, rfl⟩⟩
  | @committed c r db last hcycle _ hlast =>
    refine ⟨_, _, last, by rw [emitted_of_le _ hlevel], List.prefix_rfl, ?_,
      .inr ⟨c, hcycle, rfl⟩⟩
    rcases hlast with rfl | rfl <;> simp [TradingCycle.IsRunEvent]

/-- The rows a process leaves: those it found, or those of its cycle, which it has reported. -/
theorem Seen.tables (h : t.Seen i u) (hlevel : i.logLevel.value ≤ LogLevel.info.value) :
    u.tables = t.tables ∨ ∃ c r, i.settings.buildCycle i.around i.telemetry.toTelemetry = .ok c ∧
      (c.outcome t.tables).1 = .ok (r, u.tables) ∧
      ∀ event ∈ c.events t.tables, event ∈ u.console := by
  cases h with
  | idle => exact .inl rfl
  | stopped => exact .inl rfl
  | @committed c r db last hcycle houtcome hlast =>
    refine .inr ⟨c, r, hcycle, houtcome, fun event h => ?_⟩
    rw [emitted_of_le _ hlevel]
    exact List.mem_append_right _ (List.mem_append_left _ h)

/-- The lines of a cycle that are new. -/
theorem Seen.mem_console (h : t.Seen i u) (hlevel : i.logLevel.value ≤ LogLevel.info.value)
    (hevent : event ∈ u.console) (hrun : TradingCycle.IsRunEvent event) :
    event ∈ t.console ∨ ∃ c, i.settings.buildCycle i.around i.telemetry.toTelemetry = .ok c ∧
      event ∈ c.events t.tables := by
  obtain ⟨own, lines, last, hconsole, hlines, hlast, hown⟩ := h.lines hlevel
  rw [hconsole, List.mem_append, List.mem_append] at hevent
  rcases hevent with hold | hevent | hevent
  · exact .inl hold
  · rcases hown with rfl | ⟨c, hcycle, rfl⟩
    · exact absurd (hlines.subset hevent) List.not_mem_nil
    · exact .inr ⟨c, hcycle, hlines.subset hevent⟩
  · exact absurd hrun (hlast event hevent)

/-- What the console tells of the losses of a day: a refusal whose cycle completes reads above
    the threshold if the limit does, and a row has lost no more than some drawdown. -/
structure Tells (todouble : ℚ → ℚ) (start : Database) (symbol : String) (midnight : Instant)
    (limit opening threshold : ℚ) (s : Site) : Prop where
  opened : s.tables.DayOpened symbol midnight opening
  refusals : threshold < todouble (limit / opening) → ∀ refusal completion drawdown,
    [refusal, completion] <:+: s.console → refusal.refusesLoss = true →
      completion.drawdown = some drawdown → threshold < todouble drawdown
  rows : ∃ rows, s.tables.equitySnapshots = start.equitySnapshots ++ rows ∧
    ∀ row ∈ rows, 0 < opening ∧ ∃ event ∈ s.console, ∃ drawdown,
      event.drawdown = some drawdown ∧
        opening - row.equityQuote.toRat ≤ drawdown * opening + 1 / 2 / 10 ^ 18

/-- A process of the day keeps the console in line with its losses. -/
theorem Tells.seen (ht : t.Tells todouble start symbol midnight limit opening threshold)
    (hreads : Monotone todouble) (hi : i.WithinDay symbol initial limit midnight)
    (hnew : ∀ r ∈ t.tables.equitySnapshots, r.takenAt < i.around.clock) (hseen : t.Seen i u) :
    u.Tells todouble start symbol midnight limit opening threshold := by
  have hkept : ∀ event ∈ t.console, event ∈ u.console := by
    obtain ⟨own, lines, last, hconsole, -⟩ := hseen.lines hi.logs
    intro event h
    rw [hconsole]
    exact List.mem_append_left _ h
  obtain ⟨rows, hrows, htold⟩ := ht.rows
  have holdRows : ∀ row ∈ rows, 0 < opening ∧ ∃ event ∈ u.console, ∃ drawdown,
      event.drawdown = some drawdown ∧
        opening - row.equityQuote.toRat ≤ drawdown * opening + 1 / 2 / 10 ^ 18 :=
    fun row hrow =>
      have ⟨hpos, event, hevent, drawdown, hboth⟩ := htold row hrow
      ⟨hpos, event, hkept event hevent, drawdown, hboth⟩
  have hrefusals : threshold < todouble (limit / opening) → ∀ refusal completion drawdown,
      [refusal, completion] <:+: u.console → refusal.refusesLoss = true →
        completion.drawdown = some drawdown → threshold < todouble drawdown := by
    intro habove refusal completion drawdown hpair hrefusal hcompletion
    obtain ⟨own, lines, last, hconsole, hlines, hlast, hown⟩ := hseen.lines hi.logs
    rw [hconsole] at hpair
    have hhead : ∀ event ∈ own.head?, event.drawdown = none := by
      rcases hown with rfl | ⟨c, -, rfl⟩
      · simp
      · exact fun event => TradingCycle.drawdown_of_mem_head
    rcases refusal_cases hlines hhead hlast hpair hrefusal hcompletion with hold | ⟨hr, hk⟩
    · exact ht.refusals habove refusal completion drawdown hold hrefusal hcompletion
    rcases hown with rfl | ⟨c, hcycle, rfl⟩
    · exact absurd hr List.not_mem_nil
    -- the decision and the completion are those of one cycle
    obtain ⟨p, s, sent, hp, hs, rfl⟩ := TradingCycle.exists_eq_lostFraction hk hcompletion
    obtain ⟨hday, hlimit, -⟩ := hi.cycle hcycle
    have hdecision : refusal.message = "cycle.decision" := by
      cases refusal <;> first | rfl | cases hrefusal
    obtain ⟨q, hq, rfl⟩ := TradingCycle.eq_decisionEvent hr hdecision
    obtain rfl := hq.unique hp
    have hloss := TradingCycle.le_loss_of_refusesLoss hq hs hrefusal
    have hopening := ht.opened.opening_of_prepares hday hq
    have hfraction : limit / opening ≤ TradingCycle.lostFraction q s := by
      rw [← hlimit, ← hopening, div_le_iff₀ q.account.dayOpeningEquity_pos]
      exact hloss.trans (TradingCycle.loss_le_lostFraction q s)
    exact habove.trans_le (hreads hfraction)
  rcases hseen.tables hi.logs with hsame | ⟨c, r, hcycle, houtcome, hreported⟩
  · exact ⟨hsame ▸ ht.opened, hrefusals, rows, hsame ▸ hrows, holdRows⟩
  · obtain ⟨p, s, hcommits, -⟩ := TradingCycle.outcome_ok (Prod.ext houtcome rfl)
    obtain ⟨hday, -, hclock⟩ := hi.cycle hcycle
    have hgrown : u.tables.equitySnapshots = t.tables.equitySnapshots ++ [c.snapshotRow p s] := by
      rw [hcommits.tables]
      rfl
    refine ⟨ht.opened.step hcommits (hclock ▸ hnew), hrefusals, rows ++ [c.snapshotRow p s],
      by rw [hgrown, hrows, List.append_assoc], ?_⟩
    rw [List.forall_mem_append, List.forall_mem_singleton]
    refine ⟨holdRows, ?_⟩
    obtain ⟨event, hevent, hdrawdown⟩ := hcommits.exists_drawdown houtcome
    have hopening := ht.opened.opening_of_prepares hday hcommits.prepared
    refine ⟨hopening ▸ p.account.dayOpeningEquity_pos, event, hreported event hevent, _,
      hdrawdown, ?_⟩
    have hloss := TradingCycle.loss_le_lostFraction p s
    rw [hopening] at hloss
    -- the row is off by what its column rounds
    have hstored := FixedPoint.abs_roundTo_sub_le 18
      (s.cash + s.position.notionalAt p.markPrice)
    rw [← Numeric.toRat_ofRat] at hstored
    have hlow := neg_le_of_abs_le hstored
    show opening - (Numeric.ofRat 18 (s.cash + s.position.notionalAt p.markPrice)).toRat ≤ _
    linarith

/-- The console of a day that is refused to its end: every decision is a refusal, no order is
    executed, and every drawdown is that of the cash. -/
structure Refuses (symbol : String) (initial limit : ℚ) (midnight : Instant)
    (opening cash : ℚ) (s : Site) : Prop where
  opened : s.tables.DayOpened symbol midnight opening
  tripped : Tripped symbol initial limit midnight s.tables
  cash_eq : s.tables.loadCash symbol initial = cash
  decisions : ∀ event ∈ s.console, event.message = "cycle.decision" → event.refuses = true
  executions : ∀ event ∈ s.console, event.message ≠ "cycle.executed"
  drawdowns : ∀ event ∈ s.console, ∀ drawdown, event.drawdown = some drawdown →
    drawdown = (opening - cash) / opening

/-- A process of the day is refused as well. -/
theorem Refuses.seen (ht : t.Refuses symbol initial limit midnight opening cash)
    (hi : i.WithinDay symbol initial limit midnight)
    (hnew : ∀ r ∈ t.tables.equitySnapshots, r.takenAt < i.around.clock) (hseen : t.Seen i u) :
    u.Refuses symbol initial limit midnight opening cash := by
  have hdecisions : ∀ event ∈ u.console, event.message = "cycle.decision" →
      event.refuses = true := by
    intro event hevent hdecision
    have hrun : TradingCycle.IsRunEvent event := by
      cases event <;> first | trivial | simp [LogEvent.message] at hdecision
    rcases hseen.mem_console hi.logs hevent hrun with hold | ⟨c, hcycle, hevent⟩
    · exact ht.decisions event hold hdecision
    obtain ⟨p, hp, rfl⟩ := TradingCycle.eq_decisionEvent hevent hdecision
    obtain ⟨hday, -⟩ := hi.cycle hcycle
    have hloss := ht.tripped.dailyPnlAt_le hday hp
    have hheld := PolicyDecision.outcome_eq_hold_iff.mpr (hp.intent_eq_none hloss)
    refine decide_eq_true ⟨hheld, ?_⟩
    cases hswitch : c.killSwitch with
    | true => exact .inl rfl
    | false =>
      exact .inr ((PolicyEngine.dailyLoss_mem_failedChecks_iff hp.decided).mpr ⟨hswitch, hloss⟩)
  have hexecutions : ∀ event ∈ u.console, event.message ≠ "cycle.executed" := by
    intro event hevent hexecuted
    have hrun : TradingCycle.IsRunEvent event := by
      cases event <;> first | trivial | simp [LogEvent.message] at hexecuted
    rcases hseen.mem_console hi.logs hevent hrun with hold | ⟨c, hcycle, hevent⟩
    · exact ht.executions event hold hexecuted
    obtain ⟨hday, -⟩ := hi.cycle hcycle
    obtain ⟨p, hp, rfl | hevent | ⟨s, sent, -, hevent⟩⟩ := TradingCycle.mem_events hevent
    · simp [TradingCycle.decisionEvent, LogEvent.message] at hexecuted
    · obtain ⟨intent, hintent, -⟩ := TradingCycle.mem_executeEvents hevent
      cases (ht.tripped.intent_eq_none hday hp).symm.trans hintent
    · obtain ⟨equity, -, rfl⟩ := TradingCycle.mem_concludeEvents hevent
      simp [TradingCycle.completedEvent, LogEvent.message] at hexecuted
  have hdrawdowns : ∀ event ∈ u.console, ∀ drawdown, event.drawdown = some drawdown →
      drawdown = (opening - cash) / opening := by
    intro event hevent drawdown hdrawdown
    have hrun := isRunEvent_of_drawdown hdrawdown
    rcases hseen.mem_console hi.logs hevent hrun with hold | ⟨c, hcycle, hevent⟩
    · exact ht.drawdowns event hold drawdown hdrawdown
    obtain ⟨hday, -⟩ := hi.cycle hcycle
    obtain ⟨p, s, sent, hp, hs, rfl⟩ := TradingCycle.exists_eq_lostFraction hevent hdrawdown
    have hloss := ht.tripped.dailyPnlAt_le hday hp
    obtain ⟨hcash, hposition⟩ := hs.eq_account (hp.intent_eq_none hloss)
    obtain ⟨hloaded, -, hheld, -⟩ := hp.account_eq
    -- nothing is held, so the equity is the cash
    have hequity : s.cash + s.position.notionalAt p.markPrice = cash := by
      rw [hcash, hposition, hloaded, Position.notionalAt, hheld, hday.symbol_eq, hday.initial_eq,
        ht.tripped.flat, ht.cash_eq, zero_mul, add_zero]
    have hopening := ht.opened.opening_of_prepares hday hp
    have hlost : 0 ≤ opening - cash := by
      unfold AccountState.dailyPnlAt AccountState.equityAt at hloss
      rw [← hcash, ← hposition, hequity, hopening] at hloss
      linarith [c.policy.limits.maxDailyLossQuote_pos]
    have hpos : 0 < opening := hopening ▸ p.account.dayOpeningEquity_pos
    rw [TradingCycle.lostFraction, hequity, hopening, max_eq_right (div_nonneg hlost hpos.le)]
  rcases hseen.tables hi.logs with hsame | ⟨c, r, hcycle, houtcome, -⟩
  · exact ⟨hsame ▸ ht.opened, hsame ▸ ht.tripped, hsame ▸ ht.cash_eq, hdecisions, hexecutions,
      hdrawdowns⟩
  · obtain ⟨p, s, hcommits, -⟩ := TradingCycle.outcome_ok (Prod.ext houtcome rfl)
    obtain ⟨hday, -, hclock⟩ := hi.cycle hcycle
    rw [← hclock] at hnew
    obtain ⟨htripped, hledger, -⟩ := ht.tripped.step hday hcommits hnew
    exact ⟨ht.opened.step hcommits hnew, htripped, (hledger.cash initial).trans ht.cash_eq,
      hdecisions, hexecutions, hdrawdowns⟩

end Step

/-- The drawdown alert and the loss limit. Over every sequence of processes of one symbol on a
    day that has opened, whatever raises in them and wherever they are killed: if the limit, as
    a fraction of the opening equity, reads above the threshold, the alert fires on every
    refusal whose cycle completes; while it is silent, no committed snapshot has lost a fraction
    that reads above the threshold. But a day whose limit was reached with the position closed
    goes on in refusals alone, and on these the alert fires only if the lost fraction reads
    above the threshold. -/
theorem drawdown_alert_tells {todouble : ℚ → ℚ} (hreads : Monotone todouble) {db : Database}
    {calls : List (Invocation × Option ℕ)} {s : Site} {symbol : String}
    {initial limit opening threshold : ℚ} {midnight : Instant}
    (hopened : db.DayOpened symbol midnight opening)
    (hcalls : ∀ call ∈ calls, call.1.WithinDay symbol initial limit midnight)
    (hclock : calls.Pairwise (·.1.around.clock < ·.1.around.clock))
    (hlater : ∀ r ∈ db.equitySnapshots, ∀ call ∈ calls, r.takenAt < call.1.around.clock)
    (hrun : Runs Invokes ⟨db, []⟩ calls s) :
    (threshold < todouble (limit / opening) → ShowsRefusal s.console →
      drawdownAlert todouble threshold s.console = true) ∧
      (drawdownAlert todouble threshold s.console = false → ∃ rows,
        s.tables.equitySnapshots = db.equitySnapshots ++ rows ∧ ∀ row ∈ rows, ∀ fraction,
          threshold < todouble fraction →
            opening - row.equityQuote.toRat ≤ fraction * opening + 1 / 2 / 10 ^ 18) ∧
      (Tripped symbol initial limit midnight db →
        (∀ event ∈ s.console, event.message = "cycle.decision" → event.refuses = true) ∧
        (∀ event ∈ s.console, event.message ≠ "cycle.executed") ∧
        (drawdownAlert todouble threshold s.console = true ↔
          threshold < todouble ((opening - db.loadCash symbol initial) / opening) ∧
            0 < completedCycles s.console)) := by
  have htells : s.Tells todouble db symbol midnight limit opening threshold := by
    refine seen_invariant hrun hclock hlater ⟨hopened, fun _ _ _ _ hpair => ?_, [], by simp⟩
      fun t call u hcall hnew ht hseen => ht.seen hreads (hcalls call hcall) hnew hseen
    simp at hpair
  refine ⟨fun habove hshows => ?_, fun hsilent => ?_, fun htripped => ?_⟩
  · obtain ⟨refusal, completion, hpair, hrefusal, hcompletion⟩ := hshows
    obtain ⟨drawdown, hdrawdown⟩ := LogEvent.message_eq_completed_iff.mp hcompletion
    exact (drawdownAlert_iff todouble).mpr ⟨completion, hpair.subset (by simp), drawdown,
      hdrawdown, htells.refusals habove refusal completion drawdown hpair hrefusal hdrawdown⟩
  · obtain ⟨rows, hrows, htold⟩ := htells.rows
    refine ⟨rows, hrows, fun row hrow fraction habove => ?_⟩
    obtain ⟨hpos, event, hevent, drawdown, hdrawdown, hbound⟩ := htold row hrow
    -- a drawdown of the fraction would have fired
    have hle : drawdown ≤ fraction := by
      by_contra hlt
      have hfires := (drawdownAlert_iff todouble).mpr ⟨event, hevent, drawdown, hdrawdown,
        habove.trans_le (hreads (not_le.mp hlt).le)⟩
      cases hsilent.symm.trans hfires
    exact hbound.trans (by gcongr)
  · have hrefuses : s.Refuses symbol initial limit midnight opening
        (db.loadCash symbol initial) :=
      seen_invariant hrun hclock hlater ⟨hopened, htripped, rfl, by simp, by simp, by simp⟩
        fun t call u hcall hnew ht hseen => ht.seen (hcalls call hcall) hnew hseen
    refine ⟨hrefuses.decisions, hrefuses.executions, ?_⟩
    rw [drawdownAlert_iff, completedCycles, List.countP_pos_iff]
    constructor
    · rintro ⟨event, hevent, drawdown, hdrawdown, hlt⟩
      exact ⟨hrefuses.drawdowns event hevent drawdown hdrawdown ▸ hlt, event, hevent,
        decide_eq_true (LogEvent.message_eq_completed_iff.mpr ⟨drawdown, hdrawdown⟩)⟩
    · rintro ⟨hlost, event, hevent, hcompleted⟩
      obtain ⟨drawdown, hdrawdown⟩ :=
        LogEvent.message_eq_completed_iff.mp (of_decide_eq_true hcompleted)
      exact ⟨event, hevent, drawdown, hdrawdown,
        (hrefuses.drawdowns event hevent drawdown hdrawdown).symm ▸ hlost⟩

end Site

/-- A process of the day that stands at 9800. -/
def lossyCall (clock : Instant) : Invocation :=
  ⟨shortSettings,
    { risingSurroundings with clock := clock, fetchClock := clock, submitClock := clock },
    nullExporter, .info⟩

/-- A process that is killed after its first line, and one that is not. -/
def lossyCalls : List (Invocation × Option ℕ) :=
  [(lossyCall noon, some 1), (lossyCall (noon + 900000000), none)]

/-- At the default limit of 100 and the default threshold of a twentieth, a loss of 200 of 10000
    is refused in silence; a threshold of a two-hundredth would have told. The decimals are read
    as the nearest doubles. -/
theorem drawdown_alert_tells_lossyDay :
    let s := lossyCalls.foldl Site.invoke ⟨lossyDay, []⟩
    s.console.map LogEvent.message =
        ["cycle.decision", "cycle.decision", "cycle.completed", "cycle.exit"] ∧
      drawdownAlert Python.float (Python.float (1 / 20)) s.console = false ∧
      drawdownAlert Python.float (Python.float (1 / 200)) s.console = true := by
  intro s
  have hmessages : s.console.map LogEvent.message =
      ["cycle.decision", "cycle.decision", "cycle.completed", "cycle.exit"] := by
    decide +kernel
  have hcompleted : 0 < completedCycles s.console := by decide +kernel
  have hcash : lossyDay.loadCash "BTC/USDT" 10000 = 9800 := by decide +kernel
  have hopened : lossyDay.DayOpened "BTC/USDT" (dayStart noon) 10000 :=
    ⟨lossyDay_tripped.opened, fun _ fallback hday => lossyDay_opening fallback hday⟩
  have hcalls : ∀ call ∈ lossyCalls,
      call.1.WithinDay "BTC/USDT" 10000 100 (dayStart noon) := by
    simp only [lossyCalls, List.forall_mem_cons]
    exact ⟨⟨rfl, rfl, rfl, rfl, le_rfl⟩, ⟨rfl, rfl, rfl, by decide, le_rfl⟩,
      List.forall_mem_nil _⟩
  have hlost : (10000 - lossyDay.loadCash "BTC/USDT" 10000) / 10000 = 1 / 50 := by
    rw [hcash]
    norm_num
  -- the alert compares the threshold with a fiftieth of the equity
  have halert : ∀ threshold : ℚ, drawdownAlert Python.float threshold s.console = true ↔
      threshold < Python.float (1 / 50) ∧ 0 < completedCycles s.console := fun threshold =>
    hlost ▸ ((Site.drawdown_alert_tells Python.float_mono hopened hcalls (by decide)
      (by decide +kernel) (Runs.foldl_eq.mpr rfl)).2.2 lossyDay_tripped).2.2
  refine ⟨hmessages, ?_, (halert _).mpr ⟨by decide +kernel, hcompleted⟩⟩
  rw [Bool.eq_false_iff, Ne, halert]
  exact fun habove => absurd habove.1 (by decide +kernel)

end TradingBot
