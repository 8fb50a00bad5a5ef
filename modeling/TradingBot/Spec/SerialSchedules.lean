import TradingBot.Spec.FleetIsolation

/-!
# Schedules that run one process at a time

The sequential model tries one run of the job after another. A schedule of interleaved steps
comes down to it wherever the processes of a symbol take their turns one process after the
other: each block of turns is one attempt, which dies where its last turn left it. What is
known of sequences of attempts therefore holds of every symbol whose processes do not overlap,
whatever those of the other symbols do meanwhile.

## Key results

- `Reached.attempt`: what a block of turns comes to
- `Fleet.blocks_are_tries`: blocks are attempts
- `Fleet.serial_symbol_is_sequential`: the result for one symbol of an interleaving
-/

namespace TradingBot

/-- The attempt, if it dies at a point. -/
def Attempt.dying (a : Attempt) (point : Option CrashPoint) : Attempt := { a with diesAt := point }

namespace Market

variable {m : Market} {a : Attempt} {p : Prepared} {i : OrderIntent}

/-- A run whose order is known sends nothing, and leaves the book of the venue alone. -/
private theorem bookAfter_of_known (hp : (a.cycleAt m.book).Prepares m.tables p)
    (hknown : ∀ i, p.decision.intent = some i →
      m.tables.alreadyExecuted i.clientOrderId = true) : m.bookAfter a = m.book := by
  have hsent : (m.outcome a).2 = [] := by
    rcases (a.cycleAt m.book).outcome_sent m.tables with ⟨-, hnone⟩ | ⟨q, i, hq, hi, hnew, -⟩
    · exact hnone
    · cases hq.unique hp
      exact absurd (hknown i hi) (by simp [hnew])
  rw [bookAfter, hsent]
  rfl

/-- A run with a new order leaves the book as the order does. -/
private theorem bookAfter_of_new (hp : (a.cycleAt m.book).Prepares m.tables p)
    (hi : p.decision.intent = some i) (hnew : m.tables.alreadyExecuted i.clientOrderId = false) :
    m.bookAfter a = a.bookAfter m.book (CcxtSandboxExchange.request i) := by
  have hsent : (m.outcome a).2 = [i] := by
    rcases (a.cycleAt m.book).outcome_sent m.tables with ⟨hknown, -⟩ | ⟨q, j, hq, hj, -, hone⟩
    · exact absurd (hknown p i hp hi) (by simp [hnew])
    · cases hq.unique hp
      cases hj.symm.trans hi
      exact hone
  rw [bookAfter, hsent]
  rfl

/-- A run that prepares, settles and commits has come to what the job comes to. -/
private theorem outcome_of_finish {s : Settlement} {sent : List OrderIntent} {r : CycleResult}
    {db : Database} (hp : (a.cycleAt m.book).Prepares m.tables p)
    (hs : (a.cycleAt m.book).Settles m.tables p s sent)
    (hfinish : (a.cycleAt m.book).finish p s m.tables = .ok (r, db)) :
    (m.outcome a).1 = .ok (r, db) := by
  rw [outcome, TradingCycle.outcome_fst, TradingCycle.prepare_ok.mpr hp]
  simp only [bind, Except.bind, TradingCycle.execute_ok.mpr hs]
  exact hfinish

end Market

/-- Attempts in a row run their cycles, each in front of the venue as it was then. -/
theorem Market.attempted_of_tries {m m' : Market} {tries : List Attempt}
    (h : Runs Market.Tries m tries m') :
    ∃ cycles, List.Forall₂ (fun a c => ∃ book, c = a.cycleAt book) tries cycles ∧
      Runs Attempted m.tables cycles m'.tables := by
  induction h with
  | nil => exact ⟨[], .nil, .nil⟩
  | @snoc tries t u a _ htry ih =>
    obtain ⟨cycles, hcycles, hrun⟩ := ih
    obtain rfl : u = t.attempt a := htry
    refine ⟨cycles ++ [a.cycleAt t.book], List.rel_append hcycles (.cons ⟨_, rfl⟩ .nil),
      hrun.snoc ?_⟩
    rcases t.attempt_cases a with ⟨-, hsame⟩ | ⟨-, ⟨-, hsame⟩ | ⟨-, r, db, hok, hsame⟩⟩
    · exact .inr (by rw [hsame])
    · exact .inr (by rw [hsame])
    · rw [hsame]
      exact .inl ⟨r, _, Prod.ext hok rfl⟩

/-! ## One block of turns -/

/-- What a run that is alone has done to the market by each of its phases. -/
inductive Reached (m : Market) (a : Attempt) : Phase → Market → Prop
  | idle : Reached m a .idle m
  | prepared {p : Prepared} : (a.cycleAt m.book).Prepares m.tables p →
      Reached m a (.prepared p) m
  | admitted {p : Prepared} {i : OrderIntent} : (a.cycleAt m.book).Prepares m.tables p →
      p.decision.intent = some i → m.tables.alreadyExecuted i.clientOrderId = false →
      Reached m a (.admitted p i) m
  | answered {p : Prepared} {i : OrderIntent} {x : Executed} :
      (a.cycleAt m.book).Prepares m.tables p → p.decision.intent = some i →
      m.tables.alreadyExecuted i.clientOrderId = false → (a.cycleAt m.book).Sends p i x →
      Reached m a (.answered p x) ⟨m.tables, m.bookAfter a⟩
  | settled {p : Prepared} {s : Settlement} {sent : List OrderIntent} :
      (a.cycleAt m.book).Prepares m.tables p → (a.cycleAt m.book).Settles m.tables p s sent →
      Reached m a (.settled p s) ⟨m.tables, m.bookAfter a⟩
  | committed {r : CycleResult} {db : Database} : (m.outcome a).1 = .ok (r, db) →
      Reached m a (.committed r) ⟨db, m.bookAfter a⟩
  | failed {e : Error} {book : List VenueOrder} : book = m.book ∨ book = m.bookAfter a →
      Reached m a (.failed e) ⟨m.tables, book⟩

namespace Reached

variable {m m' : Market} {a : Attempt} {phase : Phase}

/-- Whatever a block of turns has reached is what an attempt leaves that dies there. -/
theorem attempt (h : Reached m a phase m') : ∃ point, m' = m.attempt (a.dying point) := by
  cases h with
  | idle | prepared | admitted => exact ⟨some .beforeSubmit, rfl⟩
  | answered | settled => exact ⟨some .beforeCommit, rfl⟩
  | @committed r db houtcome =>
    have hsame : (m.outcome (a.dying none)).1 = .ok (r, db) := houtcome
    refine ⟨none, ?_⟩
    rw [Market.attempt, hsame]
    rfl
  | failed hbook =>
    rcases hbook with rfl | rfl
    · exact ⟨some .beforeSubmit, rfl⟩
    · exact ⟨some .beforeCommit, rfl⟩

/-- A killed run leaves the market as it was. -/
theorem kill (h : Reached m a phase m') : Reached m a phase.kill m' := by
  cases h with
  | idle | prepared | admitted => exact .failed (.inl rfl)
  | answered | settled => exact .failed (.inr rfl)
  | committed houtcome => exact .committed houtcome
  | failed hbook => exact .failed hbook

/-- A step of the run reaches its next phase. -/
theorem step (h : Reached m a phase m') :
    Reached m a ((a.cycleAt m'.book).advance (phase, m'.tables)).1
      ⟨((a.cycleAt m'.book).advance (phase, m'.tables)).2, a.bookAfterStep m'.book phase⟩ := by
  have hstep := TradingCycle.advances (a.cycleAt m'.book) m'.tables phase
  generalize (a.cycleAt m'.book).advance (phase, m'.tables) = after at hstep ⊢
  obtain ⟨phase', tables⟩ := after
  dsimp only at hstep ⊢
  -- in each phase the run takes the step its cycle would have taken, on the same market
  cases h with
  | idle =>
    cases hstep with
    | prepared hp => exact .prepared hp
    | unprepared _ => exact .failed (.inl rfl)
    | ended hended => exact hended.elim
  | prepared hp =>
    cases hstep with
    | held hnone =>
      have hbook := Market.bookAfter_of_known hp (by simp [hnone])
      have hsettled := Reached.settled hp (.held hnone)
      rwa [hbook] at hsettled
    | suppressed hi hknown =>
      have hbook := Market.bookAfter_of_known hp fun j hj => by
        cases hj.symm.trans hi
        exact hknown
      have hsettled := Reached.settled hp (.suppressed hi hknown)
      rwa [hbook] at hsettled
    | admitted hi hnew => exact .admitted hp hi hnew
    | ended hended => exact hended.elim
  -- the book only changes when the order reaches the venue
  | admitted hp hi hnew =>
    have hbook := Market.bookAfter_of_new hp hi hnew
    cases hstep with
    | answered hsends =>
      have hanswered := Reached.answered hp hi hnew hsends
      rwa [hbook] at hanswered
    | unanswered _ => exact .failed (.inr hbook.symm)
    | ended hended => exact hended.elim
  | answered hp hi hnew hsends =>
    cases hstep with
    | settled => exact .settled hp (.sent hi hnew hsends)
    | ended hended => exact hended.elim
  | settled hp hs =>
    cases hstep with
    | committed hfinish => exact .committed (Market.outcome_of_finish hp hs hfinish)
    | aborted _ => exact .failed (.inr rfl)
    | ended hended => exact hended.elim
  | committed houtcome =>
    cases hstep with
    | ended => exact .committed houtcome
  | failed hbook =>
    cases hstep with
    | ended => exact .failed hbook

end Reached

/-! ## Blocks of turns -/

namespace Fleet

variable {ι : Type} [DecidableEq ι] {attempt : ι → Attempt} {f f' : Fleet ι} {i : ι}

/-- Turns in blocks, each of one process and no process in two of them. -/
structure Blocks (blocks : List (ι × List (Turn ι))) : Prop where
  own : ∀ b ∈ blocks, ∀ t ∈ b.2, t.process = b.1
  once : (blocks.map Prod.fst).Nodup

/-- The market a fleet acts on. -/
def market (f : Fleet ι) : Market := ⟨f.tables, f.book⟩

/-- A turn of a process takes its run on and leaves the others where they are. -/
private theorem reached_turn {m : Market} (h : Reached m (attempt i) (f.phase i) f.market)
    {t : Turn ι} (ht : t.process = i) :
    Reached m (attempt i) ((f.turn attempt t).phase i) (f.turn attempt t).market ∧
      ∀ j, j ≠ i → (f.turn attempt t).phase j = f.phase j := by
  subst ht
  cases t with
  | step i =>
    refine ⟨?_, fun j hj => Function.update_of_ne hj _ _⟩
    show Reached m (attempt i) (Function.update f.phase i _ i) _
    rw [Function.update_self]
    exact h.step
  | kill i =>
    refine ⟨?_, fun j hj => Function.update_of_ne hj _ _⟩
    show Reached m (attempt i) (Function.update f.phase i _ i) _
    rw [Function.update_self]
    exact h.kill

/-- A block takes the run of its process on and leaves the others where they are. -/
private theorem reached_block {m : Market} {turns : List (Turn ι)}
    (h : Reached m (attempt i) (f.phase i) f.market) (hown : ∀ t ∈ turns, t.process = i) :
    Reached m (attempt i) ((turns.foldl (turn attempt) f).phase i)
        (turns.foldl (turn attempt) f).market ∧
      ∀ j, j ≠ i → (turns.foldl (turn attempt) f).phase j = f.phase j := by
  induction turns generalizing f with
  | nil => exact ⟨h, fun _ _ => rfl⟩
  | cons t ts ih =>
    rw [List.forall_mem_cons] at hown
    obtain ⟨hreached, hothers⟩ := reached_turn h hown.1
    obtain ⟨hlast, hrest⟩ := ih hreached hown.2
    exact ⟨hlast, fun j hj => (hrest j hj).trans (hothers j hj)⟩

/-- Blocks of processes that have not started are attempts, one after the other. -/
theorem blocks_are_tries {blocks : List (ι × List (Turn ι))} (hblocks : Blocks blocks)
    (hidle : ∀ b ∈ blocks, f.phase b.1 = .idle)
    (hrun : Runs (Turns attempt) f (blocks.flatMap Prod.snd) f') :
    ∃ tries, List.Forall₂ (fun b a => ∃ point, a = (attempt b.1).dying point) blocks tries ∧
      Runs Market.Tries f.market tries f'.market := by
  obtain rfl := Runs.foldl_eq.mp hrun
  clear hrun
  induction blocks generalizing f with
  | nil => exact ⟨[], .nil, .nil⟩
  | cons b bs ih =>
    obtain ⟨hown, hnodup⟩ := hblocks
    rw [List.forall_mem_cons] at hown hidle
    rw [List.map_cons, List.nodup_cons] at hnodup
    have hstart : Reached f.market (attempt b.1) (f.phase b.1) f.market := by
      rw [hidle.1]
      exact .idle
    obtain ⟨hreached, hothers⟩ := reached_block hstart hown.1
    obtain ⟨point, hpoint⟩ := hreached.attempt
    -- the processes of the other blocks have still not started
    have hidle' : ∀ c ∈ bs, (b.2.foldl (turn attempt) f).phase c.1 = .idle := by
      intro c hc
      rw [hothers c.1 ?_, hidle.2 c hc]
      rintro heq
      exact hnodup.1 (heq ▸ List.mem_map_of_mem hc)
    obtain ⟨tries, htries, hrest⟩ := ih ⟨hown.2, hnodup.2⟩ hidle'
    refine ⟨(attempt b.1).dying point :: tries, .cons ⟨point, rfl⟩ htries, ?_⟩
    rw [List.flatMap_cons, List.foldl_append]
    refine Runs.foldl_eq.mpr ?_
    rw [List.foldl_cons, ← hpoint]
    exact Runs.foldl_eq.mp hrest

/-- Where the processes of a symbol take their turns one process after the other, the rows and
    the executions of the symbol are those of a sequence of attempts, whatever the processes of
    other symbols do in between: every process is one attempt, which dies or not, and one run
    of its cycle, which commits or raises. -/
theorem serial_symbol_is_sequential {db : Database} {book : List VenueOrder}
    {turns : List (Turn ι)} (symbol : String) (hkeeps : ∀ i, (attempt i).cycle.KeepsSymbol)
    (hothers : ∀ i, (attempt i).cycle.symbol ≠ symbol →
      stripSymbol (attempt i).cycle.symbol ≠ stripSymbol symbol)
    (hrun : Runs (Turns attempt) (start db book) turns f) {blocks : List (ι × List (Turn ι))}
    (hblocks : Blocks blocks)
    (hserial : turns.filter (fun t => (attempt t.process).cycle.symbol = symbol) =
      blocks.flatMap Prod.snd) :
    ∃ tries cycles m,
      List.Forall₂ (fun b a => ∃ point, a = (attempt b.1).dying point) blocks tries ∧
      List.Forall₂ (fun a c => ∃ book, c = a.cycleAt book) tries cycles ∧
      Runs Market.Tries ⟨db, book⟩ tries m ∧ Runs Attempted db cycles m.tables ∧
      f.tables.rowsOf symbol = m.tables.rowsOf symbol ∧
      f.book.filter (·.request.symbol = symbol) = m.book.filter (·.request.symbol = symbol) := by
  -- the turns of the symbol alone do the same, and these come in blocks
  obtain ⟨alone, halone, hsame⟩ := exists_alone hkeeps hothers hrun
  rw [hserial] at halone
  obtain ⟨tries, htries, hsequential⟩ := blocks_are_tries hblocks (fun _ _ => rfl) halone
  obtain ⟨cycles, hcycles, hattempted⟩ := Market.attempted_of_tries hsequential
  exact ⟨tries, cycles, alone.market, htries, hcycles, hsequential, hattempted,
    hsame.tables.rows, hsame.book.orders⟩

end Fleet

/-! ## A retry beside another market -/

/-- A process that buys ether, one that buys bitcoin, and the retry of the latter. -/
def retriedSandbox : Option Bool → Attempt
  | none => twoSandboxes true
  | some retry => sandboxRun (noon + if retry then 120000000 else 60000000) none

/-- The bitcoin process is killed once its order is executed, and then retried; the ether
    process runs beside both. -/
def retriedTurns : List (Turn (Option Bool)) :=
  [.step none, .step (some false), .step (some false), .step none, .step (some false),
    .kill (some false), .step none, .step (some true), .step (some true), .step none,
    .step (some true), .step none]

/-- The bitcoin rows are those of two attempts. -/
theorem serial_symbol_is_sequential_retried : ∃ f tries m,
    Runs (Fleet.Turns retriedSandbox) (Fleet.start Database.empty []) retriedTurns f ∧
      Runs Market.Tries ⟨Database.empty, []⟩ tries m ∧ tries.length = 2 ∧
      f.book.length = 2 ∧ f.tables.rowsOf "BTC/USDT" = m.tables.rowsOf "BTC/USDT" := by
  have hkeeps : ∀ i, (retriedSandbox i).cycle.KeepsSymbol := by
    intro i
    cases i <;> exact TradingCycle.keepsSymbol_of (SimulatedExchange.gateway_keepsSymbol _ _ _)
      (fixedStrategy_keepsSymbol _ _)
  have hothers : ∀ i, (retriedSandbox i).cycle.symbol ≠ "BTC/USDT" →
      stripSymbol (retriedSandbox i).cycle.symbol ≠ stripSymbol "BTC/USDT" := by
    intro i
    cases i with
    | none => decide +kernel
    | some retry => exact fun hne => absurd rfl hne
  -- the crashed process first, then its retry
  have hblocks : Fleet.Blocks [(some false, [.step (some false), .step (some false),
      .step (some false), .kill (some false)]),
      (some true, [.step (some true), .step (some true), .step (some true)])] := by
    refine ⟨?_, by decide⟩
    simp [Turn.process]
  have hrun : Runs (Fleet.Turns retriedSandbox) (Fleet.start Database.empty []) retriedTurns
      (retriedTurns.foldl (Fleet.turn retriedSandbox) (Fleet.start Database.empty [])) :=
    Runs.foldl_eq.mpr rfl
  have hbook : (retriedTurns.foldl (Fleet.turn retriedSandbox)
      (Fleet.start Database.empty [])).book.length = 2 := by
    decide +kernel
  obtain ⟨tries, -, m, htries, -, hsequential, -, hrows, -⟩ :=
    Fleet.serial_symbol_is_sequential "BTC/USDT" hkeeps hothers hrun hblocks rfl
  exact ⟨_, tries, m, hrun, hsequential, htries.length_eq.symm, hbook, hrows⟩

end TradingBot
