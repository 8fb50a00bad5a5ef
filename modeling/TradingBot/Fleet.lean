import TradingBot.Overlap
import TradingBot.Retry

/-!
# Overlapping runs in front of one venue

Processes of the job on the ccxt sandbox share the committed rows and the venue. They may
overlap, and each may be killed between any two of its steps: a cron schedule that fires
twice, a manual trigger and a container that is stopped are all interleavings of this kind.
What the venue executed stays executed, whatever becomes of the process that asked for it.
-/

namespace TradingBot

/-- The exception a killed process is left with. -/
def killed : Error := .external "SystemExit" "killed"

/-- A run that is killed has failed, unless it had ended. -/
def Phase.kill : Phase → Phase
  | .committed r => .committed r
  | .failed e => .failed e
  | _ => .failed killed

/-- The book of the venue once a run has taken its next step. Only a run whose order was
    admitted asks the venue. -/
def Attempt.bookAfterStep (a : Attempt) (book : List VenueOrder) : Phase → List VenueOrder
  | .admitted _ intent => a.bookAfter book (CcxtSandboxExchange.request intent)
  | _ => book

/-- Processes, each with the phase of its run, over the shared tables and the book of the
    venue they share. -/
structure Fleet (ι : Type) where
  tables : Database
  book : List VenueOrder
  phase : ι → Phase

/-- What happens next: a process takes its next step, or it is killed. -/
inductive Turn (ι : Type) where
  | step (i : ι)
  | kill (i : ι)

/-- The process whose turn it is. -/
def Turn.process {ι : Type} : Turn ι → ι
  | .step i | .kill i => i

namespace Fleet

variable {ι : Type} [DecidableEq ι]

/-- Nobody has started. -/
def start (tables : Database) (book : List VenueOrder) : Fleet ι := ⟨tables, book, fun _ => .idle⟩

/-- What a turn does. The schedule says where a process dies, not its attempt. -/
def turn (attempt : ι → Attempt) (f : Fleet ι) : Turn ι → Fleet ι
  | .step i =>
    let after := ((attempt i).cycleAt f.book).advance (f.phase i, f.tables)
    { tables := after.2
      book := (attempt i).bookAfterStep f.book (f.phase i)
      phase := Function.update f.phase i after.1 }
  | .kill i => { f with phase := Function.update f.phase i (f.phase i).kill }

/-- One turn of an interleaving. -/
def Turns (attempt : ι → Attempt) (f : Fleet ι) (t : Turn ι) (f' : Fleet ι) : Prop :=
  f' = f.turn attempt t

end Fleet

end TradingBot
