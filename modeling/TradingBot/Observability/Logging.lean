import TradingBot.ForMathlib.Nested
import TradingBot.Python.Text

/-!
# Redaction in the logging pipeline

A log event is a dictionary of values, which may be dictionaries and lists themselves. The
processor masks what is stored under a key that looks like a credential.
-/

namespace TradingBot

/-- A key of a dictionary. -/
inductive LogKey (κ : Type) where
  | str (s : String)
  | other (k : κ)
  deriving DecidableEq, Repr

/-- A value that is neither a dictionary nor a list. -/
inductive LogAtom (σ : Type) where
  | str (s : String)
  | other (v : σ)
  deriving DecidableEq, Repr

abbrev LogValue (κ σ : Type) := Nested (LogKey κ) (LogAtom σ)

abbrev EventDict (κ σ : Type) := List (LogKey κ × LogValue κ σ)

/-- What replaces a value. -/
def redacted : String := "[redacted]"

/-- The words of `_SENSITIVE_KEY`, each of its optional characters written out. -/
def sensitiveWords : List String :=
  ["apikey", "api_key", "api-key", "secret", "token", "password", "passwd", "credential",
    "connectionstring", "connection_string", "connection-string", "dsn", "sas"]

/-- `isinstance(key, str) and _SENSITIVE_KEY.search(key)`. -/
def LogKey.Sensitive {κ : Type} : LogKey κ → Prop
  | str s => Python.SearchIgnoreCase sensitiveWords s.toList
  | other _ => False

instance {κ : Type} : DecidablePred (LogKey.Sensitive (κ := κ))
  | .str s => inferInstanceAs (Decidable (Python.SearchIgnoreCase sensitiveWords s.toList))
  | .other _ => inferInstanceAs (Decidable False)

variable {κ σ : Type}

mutual

/-- `_redact_mapping`. -/
def redactMapping : EventDict κ σ → EventDict κ σ
  | [] => []
  | (key, value) :: mapping =>
    (key, if key.Sensitive then .atom (.str redacted) else redactValue value) ::
      redactMapping mapping

/-- What becomes of a value under another key. -/
def redactValue : LogValue κ σ → LogValue κ σ
  | .dict entries => .dict (redactMapping entries)
  -- a list is not looked into
  | .list items => .list items
  | .atom a => .atom a

end

/-- The processor. -/
def redactSensitive (eventDict : EventDict κ σ) : EventDict κ σ := redactMapping eventDict

end TradingBot
