import Mathlib.Algebra.Group.Nat.Defs
import Mathlib.Data.List.Infix

/-!
# Python strings

Texts are lists of characters. The tables of Unicode that Python consults are a parameter,
known on the ASCII characters only.
-/

namespace Python

abbrev Text := List Char

/-- What Python knows of single characters. -/
structure CharTables where
  lower : Char → Text
  printable : Char → Bool
  lower_ascii : ∀ c, c.toNat < 128 → lower c = [c.toLower]

namespace CharTables

/-- The tables of a Python that knows no other characters than the ASCII ones. -/
def ascii : CharTables where
  lower c := [c.toLower]
  printable _ := false
  lower_ascii _ _ := rfl

end CharTables

/-- `text.lower()`. -/
def lower (t : CharTables) (text : Text) : Text := text.flatMap t.lower

/-- Lower case goes character by character. -/
@[simp] theorem lower_append (t : CharTables) (a b : Text) :
    lower t (a ++ b) = lower t a ++ lower t b :=
  List.flatMap_append

/-- Lower case goes into joined texts. -/
theorem lower_intercalate (t : CharTables) (s : Text) (parts : List Text) :
    lower t (s.intercalate parts) = (lower t s).intercalate (parts.map (lower t)) := by
  induction parts with
  | nil => rfl
  | cons part parts ih =>
    cases parts with
    | nil => simp
    | cons part' parts =>
      simp only [List.map_cons, List.intercalate_cons_cons, lower_append] at ih ⊢
      rw [ih]

/-- A text of ASCII characters that are not capitals. -/
def isLower (text : Text) : Bool := text.all fun c => c.toNat < 128 && c.toLower == c

/-- A text in lower case stays as it is. -/
theorem lower_eq_self (t : CharTables) {text : Text} (h : isLower text = true) :
    lower t text = text := by
  induction text with
  | nil => rfl
  | cons c text ih =>
    simp only [isLower, List.all_cons, Bool.and_eq_true, decide_eq_true_eq, beq_iff_eq] at h
    obtain ⟨⟨hascii, hsame⟩, hrest⟩ := h
    rw [lower, List.flatMap_cons, t.lower_ascii c hascii, hsame, List.singleton_append]
    exact congrArg (c :: ·) (ih hrest)

/-! ## Representations -/

/-- The last digits of a number in base 16. -/
def hexDigits (width n : ℕ) : Text :=
  (List.range width).reverse.map fun i => Nat.digitChar (n / 16 ^ i % 16)

def singleQuote : Char := Char.ofNat 39

def doubleQuote : Char := Char.ofNat 34

def backslash : Char := Char.ofNat 92

/-- One character of a representation between two quotes. -/
def escape (t : CharTables) (quote c : Char) : Text :=
  if c = quote ∨ c = backslash then [backslash, c]
  else if c = '\t' then [backslash, 't']
  else if c = '\n' then [backslash, 'n']
  else if c = '\r' then [backslash, 'r']
  else if c.toNat < 0x20 ∨ c.toNat = 0x7f then backslash :: 'x' :: hexDigits 2 c.toNat
  else if c.toNat < 0x7f ∨ t.printable c then [c]
  else if c.toNat ≤ 0xff then backslash :: 'x' :: hexDigits 2 c.toNat
  else if c.toNat ≤ 0xffff then backslash :: 'u' :: hexDigits 4 c.toNat
  else backslash :: 'U' :: hexDigits 8 c.toNat

/-- `repr(text)`. -/
def repr (t : CharTables) (text : Text) : Text :=
  -- double quotes only where they save an escape
  let quote := if singleQuote ∈ text ∧ doubleQuote ∉ text then doubleQuote else singleQuote
  quote :: text.flatMap (escape t quote) ++ [quote]

/-! ## Patterns that ignore case -/

/-- The ASCII letter that a character is matched by when case is ignored. Outside ASCII these
    are the long s, the Kelvin sign, and the i with and without a dot. -/
def foldCase (c : Char) : Char :=
  if c = Char.ofNat 0x17f then 's'
  else if c = Char.ofNat 0x212a then 'k'
  else if c = Char.ofNat 0x130 ∨ c = Char.ofNat 0x131 then 'i'
  else c.toLower

/-- Some word of a list occurs in a text, whatever the case of its letters. -/
def SearchIgnoreCase (words : List String) (text : Text) : Prop :=
  ∃ word ∈ words, word.toList <:+: text.map foldCase

instance (words : List String) (text : Text) : Decidable (SearchIgnoreCase words text) :=
  inferInstanceAs (Decidable (∃ word ∈ words, _))

end Python
