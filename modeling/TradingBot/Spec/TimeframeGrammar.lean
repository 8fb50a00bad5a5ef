import TradingBot.Exchange.Timeframes
import Mathlib.Data.Nat.Digits.Defs

/-!
# The grammar of timeframes

A timeframe is a positive decimal number and the letter of a unit. The parser reads more than
that: digits of any script, and a final newline. And it raises more than configuration errors:
on durations no `timedelta` holds, and on numbers of more than 4300 digits. On every other text
it agrees with the grammar.
-/

namespace TradingBot

/-! ## The grammar -/

/-- The letters of the units with their lengths in microseconds. -/
def unitLengths : List (Char × ℤ) :=
  [('m', 60 * 10 ^ 6), ('h', 3600 * 10 ^ 6), ('d', 86400 * 10 ^ 6), ('w', 604800 * 10 ^ 6)]

/-- The number that a text of ASCII digits is. -/
def decimalValue (digits : List Char) : ℕ := Nat.ofDigits 10 (digits.reverse.map (·.toNat - 48))

/-- A `timedelta` stays below 10⁹ days. -/
def timedeltaLimit : ℤ := 10 ^ 9 * dayMicros

/-- A text is digits and the letter of a unit, for a duration that a `timedelta` holds. -/
def DenotesTimeframe (text : String) (duration : Duration) : Prop :=
  ∃ digits letter unit, text.toList = digits ++ [letter] ∧ digits ≠ [] ∧
    (∀ c ∈ digits, c.isDigit = true) ∧ (letter, unit) ∈ unitLengths ∧ 0 < decimalValue digits ∧
    duration = decimalValue digits * unit ∧ duration < timedeltaLimit

/-! ## What the parser reads -/

/-- A text, less one final newline, is decimal digits of any script, with their values, and the
    letter of a unit. -/
def ReadsTimeframe (text : String) (digits : List ℕ) (unit : ℤ) : Prop :=
  ∃ chars letter ending, text.toList = chars ++ letter :: ending ∧ (ending = [] ∨ ending = ['\n']) ∧
    chars.mapM digitValue = some digits ∧ digits ≠ [] ∧ (letter, unit) ∈ unitLengths

/-- The text has only ASCII digits before its last character. -/
def AsciiTimeframe (text : String) : Prop :=
  ∀ c ∈ text.toList.dropLast, c.isDigit = true

/-- The number that digits with these values are. -/
def digitsValue (digits : List ℕ) : ℕ := Nat.ofDigits 10 digits.reverse

/-- The letters of the units are those of the list, with their lengths. -/
theorem unitMicros_eq_some_iff {letter : Char} {unit : ℤ} :
    unitMicros letter = some unit ↔ (letter, unit) ∈ unitLengths := by
  unfold unitMicros unitLengths
  split <;> simp_all [dayMicros, eq_comm]

/-- The pattern takes digits and one letter of a unit apart, and needs at least one digit. -/
private theorem match_body_iff {body : List Char} {digits : List ℕ} {unit : ℤ} :
    (do
      let unit ← body.getLast? >>= unitMicros
      let digits ← body.dropLast.mapM digitValue
      if digits = [] then none else some (digits, unit) : Option _) = some (digits, unit) ↔
    ∃ chars letter, body = chars ++ [letter] ∧ chars.mapM digitValue = some digits ∧
      digits ≠ [] ∧ (letter, unit) ∈ unitLengths := by
  simp only [bind, Option.bind_eq_some_iff]
  constructor
  -- the last character is the letter, and what is before it the digits
  · rintro ⟨unit', ⟨letter, hlast, hunit⟩, digits', hdigits, hresult⟩
    obtain ⟨chars, rfl⟩ := List.getLast?_eq_some_iff.mp hlast
    rw [List.dropLast_concat] at hdigits
    obtain ⟨hne, hsame⟩ := Option.ite_none_left_eq_some.mp hresult
    cases hsame
    exact ⟨chars, letter, rfl, hdigits, hne, unitMicros_eq_some_iff.mp hunit⟩
  · rintro ⟨chars, letter, rfl, hdigits, hne, hunit⟩
    refine ⟨unit, ⟨letter, List.getLast?_concat, unitMicros_eq_some_iff.mpr hunit⟩, digits, ?_,
      if_neg hne⟩
    rwa [List.dropLast_concat]

/-- The pattern matches exactly the texts that the grammar reads. A final newline is dropped
    first. -/
theorem matchTimeframe_eq_some_iff {text : String} {digits : List ℕ} {unit : ℤ} :
    matchTimeframe text = some (digits, unit) ↔ ReadsTimeframe text digits unit := by
  refine match_body_iff.trans ?_
  unfold ReadsTimeframe
  -- `$` also matches before a final newline
  by_cases hnewline : text.toList.getLast? = some '\n'
  · obtain ⟨rest, hrest⟩ := List.getLast?_eq_some_iff.mp hnewline
    rw [if_pos hnewline, hrest, List.dropLast_concat]
    constructor
    · rintro ⟨chars, letter, rfl, hread⟩
      exact ⟨chars, letter, ['\n'], by simp, .inr rfl, hread⟩
    · rintro ⟨chars, letter, ending, hsplit, rfl | rfl, hread⟩
      · -- a newline is not the letter of a unit
        obtain ⟨-, rfl⟩ := List.append_singleton_inj.mp hsplit
        simp [unitLengths] at hread
      · have hbody : rest ++ ['\n'] = (chars ++ [letter]) ++ ['\n'] := by simpa using hsplit
        exact ⟨chars, letter, (List.append_singleton_inj.mp hbody).1, hread⟩
  · rw [if_neg hnewline]
    constructor
    · rintro ⟨chars, letter, hbody, hread⟩
      exact ⟨chars, letter, [], hbody, .inl rfl, hread⟩
    · rintro ⟨chars, letter, ending, hsplit, rfl | rfl, hread⟩
      · exact ⟨chars, letter, hsplit, hread⟩
      · exact absurd (by simp [hsplit]) hnewline

/-- Reading digits from the left shifts what was read before. -/
private theorem foldl_digits (digits : List ℕ) (n : ℕ) :
    digits.foldl (fun n d => 10 * n + d) n = 10 ^ digits.length * n + digitsValue digits := by
  induction digits generalizing n with
  | nil => simp [digitsValue]
  | cons d digits ih =>
    have hcons : digitsValue (d :: digits) = digitsValue digits + 10 ^ digits.length * d := by
      simp only [digitsValue]
      rw [Nat.ofDigits_reverse_cons]
    rw [List.foldl_cons, ih, hcons, List.length_cons]
    ring

/-- `int` reads up to 4300 digits, and raises above. -/
theorem intOfDigits_eq (digits : List ℕ) :
    intOfDigits digits =
      if digits.length ≤ 4300 then .ok (digitsValue digits)
      else
        .error (.valueError "Exceeds the limit (4300 digits) for integer string conversion") := by
  rw [intOfDigits, foldl_digits, mul_zero, zero_add]

/-- What the parser makes of a text that it reads. -/
theorem parseTimeframe_of_reads {text : String} {digits : List ℕ} {unit : ℤ}
    (h : ReadsTimeframe text digits unit) :
    parseTimeframe text =
      if digits.length ≤ 4300 then
        if digitsValue digits = 0 then
          .error (.configurationError "timeframe amount must be positive: " (some text))
        else timedelta (digitsValue digits * unit)
      else
        .error (.valueError "Exceeds the limit (4300 digits) for integer string conversion") := by
  unfold parseTimeframe
  rw [matchTimeframe_eq_some_iff.mpr h]
  simp only [intOfDigits_eq]
  by_cases hlength : digits.length ≤ 4300
  · -- the amount is below one exactly when it is zero
    rw [if_pos hlength, if_pos hlength]
    by_cases hzero : digitsValue digits = 0
    · rw [if_pos hzero, hzero]
      rfl
    · have hpos : ¬ digitsValue digits < 1 := by omega
      rw [if_neg hzero]
      simp only [bind, Except.bind, if_neg hpos]
  · rw [if_neg hlength, if_neg hlength]
    rfl

/-- A text that is not read is refused. -/
theorem parseTimeframe_of_not_reads {text : String}
    (h : ∀ digits unit, ¬ ReadsTimeframe text digits unit) :
    parseTimeframe text = .error (.configurationError "unsupported timeframe: " (some text)) := by
  have hmatch : matchTimeframe text = none :=
    Option.eq_none_iff_forall_ne_some.mpr fun parsed hparsed =>
      h parsed.1 parsed.2 (matchTimeframe_eq_some_iff.mp hparsed)
  unfold parseTimeframe
  rw [hmatch]

/-- A text is read in one way. -/
theorem ReadsTimeframe.unique {text : String} {digits digits' : List ℕ} {unit unit' : ℤ}
    (h : ReadsTimeframe text digits unit) (h' : ReadsTimeframe text digits' unit') :
    digits' = digits ∧ unit' = unit := by
  have hsame := (matchTimeframe_eq_some_iff.mpr h').symm.trans (matchTimeframe_eq_some_iff.mpr h)
  exact Prod.mk.injEq _ _ _ _ ▸ Option.some.inj hsame

/-- The unit of a timeframe is positive. -/
theorem ReadsTimeframe.unit_pos {text : String} {digits : List ℕ} {unit : ℤ}
    (h : ReadsTimeframe text digits unit) : 0 < unit := by
  obtain ⟨-, letter, -, -, -, -, -, hunit⟩ := h
  simp only [unitLengths, List.mem_cons, Prod.mk.injEq, List.not_mem_nil, or_false] at hunit
  obtain ⟨-, rfl⟩ | ⟨-, rfl⟩ | ⟨-, rfl⟩ | ⟨-, rfl⟩ := hunit <;> norm_num

/-- A duration forwards in time is a `timedelta` below 10⁹ days. -/
theorem timedelta_eq_ok_of_nonneg {micros d : ℤ} (h : 0 ≤ micros) :
    timedelta micros = .ok d ↔ d = micros ∧ micros < timedeltaLimit := by
  have hlow : -999999999 ≤ micros / dayMicros :=
    le_trans (by norm_num) (Int.ediv_nonneg h (by decide))
  have hhigh : micros / dayMicros ≤ 999999999 ↔ micros < timedeltaLimit := by
    rw [← Int.lt_add_one_iff, Int.ediv_lt_iff_lt_mul (by decide)]
    rfl
  unfold timedelta
  by_cases hfits : micros < timedeltaLimit
  · rw [if_pos ⟨hlow, hhigh.mpr hfits⟩, and_iff_left hfits, eq_comm, Except.ok.injEq]
  · rw [if_neg fun hdays => hfits (hhigh.mp hdays.2)]
    exact iff_of_false (fun hd => nomatch hd) fun hd => hfits hd.2

/-! ## Where the two agree -/

/-- An ASCII digit has the value that its code says. -/
theorem digitValue_of_isDigit {c : Char} (h : c.isDigit = true) :
    digitValue c = some (c.toNat - 48) := by
  have hbounds : 48 ≤ c.toNat ∧ c.toNat ≤ 57 := by
    simpa [Char.isDigit, UInt32.le_iff_toNat_le] using h
  have hfirst : zeroDigits.find? (fun z => z ≤ c.toNat ∧ c.toNat < z + 10) = some 48 :=
    List.find?_cons_of_pos (by simp; omega)
  rw [digitValue, hfirst]
  rfl

/-- So have all of a text of them. -/
theorem mapM_digitValue {digits : List Char} (h : ∀ c ∈ digits, c.isDigit = true) :
    digits.mapM digitValue = some (digits.map (·.toNat - 48)) := by
  induction digits with
  | nil => rfl
  | cons c digits ih =>
    have hrest := ih fun c' hc' => h c' (List.mem_cons_of_mem c hc')
    rw [List.mapM_cons, digitValue_of_isDigit (h c List.mem_cons_self), hrest]
    rfl

/-- ASCII digits denote their decimal value. -/
theorem digitsValue_map (digits : List Char) :
    digitsValue (digits.map (·.toNat - 48)) = decimalValue digits := by
  rw [digitsValue, decimalValue, List.map_reverse]

/-- The grammar is what the parser reads of positive numbers in ASCII, when it fits. -/
theorem denotesTimeframe_iff {text : String} {d : Duration} :
    DenotesTimeframe text d ↔ ∃ digits unit, ReadsTimeframe text digits unit ∧
      AsciiTimeframe text ∧ digitsValue digits ≠ 0 ∧ d = digitsValue digits * unit ∧
      d < timedeltaLimit := by
  constructor
  · rintro ⟨digits, letter, unit, htext, hne, hdigits, hunit, hpos, rfl, hfits⟩
    have hreads : ReadsTimeframe text (digits.map (·.toNat - 48)) unit :=
      ⟨digits, letter, [], htext, .inl rfl, mapM_digitValue hdigits, by simpa using hne, hunit⟩
    refine ⟨_, unit, hreads, ?_, ?_, ?_, hfits⟩
    · simpa [AsciiTimeframe, htext] using hdigits
    · rw [digitsValue_map]
      exact hpos.ne'
    · rw [digitsValue_map]
  · rintro ⟨values, unit, ⟨digits, letter, ending, htext, hending, hvalues, hne, hunit⟩, hascii,
      hpos, rfl, hfits⟩
    obtain rfl | rfl := hending
    · have hdigits : ∀ c ∈ digits, c.isDigit = true := by
        simpa [AsciiTimeframe, htext] using hascii
      obtain rfl : digits.map (·.toNat - 48) = values :=
        Option.some.inj ((mapM_digitValue hdigits).symm.trans hvalues)
      rw [digitsValue_map] at hpos hfits ⊢
      exact ⟨digits, letter, unit, htext, by simpa using hne, hdigits, hunit,
        Nat.pos_of_ne_zero hpos, rfl, hfits⟩
    · -- the letter of the unit stands before the final newline, and is no digit
      have hletter : letter.isDigit = true :=
        hascii letter (by simp [htext, List.dropLast_append_of_ne_nil])
      simp only [unitLengths, List.mem_cons, Prod.mk.injEq, List.not_mem_nil, or_false] at hunit
      obtain ⟨rfl, -⟩ | ⟨rfl, -⟩ | ⟨rfl, -⟩ | ⟨rfl, -⟩ := hunit <;> cases hletter

/-- If the parser reads the text at all, it does so from at most 4300 digits, and the number is
    zero, or is written in ASCII without a final newline and fits a `timedelta`. -/
def RegularTimeframe (text : String) : Prop :=
  ∀ digits unit, ReadsTimeframe text digits unit → digits.length ≤ 4300 ∧
    (digitsValue digits = 0 ∨
      AsciiTimeframe text ∧ digitsValue digits * unit < timedeltaLimit)

/-- What a text denotes that the parser reads. -/
theorem ReadsTimeframe.denotes_iff {text : String} {digits : List ℕ} {unit : ℤ}
    (h : ReadsTimeframe text digits unit) (d : Duration) :
    DenotesTimeframe text d ↔ AsciiTimeframe text ∧ digitsValue digits ≠ 0 ∧
      d = digitsValue digits * unit ∧ d < timedeltaLimit := by
  rw [denotesTimeframe_iff]
  constructor
  · rintro ⟨digits', unit', h', hdenotes⟩
    obtain ⟨rfl, rfl⟩ := h.unique h'
    exact hdenotes
  · exact fun hdenotes => ⟨digits, unit, h, hdenotes⟩

/-- The parser agrees with the grammar, and refuses the rest as a configuration error, exactly
    on the regular texts. -/
theorem parseTimeframe_grammatical_iff (text : String) :
    ((∀ d, parseTimeframe text = .ok d ↔ DenotesTimeframe text d) ∧
      ∀ e, parseTimeframe text = .error e →
        ∃ message value, e = .configurationError message value) ↔
    RegularTimeframe text := by
  constructor
  · rintro ⟨hagrees, hrefuses⟩ digits unit hreads
    have hparse := parseTimeframe_of_reads hreads
    by_cases hlength : digits.length ≤ 4300
    · -- an amount that is not zero goes to `timedelta`, whose errors are overflows
      refine ⟨hlength, or_iff_not_imp_left.mpr fun hzero => ?_⟩
      rw [if_pos hlength, if_neg hzero] at hparse
      cases hduration : timedelta (digitsValue digits * unit) with
      | error e =>
        obtain ⟨message, value, rfl⟩ := hrefuses e (hparse.trans hduration)
        unfold timedelta at hduration
        split at hduration <;> cases hduration
      | ok d =>
        obtain ⟨hascii, -, rfl, hfits⟩ :=
          (hreads.denotes_iff d).mp ((hagrees d).mp (hparse.trans hduration))
        exact ⟨hascii, hfits⟩
    · -- `int` refuses the digits before the amount is looked at
      rw [if_neg hlength] at hparse
      obtain ⟨message, value, he⟩ := hrefuses _ hparse
      cases he
  · intro hregular
    by_cases hreads : ∃ digits unit, ReadsTimeframe text digits unit
    · obtain ⟨digits, unit, hreads⟩ := hreads
      obtain ⟨hlength, hregular⟩ := hregular digits unit hreads
      have hparse := parseTimeframe_of_reads hreads
      rw [if_pos hlength] at hparse
      by_cases hzero : digitsValue digits = 0
      · rw [if_pos hzero] at hparse
        refine ⟨fun d => ?_, fun e he => ?_⟩
        · rw [hparse, hreads.denotes_iff]
          exact iff_of_false (fun hd => nomatch hd) fun hd => hd.2.1 hzero
        · exact ⟨_, _, (Except.error.inj (hparse.symm.trans he)).symm⟩
      · rw [if_neg hzero] at hparse
        obtain ⟨hascii, hfits⟩ := hregular.resolve_left hzero
        have hduration (d : Duration) : timedelta (digitsValue digits * unit) = .ok d ↔
            d = digitsValue digits * unit ∧ digitsValue digits * unit < timedeltaLimit :=
          timedelta_eq_ok_of_nonneg (mul_nonneg (Int.natCast_nonneg _) hreads.unit_pos.le)
        refine ⟨fun d => ?_, fun e he => ?_⟩
        · rw [hparse, hreads.denotes_iff, hduration]
          constructor
          · rintro ⟨rfl, -⟩
            exact ⟨hascii, hzero, rfl, hfits⟩
          · rintro ⟨-, -, hd, -⟩
            exact ⟨hd, hfits⟩
        · have hok := (hduration _).mpr ⟨rfl, hfits⟩
          cases (hparse.trans hok).symm.trans he
    · -- nothing is read, and so nothing is denoted
      have hparse : parseTimeframe text = _ :=
        parseTimeframe_of_not_reads fun digits unit h => hreads ⟨digits, unit, h⟩
      refine ⟨fun d => ?_, fun e he => ?_⟩
      · rw [hparse, denotesTimeframe_iff]
        exact iff_of_false (fun hd => nomatch hd) fun ⟨digits, unit, h, _⟩ =>
          hreads ⟨digits, unit, h⟩
      · exact ⟨_, _, (Except.error.inj (hparse.symm.trans he)).symm⟩

/-- A final newline is read over. -/
theorem newlineTimeframe_parsed :
    parseTimeframe "15m\n" = .ok (15 * 60 * 1000000) ∧
      ¬ DenotesTimeframe "15m\n" (15 * 60 * 1000000) := by
  refine ⟨by decide, ?_⟩
  rintro ⟨digits, letter, unit, htext, -, -, hunit, -⟩
  obtain ⟨-, rfl⟩ : digits = ['1', '5', 'm'] ∧ letter = '\n' :=
    List.append_singleton_inj.mp htext.symm
  simp [unitLengths] at hunit

end TradingBot
