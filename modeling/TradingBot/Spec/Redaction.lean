import TradingBot.Observability.Logging

/-!
# What redacted events give away

A redacted event is the event it was made of, but for what was stored under sensitive keys.
It does not depend on that as long as no sensitive key occurs inside a list: lists are passed
on as they are.
-/

namespace TradingBot

open Nested

variable {κ σ : Type} {event event' : EventDict κ σ}

/-- Two events are equal, up to the order of entries, except for what is stored under
    sensitive keys. -/
def EqualOffSensitive (event event' : EventDict κ σ) : Prop :=
  ∃ reordered, AgreeOffEntries LogKey.Sensitive event reordered ∧
    Same (.dict reordered) (.dict event')

/-! ## What redaction keeps -/

mutual

/-- Every key, the length of every list and every other value is kept. -/
theorem agreeOff_redactMapping : ∀ mapping : EventDict κ σ,
    AgreeOffEntries LogKey.Sensitive mapping (redactMapping mapping)
  | [] => trivial
  | (key, value) :: mapping => by
    refine ⟨rfl, ?_, agreeOff_redactMapping mapping⟩
    by_cases hkey : key.Sensitive
    · exact .inl hkey
    · rw [if_neg hkey]
      exact .inr (agreeOff_redactValue value)

/-- The same for any value. -/
theorem agreeOff_redactValue : ∀ value : LogValue κ σ,
    AgreeOff LogKey.Sensitive value (redactValue value)
  | .dict entries => by
    rw [redactValue, AgreeOff]
    exact agreeOff_redactMapping entries
  | .list items => AgreeOff.refl (.list items)
  | .atom a => AgreeOff.refl (.atom a)

end

mutual

/-- There is nothing left to redact. -/
theorem redactMapping_redactMapping : ∀ mapping : EventDict κ σ,
    redactMapping (redactMapping mapping) = redactMapping mapping
  | [] => rfl
  | (key, value) :: mapping => by
    rw [redactMapping, redactMapping, redactMapping_redactMapping mapping]
    by_cases hkey : key.Sensitive
    · simp only [if_pos hkey]
    · simp only [if_neg hkey, redactValue_redactValue value]

/-- Nor is there in any value. -/
theorem redactValue_redactValue : ∀ value : LogValue κ σ,
    redactValue (redactValue value) = redactValue value
  | .dict entries => by rw [redactValue, redactValue, redactMapping_redactMapping entries]
  | .list items => rfl
  | .atom a => rfl

end

/-! ## What redaction hides -/

mutual

/-- Events that agree are redacted to the same when no sensitive key occurs in a list. -/
theorem redactMapping_eq_of_agreeOff : ∀ {mapping mapping' : EventDict κ σ},
    AgreeOffEntries LogKey.Sensitive mapping mapping' →
      ¬EntryListHasKey LogKey.Sensitive mapping → redactMapping mapping = redactMapping mapping'
  | [], [], _, _ => rfl
  | (key, value) :: mapping, (key', value') :: mapping', h, hnone => by
    obtain ⟨rfl, hvalue, hmapping⟩ := h
    obtain ⟨hnovalue, hnomapping⟩ := not_or.mp hnone
    rw [redactMapping, redactMapping, redactMapping_eq_of_agreeOff hmapping hnomapping]
    by_cases hkey : key.Sensitive
    · simp only [if_pos hkey]
    · have hnolist : ¬ListHasKey LogKey.Sensitive value := fun hlist => hnovalue ⟨hkey, hlist⟩
      simp only [if_neg hkey, redactValue_eq_of_agreeOff (hvalue.resolve_left hkey) hnolist]

/-- The same for any two values. -/
theorem redactValue_eq_of_agreeOff : ∀ {value value' : LogValue κ σ},
    AgreeOff LogKey.Sensitive value value' → ¬ListHasKey LogKey.Sensitive value →
      redactValue value = redactValue value'
  | .dict entries, .dict entries', h, hnone => by
    rw [AgreeOff] at h
    rw [ListHasKey] at hnone
    rw [redactValue, redactValue, redactMapping_eq_of_agreeOff h hnone]
  | .list items, .list items', h, hnone => by
    rw [AgreeOff] at h
    rw [ListHasKey] at hnone
    rw [redactValue, redactValue, AgreeOffItems.eq_of_not_hasKey h hnone]
  | .atom a, .atom a', h, _ => by
    rw [AgreeOff] at h
    rw [h]

end

mutual

/-- Where a sensitive key occurs in a list, what is stored under it shows in the size of the
    redacted event. -/
theorem redactMapping_shows : ∀ {mapping : EventDict κ σ},
    EntryListHasKey LogKey.Sensitive mapping →
      ∃ mapping', AgreeOffEntries LogKey.Sensitive mapping mapping' ∧
        sizeEntries (redactMapping mapping) < sizeEntries (redactMapping mapping')
  | (key, value) :: mapping, h => by
    rcases h with ⟨hkey, hvalue⟩ | hmapping
    · obtain ⟨value', hagree, hlt⟩ := redactValue_shows hvalue
      refine ⟨(key, value') :: mapping, ⟨rfl, .inr hagree, AgreeOffEntries.refl mapping⟩, ?_⟩
      simp only [redactMapping, if_neg hkey, sizeEntries]
      exact Nat.add_lt_add_right hlt _
    · obtain ⟨mapping', hagree, hlt⟩ := redactMapping_shows hmapping
      refine ⟨(key, value) :: mapping', ⟨rfl, .inr (AgreeOff.refl value), hagree⟩, ?_⟩
      simp only [redactMapping, sizeEntries]
      exact Nat.add_lt_add_left hlt _

/-- The same for any value. -/
theorem redactValue_shows : ∀ {value : LogValue κ σ},
    ListHasKey LogKey.Sensitive value →
      ∃ value', AgreeOff LogKey.Sensitive value value' ∧
        (redactValue value).size < (redactValue value').size
  | .dict entries, h => by
    rw [ListHasKey] at h
    obtain ⟨entries', hagree, hlt⟩ := redactMapping_shows h
    refine ⟨.dict entries', by rwa [AgreeOff], ?_⟩
    rw [redactValue, redactValue, size, size]
    exact Nat.add_lt_add_left hlt 1
  | .list items, h => by
    rw [ListHasKey] at h
    obtain ⟨items', hagree, hlt⟩ := ItemsHaveKey.exists_larger h
    refine ⟨.list items', by rwa [AgreeOff], ?_⟩
    rw [redactValue, redactValue, size, size]
    exact Nat.add_lt_add_left hlt 1
  | .atom a, h => by
    rw [ListHasKey] at h
    exact h.elim

end

/-! ## The order of entries -/

/-- Redaction goes over a mapping entry by entry. -/
theorem redactMapping_eq_map : ∀ mapping : EventDict κ σ,
    redactMapping mapping = mapping.map fun entry =>
      (entry.1, if entry.1.Sensitive then .atom (.str redacted) else redactValue entry.2)
  | [] => rfl
  | (key, value) :: mapping => by
    rw [redactMapping, redactMapping_eq_map mapping, List.map_cons]

mutual

/-- Mappings that are the same up to the order of their entries are redacted to such mappings. -/
theorem same_redactMapping : ∀ {mapping mapping' : EventDict κ σ}, SameEntries mapping mapping' →
    SameEntries (redactMapping mapping) (redactMapping mapping')
  | [], [], _ => trivial
  | (key, value) :: mapping, (key', value') :: mapping', h => by
    obtain ⟨rfl, hvalue, hmapping⟩ := h
    refine ⟨rfl, ?_, same_redactMapping hmapping⟩
    by_cases hkey : key.Sensitive
    · simp only [if_pos hkey]
      exact Same.refl _
    · simp only [if_neg hkey]
      exact same_redactValue hvalue

/-- Values that are the same are redacted to the same. -/
theorem same_redactValue : ∀ {value value' : LogValue κ σ}, Same value value' →
    Same (redactValue value) (redactValue value')
  | .dict entries, .dict entries', h => by
    rw [Same] at h
    obtain ⟨reordered, hsame, hperm⟩ := h
    rw [redactValue, redactValue, Same]
    refine ⟨redactMapping reordered, same_redactMapping hsame, ?_⟩
    rw [redactMapping_eq_map, redactMapping_eq_map]
    exact hperm.map _
  | .list items, .list items', h => h
  | .atom a, .atom a', h => h

end

/-- Redaction hides what is stored under sensitive keys, keeps everything else, and has
    nothing to add the second time, exactly for the events without a sensitive key inside a
    list: an equal event, but for the values under sensitive keys, is redacted to the same. -/
theorem redaction_noninterfering_iff (event : EventDict κ σ) :
    ((∀ event', EqualOffSensitive event event' →
          Same (.dict (redactSensitive event)) (.dict (redactSensitive event'))) ∧
        AgreeOffEntries LogKey.Sensitive event (redactSensitive event) ∧
        redactSensitive (redactSensitive event) = redactSensitive event) ↔
      ¬EntryListHasKey LogKey.Sensitive event := by
  constructor
  · rintro ⟨hhidden, -, -⟩ hlist
    obtain ⟨event', hagree, hlt⟩ := redactMapping_shows hlist
    have hsame := hhidden event' ⟨event', hagree, Same.refl _⟩
    -- the two redactions would have the same size, and they do not
    have hsize := Same.size_eq hsame
    simp only [redactSensitive, size] at hsize
    omega
  · intro hnone
    refine ⟨fun event' hequal => ?_, agreeOff_redactMapping event,
      redactMapping_redactMapping event⟩
    -- redaction does not see the difference, and keeps the order of the entries
    obtain ⟨reordered, hagree, hsame⟩ := hequal
    have hredacted : Same (redactValue (.dict reordered)) (redactValue (.dict event')) :=
      same_redactValue hsame
    rw [redactSensitive, redactMapping_eq_of_agreeOff hagree hnone]
    rw [redactValue, redactValue] at hredacted
    exact hredacted

/-! ## A credential inside a list -/

/-- An event with the credentials of its venues in a list. -/
def venuesEvent (secret : String) : EventDict Empty Empty :=
  [(.str "venues", .list [.dict [(.str "secret", .atom (.str secret))]])]

/-- The credentials differ, and so do the redacted events. -/
theorem venuesEvent_leaks : EqualOffSensitive (venuesEvent "hunter2") (venuesEvent "hunter3") ∧
    ¬Same (.dict (redactSensitive (venuesEvent "hunter2")))
      (.dict (redactSensitive (venuesEvent "hunter3"))) := by
  have hvenues : ¬(LogKey.str "venues" : LogKey Empty).Sensitive := by decide +kernel
  have hsecret : (LogKey.str "secret" : LogKey Empty).Sensitive := by decide +kernel
  -- the only key outside the list is not sensitive
  have hkept : ∀ secret, redactSensitive (venuesEvent secret) = venuesEvent secret := by
    intro secret
    simp only [redactSensitive, venuesEvent, redactMapping, if_neg hvenues, redactValue]
  constructor
  · refine ⟨venuesEvent "hunter3", ⟨rfl, .inr ?_, trivial⟩, Same.refl _⟩
    simp only [AgreeOff, AgreeOffItems, AgreeOffEntries, hsecret, true_or, and_self]
  · rw [hkept, hkept]
    intro hsame
    -- a dictionary of one entry has one order
    simp only [venuesEvent, Same, List.perm_singleton, exists_eq_right, SameEntries, SameItems,
      and_true, true_and] at hsame
    exact absurd hsame (by decide)

end TradingBot
