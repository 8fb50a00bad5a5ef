import Mathlib.Data.List.Infix

/-!
# Words in texts that are glued together

A word that has no element of a separator lies in a glued text exactly when it lies in one of
the parts.
-/

namespace List

variable {α : Type*} {w a b : List α}

/-- A word without a character is on one side of it. -/
theorem infix_append_cons_iff {c : α} (hc : c ∉ w) : w <:+: a ++ c :: b ↔ w <:+: a ∨ w <:+: b := by
  rw [infix_append_iff]
  constructor
  · rintro (ha | hcb | ⟨u, v, rfl, hu, hv⟩)
    · exact .inl ha
    -- a word from the separator on would contain it
    · rcases infix_cons_iff.mp hcb with hstart | hb
      · rcases prefix_cons_iff.mp hstart with rfl | ⟨t, rfl, -⟩
        · exact .inl nil_infix
        · exact absurd mem_cons_self hc
      · exact .inr hb
    · -- a word across the separator has nothing beyond it
      rcases prefix_cons_iff.mp hv with rfl | ⟨t, rfl, -⟩
      · rw [append_nil]
        exact .inl hu.isInfix
      · exact absurd (mem_append_right u mem_cons_self) hc
  · rintro (ha | hb)
    · exact .inl ha
    · exact .inr (.inl (infix_cons_iff.mpr (.inr hb)))

/-- A separator of any length between two parts. -/
theorem infix_append_append_iff {s : List α} (hs : s ≠ []) (hsep : Disjoint s w) :
    w <:+: a ++ s ++ b ↔ w <:+: a ∨ w <:+: b := by
  induction s generalizing a with
  | nil => exact absurd rfl hs
  | cons c s ih =>
    obtain ⟨hc, hsep⟩ := disjoint_cons_left.mp hsep
    rw [append_assoc, cons_append, infix_append_cons_iff hc]
    cases s with
    | nil => rw [nil_append]
    | cons d s =>
      have hrest : w <:+: [] ++ (d :: s) ++ b ↔ w <:+: [] ∨ w <:+: b :=
        ih (cons_ne_nil _ _) hsep
      rw [nil_append] at hrest
      rw [hrest]
      -- what lies in nothing lies in everything
      have hnil : w <:+: ([] : List α) → w <:+: a := fun h => by
        rw [infix_nil.mp h]
        exact nil_infix
      exact ⟨fun h => h.elim .inl fun h => h.elim (.inl ∘ hnil) .inr, fun h => h.imp_right .inr⟩

/-- A word lies in parts that are joined by a separator exactly when it lies in one of them. -/
theorem infix_intercalate_iff {s : List α} (hs : s ≠ []) (hsep : Disjoint s w)
    {parts : List (List α)} (hw : w ≠ []) :
    w <:+: s.intercalate parts ↔ ∃ part ∈ parts, w <:+: part := by
  induction parts with
  | nil => simp [intercalate, hw]
  | cons part parts ih =>
    cases parts with
    | nil => simp [intercalate]
    | cons part' parts =>
      rw [intercalate_cons_cons, infix_append_append_iff hs hsep, ih]
      simp

/-- Two neighbours in a glued text are neighbours in one of its parts, or stand where the parts
    meet. -/
theorem pair_infix_append_iff {x y : α} : [x, y] <:+: a ++ b ↔
    [x, y] <:+: a ∨ [x, y] <:+: b ∨ [x] <:+ a ∧ [y] <+: b := by
  rw [infix_append_iff_ne_nil]
  refine or_congr_right (or_congr_right ⟨?_, fun ⟨hx, hy⟩ => ?_⟩)
  · rintro ⟨u, v, hu, hv, hpair, hsuffix, hprefix⟩
    obtain ⟨x', rfl⟩ : ∃ x', u = [x'] := by
      -- each part has one of the two
      have hlength := congrArg length hpair
      have hu := length_pos_iff.mpr hu
      have hv := length_pos_iff.mpr hv
      rw [length_append] at hlength
      simp only [length_cons, length_nil] at hlength
      exact length_eq_one_iff.mp (by omega)
    cases hpair
    exact ⟨hsuffix, hprefix⟩
  · exact ⟨[x], [y], cons_ne_nil _ _, cons_ne_nil _ _, rfl, hx, hy⟩

end List
