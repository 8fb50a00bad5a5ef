import Mathlib.Data.List.Basic

/-!
# Fields between separators

A field ends where the separator first occurs, and starts after its last occurrence. So fields
without the separator can be read off a text from either end.

## Key results

- `append_cons_inj_left` / `append_cons_inj_right`: the field before the first and after the
  last separator are determined by the text
-/

namespace List

variable {α : Type*} {sep : α} {field field' : List α}

/-- The field before the first separator. -/
theorem append_cons_inj_left (h : sep ∉ field) (h' : sep ∉ field') (rest rest' : List α) :
    field ++ sep :: rest = field' ++ sep :: rest' ↔ field = field' ∧ rest = rest' := by
  constructor
  · intro htext
    induction field generalizing field' with
    | nil =>
      cases field' with
      | nil => exact ⟨rfl, (cons.inj htext).2⟩
      | cons x field' => exact absurd ((cons.inj htext).1 ▸ mem_cons_self) h'
    -- the fields are compared character by character
    | cons x field ih =>
      cases field' with
      | nil => exact absurd ((cons.inj htext).1 ▸ mem_cons_self) h
      | cons x' field' =>
        obtain ⟨rfl, htail⟩ := cons.inj htext
        obtain ⟨rfl, hrest⟩ :=
          ih (not_mem_of_not_mem_cons h) (not_mem_of_not_mem_cons h') htail
        exact ⟨rfl, hrest⟩
  · rintro ⟨rfl, rfl⟩
    rfl

/-- The field after the last separator. -/
theorem append_cons_inj_right (h : sep ∉ field) (h' : sep ∉ field') (rest rest' : List α) :
    rest ++ sep :: field = rest' ++ sep :: field' ↔ rest = rest' ∧ field = field' := by
  have hreverse := append_cons_inj_left (mt mem_reverse.mp h) (mt mem_reverse.mp h')
    rest.reverse rest'.reverse
  rw [← reverse_inj, reverse_append, reverse_append, reverse_cons, reverse_cons, append_assoc,
    append_assoc, singleton_append, singleton_append, hreverse, reverse_inj, reverse_inj, and_comm]

end List
