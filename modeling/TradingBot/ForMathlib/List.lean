import Mathlib.Data.List.Forall2

/-!
# Lists that are related element by element

Each element of one list has its partner in the other.
-/

namespace List.Forall₂

variable {α β : Type*} {R : α → β → Prop} {as : List α} {bs : List β}

/-- Every member on the right has a partner on the left. -/
theorem exists_mem_left (h : Forall₂ R as bs) {b : β} (hb : b ∈ bs) : ∃ a ∈ as, R a b := by
  induction h with
  | nil => exact absurd hb not_mem_nil
  | @cons a b' as bs hab _ ih =>
    rcases mem_cons.mp hb with rfl | hb
    · exact ⟨a, mem_cons_self, hab⟩
    · obtain ⟨a', ha', hab'⟩ := ih hb
      exact ⟨a', mem_cons_of_mem _ ha', hab'⟩

/-- Every member on the left has a partner on the right. -/
theorem exists_mem_right (h : Forall₂ R as bs) {a : α} (ha : a ∈ as) : ∃ b ∈ bs, R a b :=
  h.flip.exists_mem_left ha

/-- Related lists have equal images when related elements have. -/
theorem map_eq {γ : Type*} {f : α → γ} {g : β → γ} (h : Forall₂ R as bs)
    (hfg : ∀ a b, R a b → f a = g b) : as.map f = bs.map g := by
  induction h with
  | nil => rfl
  | cons hab _ ih => rw [map_cons, map_cons, hfg _ _ hab, ih]

/-- A chain is one for the partners when the partners of linked elements are linked. -/
theorem isChain {S : α → α → Prop} {T : β → β → Prop} (h : Forall₂ R as bs)
    (hchain : as.IsChain S) (hlink : ∀ a a' b b', S a a' → R a b → R a' b' → T b b') :
    bs.IsChain T := by
  induction h with
  | nil => exact .nil
  | @cons a b as bs hab htail ih =>
    cases htail with
    | nil => exact .singleton b
    | @cons a' b' as bs hab' _ =>
      obtain ⟨hfirst, hrest⟩ := isChain_cons_cons.mp hchain
      exact isChain_cons_cons.mpr ⟨hlink a a' b b' hfirst hab hab', ih hrest⟩

/-- The last elements of related lists are related. -/
theorem getLast (h : Forall₂ R as bs) (has : as ≠ []) (hbs : bs ≠ []) :
    R (as.getLast has) (bs.getLast hbs) := by
  induction h with
  | nil => exact absurd rfl has
  | @cons a b as bs hab htail ih =>
    cases htail with
    | nil => exact hab
    | cons _ _ =>
      rw [getLast_cons (cons_ne_nil _ _), getLast_cons (cons_ne_nil _ _)]
      exact ih _ _

/-- A list on which every element has a partner is related to a list of partners. -/
theorem exists_of_forall (h : ∀ a ∈ as, ∃ b, R a b) : ∃ bs, Forall₂ R as bs := by
  induction as with
  | nil => exact ⟨[], .nil⟩
  | cons a as ih =>
    obtain ⟨b, hab⟩ := h a mem_cons_self
    obtain ⟨bs, hbs⟩ := ih fun a' ha' => h a' (mem_cons_of_mem _ ha')
    exact ⟨b :: bs, .cons hab hbs⟩

end List.Forall₂
