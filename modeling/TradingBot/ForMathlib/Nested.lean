import Mathlib.Data.List.Perm.Basic
import Mathlib.Algebra.BigOperators.Group.List.Basic
import Mathlib.Algebra.GroupWithZero.Nat

/-!
# Nested lists and dictionaries

Values that are built of atoms, lists and dictionaries at any depth. Two of them may agree
except for what is stored under certain keys, and may be the same up to the order of their
entries.
-/

/-- A dictionary is the list of its entries. -/
inductive Nested (K A : Type) where
  | atom (a : A)
  | list (items : List (Nested K A))
  | dict (entries : List (K × Nested K A))

namespace Nested

variable {K A : Type} {S : K → Prop}

/-! ## Agreement except under some keys -/

section AgreeOff

variable (S)

mutual

/-- Two values are equal except for what is stored under the keys of a set. -/
def AgreeOff : Nested K A → Nested K A → Prop
  | atom a, atom b => a = b
  | list xs, list ys => AgreeOffItems xs ys
  | dict es, dict fs => AgreeOffEntries es fs
  | _, _ => False

def AgreeOffItems : List (Nested K A) → List (Nested K A) → Prop
  | [], [] => True
  | x :: xs, y :: ys => AgreeOff x y ∧ AgreeOffItems xs ys
  | _, _ => False

def AgreeOffEntries : List (K × Nested K A) → List (K × Nested K A) → Prop
  | [], [] => True
  | (k, v) :: es, (l, w) :: fs => k = l ∧ (S k ∨ AgreeOff v w) ∧ AgreeOffEntries es fs
  | _, _ => False

end

mutual

/-- A key of the set occurs somewhere in the value. -/
def HasKey : Nested K A → Prop
  | atom _ => False
  | list xs => ItemsHaveKey xs
  | dict es => EntriesHaveKey es

def ItemsHaveKey : List (Nested K A) → Prop
  | [] => False
  | x :: xs => HasKey x ∨ ItemsHaveKey xs

def EntriesHaveKey : List (K × Nested K A) → Prop
  | [] => False
  | (k, v) :: es => S k ∨ HasKey v ∨ EntriesHaveKey es

end

mutual

/-- A key of the set occurs inside a list that is not itself stored under such a key. -/
def ListHasKey : Nested K A → Prop
  | atom _ => False
  | list xs => ItemsHaveKey S xs
  | dict es => EntryListHasKey es

def EntryListHasKey : List (K × Nested K A) → Prop
  | [] => False
  | (k, v) :: es => (¬S k ∧ ListHasKey v) ∨ EntryListHasKey es

end

end AgreeOff

mutual

/-- A value agrees with itself off any keys. -/
theorem AgreeOff.refl : ∀ v : Nested K A, AgreeOff S v v
  | atom a => by rw [AgreeOff]
  | list xs => by
    rw [AgreeOff]
    exact AgreeOffItems.refl xs
  | dict es => by
    rw [AgreeOff]
    exact AgreeOffEntries.refl es

/-- So does a list of values. -/
theorem AgreeOffItems.refl : ∀ xs : List (Nested K A), AgreeOffItems S xs xs
  | [] => trivial
  | x :: xs => ⟨AgreeOff.refl x, AgreeOffItems.refl xs⟩

/-- So does a mapping. -/
theorem AgreeOffEntries.refl : ∀ es : List (K × Nested K A), AgreeOffEntries S es es
  | [] => trivial
  | (_, v) :: es => ⟨rfl, .inr (AgreeOff.refl v), AgreeOffEntries.refl es⟩

end

mutual

/-- Values that agree are equal where no key of the set occurs. -/
theorem AgreeOff.eq_of_not_hasKey : ∀ {v w : Nested K A}, AgreeOff S v w → ¬HasKey S v → v = w
  | atom a, atom b, h, _ => by
    rw [AgreeOff] at h
    rw [h]
  | list xs, list ys, h, hnone => by
    rw [AgreeOff] at h
    rw [HasKey] at hnone
    rw [AgreeOffItems.eq_of_not_hasKey h hnone]
  | dict es, dict fs, h, hnone => by
    rw [AgreeOff] at h
    rw [HasKey] at hnone
    rw [AgreeOffEntries.eq_of_not_hasKey h hnone]

/-- Lists without such keys that agree off them are equal. -/
theorem AgreeOffItems.eq_of_not_hasKey : ∀ {xs ys : List (Nested K A)}, AgreeOffItems S xs ys →
    ¬ItemsHaveKey S xs → xs = ys
  | [], [], _, _ => rfl
  | x :: xs, y :: ys, h, hnone => by
    obtain ⟨hx, hxs⟩ := h
    obtain ⟨hnox, hnoxs⟩ := not_or.mp hnone
    rw [AgreeOff.eq_of_not_hasKey hx hnox, AgreeOffItems.eq_of_not_hasKey hxs hnoxs]

/-- Mappings without such keys that agree off them are equal. -/
theorem AgreeOffEntries.eq_of_not_hasKey : ∀ {es fs : List (K × Nested K A)},
    AgreeOffEntries S es fs → ¬EntriesHaveKey S es → es = fs
  | [], [], _, _ => rfl
  | (k, v) :: es, (l, w) :: fs, h, hnone => by
    obtain ⟨rfl, hv, hes⟩ := h
    obtain ⟨hnok, hnone⟩ := not_or.mp hnone
    obtain ⟨hnov, hnoes⟩ := not_or.mp hnone
    rw [AgreeOff.eq_of_not_hasKey (hv.resolve_left hnok) hnov,
      AgreeOffEntries.eq_of_not_hasKey hes hnoes]

end

/-! ## Sizes -/

mutual

/-- The number of atoms, lists and dictionaries in a value. -/
def size : Nested K A → ℕ
  | atom _ => 1
  | list xs => 1 + sizeItems xs
  | dict es => 1 + sizeEntries es

def sizeItems : List (Nested K A) → ℕ
  | [] => 0
  | x :: xs => size x + sizeItems xs

def sizeEntries : List (K × Nested K A) → ℕ
  | [] => 0
  | (_, v) :: es => size v + sizeEntries es

end

mutual

/-- Where a key of the set occurs, what is stored under it can be made larger. -/
theorem HasKey.exists_larger : ∀ {v : Nested K A}, HasKey S v →
    ∃ w, AgreeOff S v w ∧ size v < size w
  | atom a, h => by
    rw [HasKey] at h
    exact h.elim
  | list xs, h => by
    rw [HasKey] at h
    -- one of the items can be made larger, and the list with it
    obtain ⟨ys, hagree, hlt⟩ := ItemsHaveKey.exists_larger h
    refine ⟨list ys, ?_, ?_⟩
    · rw [AgreeOff]
      exact hagree
    · rw [size, size]
      exact Nat.add_lt_add_left hlt 1
  | dict es, h => by
    rw [HasKey] at h
    obtain ⟨fs, hagree, hlt⟩ := EntriesHaveKey.exists_larger h
    refine ⟨dict fs, ?_, ?_⟩
    · rw [AgreeOff]
      exact hagree
    · rw [size, size]
      exact Nat.add_lt_add_left hlt 1

/-- A list with such a key agrees off the keys with a larger one. -/
theorem ItemsHaveKey.exists_larger : ∀ {xs : List (Nested K A)}, ItemsHaveKey S xs →
    ∃ ys, AgreeOffItems S xs ys ∧ sizeItems xs < sizeItems ys
  | x :: xs, h => by
    rcases h with hx | hxs
    · obtain ⟨y, hagree, hlt⟩ := HasKey.exists_larger hx
      exact ⟨y :: xs, ⟨hagree, AgreeOffItems.refl xs⟩, Nat.add_lt_add_right hlt _⟩
    · obtain ⟨ys, hagree, hlt⟩ := ItemsHaveKey.exists_larger hxs
      exact ⟨x :: ys, ⟨AgreeOff.refl x, hagree⟩, Nat.add_lt_add_left hlt _⟩

/-- A mapping with such a key agrees off the keys with a larger one: the value under the key is
    replaced by a larger value. -/
theorem EntriesHaveKey.exists_larger : ∀ {es : List (K × Nested K A)}, EntriesHaveKey S es →
    ∃ fs, AgreeOffEntries S es fs ∧ sizeEntries es < sizeEntries fs
  | (k, v) :: es, h => by
    rcases h with hk | hv | hes
    · -- a value under a key of the set is free: one more list around it
      refine ⟨(k, list [v]) :: es, ⟨rfl, .inl hk, AgreeOffEntries.refl es⟩, ?_⟩
      simp only [sizeEntries, size, sizeItems]
      omega
    · obtain ⟨w, hagree, hlt⟩ := HasKey.exists_larger hv
      exact ⟨(k, w) :: es, ⟨rfl, .inr hagree, AgreeOffEntries.refl es⟩,
        Nat.add_lt_add_right hlt _⟩
    · obtain ⟨fs, hagree, hlt⟩ := EntriesHaveKey.exists_larger hes
      exact ⟨(k, v) :: fs, ⟨rfl, .inr (AgreeOff.refl v), hagree⟩, Nat.add_lt_add_left hlt _⟩

end

/-! ## Equality up to the order of entries -/

mutual

/-- Two values are the same, but for the order in which dictionaries have their entries. -/
def Same : Nested K A → Nested K A → Prop
  | atom a, atom b => a = b
  | list xs, list ys => SameItems xs ys
  | dict es, dict fs => ∃ gs, SameEntries es gs ∧ gs.Perm fs
  | _, _ => False

def SameItems : List (Nested K A) → List (Nested K A) → Prop
  | [], [] => True
  | x :: xs, y :: ys => Same x y ∧ SameItems xs ys
  | _, _ => False

def SameEntries : List (K × Nested K A) → List (K × Nested K A) → Prop
  | [], [] => True
  | (k, v) :: es, (l, w) :: fs => k = l ∧ Same v w ∧ SameEntries es fs
  | _, _ => False

end

mutual

/-- A value is the same as itself. -/
theorem Same.refl : ∀ v : Nested K A, Same v v
  | atom a => by rw [Same]
  | list xs => by
    rw [Same]
    exact SameItems.refl xs
  | dict es => by
    rw [Same]
    exact ⟨es, SameEntries.refl es, .refl es⟩

/-- So is a list of values. -/
theorem SameItems.refl : ∀ xs : List (Nested K A), SameItems xs xs
  | [] => trivial
  | x :: xs => ⟨Same.refl x, SameItems.refl xs⟩

/-- So is a mapping. -/
theorem SameEntries.refl : ∀ es : List (K × Nested K A), SameEntries es es
  | [] => trivial
  | (_, v) :: es => ⟨rfl, Same.refl v, SameEntries.refl es⟩

end

/-- The size of a mapping is the sum of the sizes of its values. -/
theorem sizeEntries_eq_sum : ∀ es : List (K × Nested K A),
    sizeEntries es = (es.map fun e => size e.2).sum
  | [] => rfl
  | (_, v) :: es => by rw [sizeEntries, sizeEntries_eq_sum es, List.map_cons, List.sum_cons]

/-- The order of the entries does not matter for the size. -/
theorem sizeEntries_perm {es fs : List (K × Nested K A)} (h : es.Perm fs) :
    sizeEntries es = sizeEntries fs := by
  rw [sizeEntries_eq_sum, sizeEntries_eq_sum]
  exact (h.map _).sum_eq

mutual

/-- Values that are the same have the same size. -/
theorem Same.size_eq : ∀ {v w : Nested K A}, Same v w → size v = size w
  | atom a, atom b, _ => rfl
  | list xs, list ys, h => by
    rw [Same] at h
    rw [size, size, SameItems.size_eq h]
  | dict es, dict fs, h => by
    rw [Same] at h
    obtain ⟨gs, hsame, hperm⟩ := h
    rw [size, size, SameEntries.size_eq hsame, sizeEntries_perm hperm]

/-- So have lists of values. -/
theorem SameItems.size_eq : ∀ {xs ys : List (Nested K A)}, SameItems xs ys →
    sizeItems xs = sizeItems ys
  | [], [], _ => rfl
  | x :: xs, y :: ys, h => by
    rw [sizeItems, sizeItems, Same.size_eq h.1, SameItems.size_eq h.2]

/-- So have mappings, whatever the order of their entries. -/
theorem SameEntries.size_eq : ∀ {es fs : List (K × Nested K A)}, SameEntries es fs →
    sizeEntries es = sizeEntries fs
  | [], [], _ => rfl
  | (_, v) :: es, (_, w) :: fs, h => by
    rw [sizeEntries, sizeEntries, Same.size_eq h.2.1, SameEntries.size_eq h.2.2]

end

end Nested
