import Mathlib.Algebra.BigOperators.Group.List.Basic
import Mathlib.Algebra.Group.Basic

/-!
# A balance stored next to its journal

A journal keeps every entry ever posted, and a balance that is stored beside them
rather than computed from them. The balance is in sync when it is what the entries add
up to. A posting is a read-modify-write: it stores the sum of its own entries and of a
reading taken at some earlier time, so it keeps the balance in sync exactly when that
reading is still current.
-/

/-- The entries posted so far and the balance stored next to them. -/
structure Journal (A : Type*) where
  entries : List A
  balance : A

namespace Journal

variable {A : Type*} [AddCommGroup A] {opening read : A} {j : Journal A} {new : List A}

/-- The balance is the opening balance and everything posted since. -/
def InSync (opening : A) (j : Journal A) : Prop := j.balance = opening + j.entries.sum

/-- Post entries and store the balance they give on top of a reading. -/
def post (j : Journal A) (read : A) (new : List A) : Journal A where
  entries := j.entries ++ new
  balance := read + new.sum

/-- Post entries and leave the stored balance as it is. -/
def postAside (j : Journal A) (new : List A) : Journal A where
  entries := j.entries ++ new
  balance := j.balance

/-- A journal without entries is in sync with the opening. -/
theorem inSync_nil : InSync opening ⟨[], opening⟩ := by simp [InSync]

/-- A posting keeps the balance in sync exactly when its reading is current. -/
theorem InSync.post_iff (h : j.InSync opening) :
    (j.post read new).InSync opening ↔ read = j.balance := by
  unfold InSync at h ⊢
  rw [post, List.sum_append, ← add_assoc, ← h]
  exact add_left_inj new.sum

/-- Entries that do not reach the balance must cancel out. -/
theorem InSync.postAside_iff (h : j.InSync opening) :
    (j.postAside new).InSync opening ↔ new.sum = 0 := by
  unfold InSync at h ⊢
  rw [postAside, List.sum_append, ← add_assoc, ← h]
  exact left_eq_add

end Journal
