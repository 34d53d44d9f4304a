import Mathlib

/-!
The least elements of a list, collected one element at a time.

`keep` puts an element into a sorted list of at most `n` elements and drops the
largest when there are too many, as a bounded heap does. `keep_least` says that what it
holds are the `n` least elements so far (`least`), and `least_perm` that these do not
depend on the order in which the elements came. `IsFirst` is about a single first element that
is kept while a set grows.
-/

namespace Least

variable {α : Type} (r : α → α → Prop) [DecidableRel r] {n : Nat} {a : α} {l l' : List α}

/-- One more element for a sorted list of at most `n`. -/
def keep (n : Nat) (kept : List α) (a : α) : List α :=
  let grown := kept.orderedInsert r a
  if n < grown.length then grown.dropLast else grown

/-- The `n` least elements, in order. -/
def least (n : Nat) (l : List α) : List α := (l.insertionSort r).take n

theorem take_orderedInsert (n : Nat) (a : α) (l : List α) :
    ((l.take n).orderedInsert r a).take n = (l.orderedInsert r a).take n := by
  induction l generalizing n with
  | nil => simp
  | cons b l ih =>
      cases n with
      | zero => simp
      | succ n =>
          rw [List.take_succ_cons, List.orderedInsert_cons, List.orderedInsert_cons]
          split
          · cases n <;> simp [List.take_take]
          · rw [List.take_succ_cons, List.take_succ_cons, ih]

theorem keep_eq_take (h : l.length ≤ n) : keep r n l a = (l.orderedInsert r a).take n := by
  have hlength : (l.orderedInsert r a).length = l.length + 1 := List.orderedInsert_length r l a
  simp only [keep]
  split
  · rw [List.dropLast_eq_take]
    congr 1
    omega
  · rw [List.take_of_length_le (by omega)]

theorem length_least : (least r n l).length = min n l.length := by
  simp [least]

theorem keep_least : keep r n (least r n l) a = least r n (a :: l) := by
  have hlength : (least r n l).length ≤ n := by
    rw [length_least]
    exact Nat.min_le_left _ _
  rw [keep_eq_take r hlength, least, take_orderedInsert]
  rfl

theorem mem_of_mem_least (h : a ∈ least r n l) : a ∈ l :=
  (List.mem_insertionSort r).1 (List.mem_of_mem_take h)

theorem nodup_map_least {β : Type} {f : α → β} (h : (l.map f).Nodup) :
    ((least r n l).map f).Nodup :=
  (((List.perm_insertionSort r l).map f).nodup_iff.2 h).sublist ((List.take_sublist _ _).map f)

variable [Std.Total r] [IsTrans α r]

theorem pairwise_least : (least r n l).Pairwise r :=
  (List.pairwise_insertionSort r l).sublist (List.take_sublist _ _)

/-- An element that is left out is not below any that is kept, and the list is full. -/
theorem mem_least_or (h : a ∈ l) :
    a ∈ least r n l ∨ (least r n l).length = n ∧ ∀ b ∈ least r n l, r b a := by
  have hmem : a ∈ l.insertionSort r := (List.mem_insertionSort r).2 h
  rw [← List.take_append_drop n (l.insertionSort r), List.mem_append] at hmem
  rcases hmem with hmem | hmem
  · exact .inl hmem
  · refine .inr ⟨?_, fun b hb => ?_⟩
    · have hdrop : 0 < ((l.insertionSort r).drop n).length := List.length_pos_of_mem hmem
      rw [List.length_drop, List.length_insertionSort] at hdrop
      rw [length_least]
      omega
    · have hsorted := List.pairwise_insertionSort r l
      rw [← List.take_append_drop n (l.insertionSort r), List.pairwise_append] at hsorted
      exact hsorted.2.2 b hb a hmem

theorem least_perm [Std.Antisymm r] (h : l.Perm l') : least r n l = least r n l' := by
  have hperm : (l.insertionSort r).Perm (l'.insertionSort r) :=
    ((List.perm_insertionSort r l).trans h).trans (List.perm_insertionSort r l').symm
  rw [least, least, List.Perm.eq_of_pairwise' (List.pairwise_insertionSort r l)
    (List.pairwise_insertionSort r l') hperm]

/-! ### The first element of a set -/

/-- The option holds a first element of the set, or the set is empty. -/
def IsFirst (r : α → α → Prop) (s : Set α) : Option α → Prop
  | none => s = ∅
  | some a => a ∈ s ∧ ∀ b ∈ s, r a b

/-- With one more element, the first is the one of the two that `pick` takes. -/
theorem IsFirst.insert {r : α → α → Prop} [Std.Refl r] [IsTrans α r] {s : Set α} {first : Option α}
    {pick : α → α → α} (hpick : ∀ a b, pick a b = a ∧ r a b ∨ pick a b = b ∧ r b a)
    (h : IsFirst r s first) (b : α) :
    IsFirst r (insert b s) (some (first.elim b fun a => pick a b)) := by
  cases first with
  | none =>
      have hempty : s = ∅ := h
      subst hempty
      exact ⟨Set.mem_insert _ _, fun c hc => hc.resolve_right (Set.notMem_empty c) ▸ refl_of r b⟩
  | some a =>
      obtain ⟨hmem, hfirst⟩ := h
      rcases hpick a b with ⟨heq, hle⟩ | ⟨heq, hle⟩
      · refine ⟨by simp [heq, hmem], ?_⟩
        rintro c (rfl | hc)
        · simpa [heq] using hle
        · simpa [heq] using hfirst c hc
      · refine ⟨by simp [heq], ?_⟩
        rintro c (rfl | hc)
        · simpa [heq] using refl_of r c
        · simpa [heq] using trans_of r hle (hfirst c hc)

end Least
