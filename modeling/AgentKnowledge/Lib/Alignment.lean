import Mathlib

/-!
Two lists that coincide outside of some spans.

`Differs old new a b spans` says that from position `a` of the old list and `b` of the
new one on, the lists are equal apart from the spans. Then the new list is the old one
with the old side of every span replaced by its new side (`Differs.patch_eq`), and what
lies between the spans is a common sublist (`Differs.common`).
-/

namespace Alignment

variable {α : Type}

/-- A range of each list. -/
structure Span where
  oldStart : Nat
  oldEnd : Nat
  newStart : Nat
  newEnd : Nat
deriving DecidableEq

/-- `l[i..j]`. -/
def slice (l : List α) (i j : Nat) : List α := (l.drop i).take (j - i)

/-- The lists agree on `count` elements from these positions on. -/
structure Block (old new : List α) (a b count : Nat) : Prop where
  oldBound : a + count ≤ old.length
  newBound : b + count ≤ new.length
  same : ∀ i < count, old[a + i]? = new[b + i]?

/-- From `a` and `b` on, the lists are equal outside of the spans. -/
inductive Differs (old new : List α) : Nat → Nat → List Span → Prop
  | done {a b count} : Block old new a b count → a + count = old.length → b + count = new.length →
      Differs old new a b []
  | span {a b count span spans} : Block old new a b count → span.oldStart = a + count →
      span.newStart = b + count → span.oldStart ≤ span.oldEnd → span.newStart ≤ span.newEnd →
      span.oldEnd ≤ old.length → span.newEnd ≤ new.length →
      Differs old new span.oldEnd span.newEnd spans → Differs old new a b (span :: spans)

/-- The old list from `a` to `stop`, with the new side of every span in place of its old
side. -/
def patch (old new : List α) (a stop : Nat) : List Span → List α
  | [] => slice old a stop
  | span :: spans =>
      slice old a span.oldStart ++ slice new span.newStart span.newEnd ++
        patch old new span.oldEnd stop spans

/-- How many elements a span removes and adds. -/
def Span.cost (span : Span) : Nat := (span.oldEnd - span.oldStart) + (span.newEnd - span.newStart)

section Blocks

variable {old new : List α} {a b count i j : Nat} {spans : List Span}

theorem Block.sub (h : Block old new a b count) (first length : Nat) (hle : first + length ≤ count) :
    Block old new (a + first) (b + first) length where
  oldBound := by have := h.oldBound; omega
  newBound := by have := h.newBound; omega
  same i hi := by
    rw [Nat.add_assoc, Nat.add_assoc]
    exact h.same (first + i) (by omega)

theorem block_zero (hold : a ≤ old.length) (hnew : b ≤ new.length) : Block old new a b 0 :=
  ⟨hold, hnew, by simp⟩

theorem Block.append {count' : Nat} (h : Block old new a b count)
    (h' : Block old new (a + count) (b + count) count') : Block old new a b (count + count') where
  oldBound := by have := h'.oldBound; omega
  newBound := by have := h'.newBound; omega
  same i hi := by
    by_cases hlt : i < count
    · exact h.same i hlt
    · have hsame := h'.same (i - count) (by omega)
      rwa [show a + count + (i - count) = a + i by omega,
        show b + count + (i - count) = b + i by omega] at hsame

theorem Block.slice_eq (h : Block old new a b count) :
    slice old a (a + count) = slice new b (b + count) := by
  unfold slice
  rw [Nat.add_sub_cancel_left, Nat.add_sub_cancel_left]
  refine List.ext_getElem? fun i => ?_
  simp only [List.getElem?_take, List.getElem?_drop]
  split
  · rename_i hi
    exact h.same i hi
  · rfl

/-- Equal elements before the spans. -/
theorem Block.differs (h : Block old new a b count)
    (hrest : Differs old new (a + count) (b + count) spans) : Differs old new a b spans := by
  cases hrest with
  | done h' hold hnew => exact .done (h.append h') (by omega) (by omega)
  | span h' hold hnew hole hnle hoend hnend hrest =>
      exact .span (h.append h') (by omega) (by omega) hole hnle hoend hnend hrest

theorem drop_eq_slice_append (l : List α) (h : i ≤ j) : l.drop i = slice l i j ++ l.drop j := by
  have hdrop : l.drop j = (l.drop i).drop (j - i) := by
    rw [List.drop_drop]
    congr 1
    omega
  rw [slice, hdrop, List.take_append_drop]

theorem slice_append_slice (l : List α) {k : Nat} (hij : i ≤ j) (hjk : j ≤ k) :
    slice l i j ++ slice l j k = slice l i k := by
  have hdrop : l.drop j = (l.drop i).drop (j - i) := by
    rw [List.drop_drop]
    congr 1
    omega
  rw [slice, slice, slice, hdrop, ← List.take_add]
  congr 1
  omega

/-- The new list up to a span is the old one up to it, with the spans before replaced. -/
theorem Differs.patch_to {span : Span} {before after : List Span}
    (h : Differs old new a b (before ++ span :: after)) :
    patch old new a span.oldStart before = slice new b span.newStart ∧ b ≤ span.newStart := by
  induction before generalizing a b with
  | nil =>
      cases h with
      | span hblock hold hnew =>
          rw [patch, hold, hnew, hblock.slice_eq]
          exact ⟨rfl, by omega⟩
  | cons first before ih =>
      cases h with
      | @span _ _ count _ _ hblock hold hnew hole hnle hoend hnend hrest =>
          obtain ⟨hpatch, hle⟩ := ih hrest
          rw [patch, hpatch, hold, hblock.slice_eq, ← hnew, List.append_assoc,
            slice_append_slice new hnle hle, slice_append_slice new (by omega) (by omega)]
          exact ⟨rfl, by omega⟩

/-- The new list is the old one with the spans replaced. -/
theorem Differs.patch_eq (h : Differs old new a b spans) :
    patch old new a old.length spans = slice new b new.length ∧ b ≤ new.length := by
  induction h with
  | @done a b count hblock hold hnew =>
      have hslice := hblock.slice_eq
      rw [hold, hnew] at hslice
      exact ⟨hslice, by omega⟩
  | @span a b count span spans hblock hold hnew hole hnle hoend hnend hrest ih =>
      rw [patch, ih.1, hold, hblock.slice_eq, ← hnew, List.append_assoc,
        slice_append_slice new hnle ih.2, slice_append_slice new (by omega) (by omega)]
      exact ⟨rfl, by omega⟩

theorem Differs.bounds (h : Differs old new a b spans) :
    ∀ span ∈ spans, span.oldStart ≤ span.oldEnd ∧ span.newStart ≤ span.newEnd ∧
      span.oldEnd ≤ old.length ∧ span.newEnd ≤ new.length := by
  induction h with
  | done => simp
  | span hblock hold hnew hole hnle hoend hnend hrest ih =>
      intro other hother
      rcases List.mem_cons.1 hother with rfl | hother
      · exact ⟨hole, hnle, hoend, hnend⟩
      · exact ih other hother

/-- What the spans leave alone is a common sublist. -/
theorem Differs.common (h : Differs old new a b spans) :
    ∃ common : List α, common.Sublist (old.drop a) ∧ common.Sublist (new.drop b) ∧
      (spans.map Span.cost).sum + 2 * common.length = (old.length - a) + (new.length - b) := by
  induction h with
  | @done a b count hblock hold hnew =>
      refine ⟨slice old a (a + count), List.take_sublist _ _, ?_, ?_⟩
      · rw [hblock.slice_eq]
        exact List.take_sublist _ _
      · simp only [slice, List.length_take, List.length_drop, List.map_nil, List.sum_nil]
        omega
  | @span a b count span spans hblock hold hnew hole hnle hoend hnend hrest ih =>
      obtain ⟨common, hsubold, hsubnew, hcost⟩ := ih
      have hsub : ∀ (l : List α) (i j k : Nat), i ≤ j → j ≤ k → common.Sublist (l.drop k) →
          (slice l i j ++ common).Sublist (l.drop i) := by
        intro l i j k hij hjk hcommon
        rw [drop_eq_slice_append l hij]
        exact (List.Sublist.refl _).append (hcommon.trans (List.drop_sublist_drop_left l hjk))
      refine ⟨slice old a (a + count) ++ common, hsub old _ _ _ (by omega) (by omega) hsubold, ?_, ?_⟩
      · rw [hblock.slice_eq]
        exact hsub new _ _ _ (by omega) (by omega) hsubnew
      · have hbound := hblock.oldBound
        simp only [slice, List.length_append, List.length_take, List.length_drop, List.map_cons,
          List.sum_cons, Span.cost]
        omega

end Blocks

section Slices

variable {old new : List α} {front back : Nat}

theorem getElem?_slice {l : List α} {i j k : Nat} {a : α} (h : (slice l i j)[k]? = some a) :
    l[i + k]? = some a := by
  rw [slice, List.getElem?_take] at h
  split at h
  · rwa [List.getElem?_drop] at h
  · cases h

/-- A common sublist, without as many elements as are cut off at both ends. -/
theorem exists_sublist_slice {common : List α} (hold : common.Sublist old)
    (hnew : common.Sublist new) :
    ∃ inner : List α, inner.Sublist (slice old front (old.length - back)) ∧
      inner.Sublist (slice new front (new.length - back)) ∧
      common.length ≤ front + back + inner.length := by
  have hsub : ∀ l : List α, common.Sublist l →
      (((common.drop front).reverse.drop back).reverse).Sublist (slice l front (l.length - back)) := by
    intro l hcommon
    have hcut : ((l.drop front).reverse.drop back).reverse = slice l front (l.length - back) := by
      rw [List.drop_reverse, List.reverse_reverse, slice, List.length_drop]
      congr 1
      omega
    rw [← hcut]
    exact ((hcommon.drop front).reverse.drop back).reverse
  refine ⟨_, hsub old hold, hsub new hnew, ?_⟩
  simp only [List.length_reverse, List.length_drop]
  omega

end Slices

end Alignment
