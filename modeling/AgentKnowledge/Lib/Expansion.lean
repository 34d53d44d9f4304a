import Mathlib

/-!
Lists that are expanded element by element, and positions in the expansion.

An element of the source becomes a piece, and the expansion is the pieces one after the other
(`List.flatten`). `reach pieces i` is where the piece with number `i` begins. Positions may be
counted in elements or by a weight, such as the length of an encoding: `leadingWithin` finds the
piece of a position from the weights alone (`leadingWithin_spec`).

A range of the expansion touches the pieces it overlaps (`touched`). They follow each other, so a
window of the source that begins a little before the first of them holds them all if they are few
(`touched_in_window`).
-/

namespace Expansion

variable {α β : Type}

/-! ### The first occurrence -/

/-- Where a list occurs in another for the first time. -/
def firstMatch [DecidableEq β] (needle : List β) : List β → Option Nat
  | [] => if needle = [] then some 0 else none
  | b :: rest =>
      if needle <+: b :: rest then some 0 else (firstMatch needle rest).map (· + 1)

section FirstMatch

variable [DecidableEq β] {needle l : List β} {k : Nat}

theorem firstMatch_eq_some (h : firstMatch needle l = some k) :
    needle <+: l.drop k ∧ ∀ j < k, ¬ needle <+: l.drop j := by
  induction l generalizing k with
  | nil =>
      simp only [firstMatch, Option.ite_none_right_eq_some, Option.some.injEq] at h
      obtain ⟨rfl, rfl⟩ := h
      simp
  | cons b rest ih =>
      simp only [firstMatch] at h
      split at h
      · rename_i hhere
        obtain rfl := Option.some.inj h
        exact ⟨hhere, by simp⟩
      · rename_i hhere
        obtain ⟨later, hlater, rfl⟩ := Option.map_eq_some_iff.1 h
        obtain ⟨hfound, hfirst⟩ := ih hlater
        refine ⟨hfound, fun j hj => ?_⟩
        cases j with
        | zero => exact hhere
        | succ j => exact hfirst j (by omega)

theorem firstMatch_isSome : (firstMatch needle l).isSome ↔ needle <:+: l := by
  induction l with
  | nil =>
      simp only [firstMatch, List.infix_nil]
      split <;> simp [*]
  | cons b rest ih =>
      simp only [firstMatch, List.infix_cons_iff, ← ih]
      split <;> simp [*]

end FirstMatch

/-! ### Weights -/

/-- The weight of a list. -/
def weight (w : β → Nat) (l : List β) : Nat := (l.map w).sum

@[simp] theorem weight_append (w : β → Nat) (l l' : List β) :
    weight w (l ++ l') = weight w l + weight w l' := by
  simp [weight]

theorem weight_pos {w : β → Nat} (hw : ∀ b, 0 < w b) {l : List β} (hl : l ≠ []) :
    0 < weight w l := by
  obtain ⟨b, rest, rfl⟩ := List.exists_cons_of_ne_nil hl
  have := hw b
  simp only [weight, List.map_cons, List.sum_cons]
  omega

/-- A proper beginning weighs less. -/
theorem weight_take_lt {w : β → Nat} (hw : ∀ b, 0 < w b) {l : List β} {k : Nat}
    (hk : k < l.length) : weight w (l.take k) < weight w l := by
  have hrest : 0 < weight w (l.drop k) := weight_pos hw (by simpa using hk)
  calc weight w (l.take k) < weight w (l.take k) + weight w (l.drop k) := by omega
    _ = weight w l := by rw [← weight_append, List.take_append_drop]

/-! ### The piece of a position -/

/-- Where a piece begins. -/
def reach (pieces : List (List β)) (i : Nat) : Nat := (pieces.take i).flatten.length

@[simp] theorem reach_zero (pieces : List (List β)) : reach pieces 0 = 0 := by
  simp [reach]

@[simp] theorem reach_cons_succ (piece : List β) (pieces : List (List β)) (i : Nat) :
    reach (piece :: pieces) (i + 1) = piece.length + reach pieces i := by
  simp [reach]

theorem reach_mono (pieces : List (List β)) {i j : Nat} (h : i ≤ j) :
    reach pieces i ≤ reach pieces j := by
  unfold reach
  exact ((List.take_prefix_take_left h).flatten).length_le

/-- The number of leading elements whose costs, summed up, stay within a limit. -/
def leadingWithin (cost : α → Nat) (limit : Nat) : Nat → List α → Nat
  | _, [] => 0
  | spent, a :: rest =>
      if spent + cost a ≤ limit then leadingWithin cost limit (spent + cost a) rest + 1 else 0

/-- The weights of the elements show the piece of a position. -/
theorem leadingWithin_spec {w : β → Nat} (hw : ∀ b, 0 < w b) {cost : α → Nat} {source : List α}
    {pieces : List (List β)}
    (hpieces : List.Forall₂ (fun a piece => weight w piece = cost a) source pieces)
    {k : Nat} (hk : k < pieces.flatten.length) (spent : Nat) :
    let i := leadingWithin cost (spent + weight w (pieces.flatten.take k)) spent source
    i < source.length ∧ reach pieces i ≤ k ∧ k < reach pieces (i + 1) := by
  induction hpieces generalizing k spent with
  | nil => simp at hk
  | @cons a piece source pieces hpiece hrest ih =>
      rw [List.flatten_cons] at hk ⊢
      by_cases hpast : piece.length ≤ k
      · -- the position lies in a later piece
        have htake : (piece ++ pieces.flatten).take k =
            piece ++ pieces.flatten.take (k - piece.length) := by
          rw [List.take_append, List.take_of_length_le hpast]
        have hwithin : spent + cost a ≤ spent + weight w ((piece ++ pieces.flatten).take k) := by
          rw [htake, weight_append, hpiece]
          omega
        have hlater : k - piece.length < pieces.flatten.length := by
          rw [List.length_append] at hk
          omega
        have hsum : spent + weight w ((piece ++ pieces.flatten).take k) =
            spent + cost a + weight w (pieces.flatten.take (k - piece.length)) := by
          rw [htake, weight_append, hpiece]
          omega
        obtain ⟨hlt, hle, hreach⟩ := ih hlater (spent + cost a)
        simp only [leadingWithin, if_pos hwithin, reach_cons_succ, List.length_cons]
        rw [hsum]
        omega
      · have htake : (piece ++ pieces.flatten).take k = piece.take k := by
          rw [List.take_append_of_le_length (by omega)]
        have hover : ¬ spent + cost a ≤ spent + weight w ((piece ++ pieces.flatten).take k) := by
          have := weight_take_lt hw (show k < piece.length by omega)
          rw [htake, ← hpiece]
          omega
        simp only [leadingWithin, if_neg hover, reach_zero, reach_cons_succ, List.length_cons]
        omega

/-! ### The pieces of a range -/

/-- The pieces that a range of the expansion overlaps. -/
def touched (pieces : List (List β)) (k n : Nat) : List Nat :=
  (List.range pieces.length).filter fun i => reach pieces i < k + n ∧ k < reach pieces (i + 1)

theorem mem_touched {pieces : List (List β)} {k n i : Nat} :
    i ∈ touched pieces k n ↔
      i < pieces.length ∧ reach pieces i < k + n ∧ k < reach pieces (i + 1) := by
  simp [touched]

/-- The pieces of a range follow each other from the one it begins in. -/
theorem length_touched {pieces : List (List β)} {k n first i : Nat} (hfirst : reach pieces first ≤ k)
    (hnext : k < reach pieces (first + 1)) (hi : i ∈ touched pieces k n) :
    first ≤ i ∧ i - first + 1 ≤ (touched pieces k n).length := by
  obtain ⟨hlt, hbegin, hend⟩ := mem_touched.1 hi
  have hle : first ≤ i := by
    by_contra hbefore
    have := reach_mono pieces (show i + 1 ≤ first by omega)
    omega
  have hsub : List.range' first (i - first + 1) ⊆ touched pieces k n := by
    intro j hj
    obtain ⟨hfj, hji⟩ := List.mem_range'_1.1 hj
    have hjbegin := reach_mono pieces (show j ≤ i by omega)
    have hjend := reach_mono pieces (show first + 1 ≤ j + 1 by omega)
    exact mem_touched.2 ⟨by omega, by omega, by omega⟩
  have hlength := (List.Nodup.subperm List.nodup_range' hsub).length_le
  rw [List.length_range'] at hlength
  exact ⟨hle, hlength⟩

/-- A window that begins at most `lead` before a range holds the pieces of the range, if they fit
in what is left of the window. -/
theorem touched_in_window {pieces : List (List β)} {k n first lead width i : Nat}
    (hfirst : reach pieces first ≤ k) (hnext : k < reach pieces (first + 1))
    (hlead : lead ≤ width) (hfits : (touched pieces k n).length ≤ width - lead)
    (hi : i ∈ touched pieces k n) : first - lead ≤ i ∧ i < first - lead + width := by
  obtain ⟨hle, hlength⟩ := length_touched hfirst hnext hi
  omega

end Expansion
