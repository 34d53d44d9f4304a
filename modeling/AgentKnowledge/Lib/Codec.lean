import Mathlib

/-!
Encodings that need no separator.

An encoding is self-delimiting when a value can be told from any string that starts
with its encoding: two strings that agree, agree on the first value and on what
follows it. Concatenations of such encodings are self-delimiting again, so a stream
that is put together from numbers of a fixed width and from strings with their
lengths in front determines what it was made of. The values an encoding is for are
those in `valid`; a length has to fit in its field.
-/

namespace Codec

variable {α β γ δ : Type*}

/-- What follows an encoded value does not matter. -/
def SelfDelimiting (valid : α → Prop) (encode : α → List γ) : Prop :=
  ∀ ⦃a b⦄, valid a → valid b → ∀ ⦃rest rest'⦄, encode a ++ rest = encode b ++ rest' →
    a = b ∧ rest = rest'

namespace SelfDelimiting

variable {valid : α → Prop} {encode : α → List γ} {valid' : β → Prop} {encode' : β → List γ}

theorem injective (h : SelfDelimiting valid encode) {a b : α} (ha : valid a) (hb : valid b)
    (heq : encode a = encode b) : a = b :=
  (h ha hb (congrArg (· ++ []) heq)).1

/-- Encodings of one length. -/
theorem of_length (width : Nat) (hlength : ∀ a, valid a → (encode a).length = width)
    (hinjective : ∀ a b, valid a → valid b → encode a = encode b → a = b) :
    SelfDelimiting valid encode := by
  intro a b ha hb rest rest' heq
  obtain ⟨hencode, hrest⟩ := List.append_inj heq ((hlength a ha).trans (hlength b hb).symm)
  exact ⟨hinjective a b ha hb hencode, hrest⟩

/-- A part of a value that determines it. -/
theorem comap (h : SelfDelimiting valid' encode') (part : α → β)
    (hvalid : ∀ a, valid a → valid' (part a)) (hpart : ∀ a b, part a = part b → a = b) :
    SelfDelimiting valid fun a => encode' (part a) := by
  intro a b ha hb rest rest' heq
  obtain ⟨hparts, hrest⟩ := h (hvalid a ha) (hvalid b hb) heq
  exact ⟨hpart a b hparts, hrest⟩

/-- One value after another. -/
theorem append (h : SelfDelimiting valid encode) (h' : SelfDelimiting valid' encode') :
    SelfDelimiting (fun p : α × β => valid p.1 ∧ valid' p.2) fun p => encode p.1 ++ encode' p.2 := by
  rintro ⟨a, b⟩ ⟨c, d⟩ ⟨ha, hb⟩ ⟨hc, hd⟩ rest rest' heq
  simp only [List.append_assoc] at heq
  obtain ⟨rfl, htail⟩ := h ha hc heq
  obtain ⟨rfl, hrest⟩ := h' hb hd htail
  exact ⟨rfl, hrest⟩

variable {number : Nat → List γ} {bound : Nat}

/-- A string after its length. -/
theorem counted (h : SelfDelimiting (· < bound) number) :
    SelfDelimiting (fun text : List γ => text.length < bound)
      fun text => number text.length ++ text := by
  intro a b ha hb rest rest' heq
  simp only [List.append_assoc] at heq
  obtain ⟨hlength, htail⟩ := h ha hb heq
  exact List.append_inj htail hlength

/-- Two lists of as many values. -/
theorem flatMap_of_length (h : SelfDelimiting valid encode) {xs ys : List α}
    (hxs : ∀ a ∈ xs, valid a) (hys : ∀ a ∈ ys, valid a) (hlength : xs.length = ys.length)
    {rest rest' : List γ} (heq : xs.flatMap encode ++ rest = ys.flatMap encode ++ rest') :
    xs = ys ∧ rest = rest' := by
  induction xs generalizing ys with
  | nil =>
      cases ys with
      | nil => exact ⟨rfl, heq⟩
      | cons y ys => cases hlength
  | cons x xs ih =>
      cases ys with
      | nil => cases hlength
      | cons y ys =>
          rw [List.flatMap_cons, List.flatMap_cons, List.append_assoc, List.append_assoc] at heq
          obtain ⟨hfirst, htail⟩ := h (hxs x List.mem_cons_self) (hys y List.mem_cons_self) heq
          obtain ⟨htails, hrest⟩ := ih (fun a ha => hxs a (List.mem_cons_of_mem _ ha))
            (fun a ha => hys a (List.mem_cons_of_mem _ ha)) (Nat.succ.inj hlength) htail
          exact ⟨congrArg₂ List.cons hfirst htails, hrest⟩

/-- A list after the number of its values. -/
theorem countedList (h : SelfDelimiting valid encode) (hnumber : SelfDelimiting (· < bound) number) :
    SelfDelimiting (fun values : List α => values.length < bound ∧ ∀ a ∈ values, valid a)
      fun values => number values.length ++ values.flatMap encode := by
  rintro xs ys ⟨hxs, hvalid⟩ ⟨hys, hvalid'⟩ rest rest' heq
  simp only [List.append_assoc] at heq
  obtain ⟨hlength, htail⟩ := hnumber hxs hys heq
  exact h.flatMap_of_length hvalid hvalid' hlength htail

end SelfDelimiting

/-! ### Numbers -/

/-- A number of so many digits is known by them. -/
theorem eq_of_digits (base width : Nat) {a b : Nat} (ha : a < base ^ width) (hb : b < base ^ width)
    (h : ∀ i < width, a / base ^ i % base = b / base ^ i % base) : a = b := by
  induction width generalizing a b with
  | zero =>
      rw [Nat.pow_zero] at ha hb
      omega
  | succ width ih =>
      have hlast : a % base = b % base := by simpa using h 0 (Nat.succ_pos width)
      have hlead : a / base = b / base := by
        rw [Nat.pow_succ] at ha hb
        refine ih (Nat.div_lt_of_lt_mul (by rwa [Nat.mul_comm]))
          (Nat.div_lt_of_lt_mul (by rwa [Nat.mul_comm])) fun i hi => ?_
        rw [Nat.div_div_eq_div_mul, Nat.div_div_eq_div_mul, Nat.mul_comm, ← Nat.pow_succ]
        exact h (i + 1) (Nat.succ_lt_succ hi)
      rw [← Nat.div_add_mod a base, ← Nat.div_add_mod b base, hlead, hlast]

end Codec
