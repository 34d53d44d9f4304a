import AgentKnowledge.Lib.Bytes
import Mathlib

/-!
Records as byte strings of a fixed width.

The fields of a record are digits in a mixed radix, so a list of values below the
list of their bounds is one number (`join`), and that number is a byte string:
its digits to the base 256. Reading goes the other way. Everything is structural
recursion over the radices and evaluates in the kernel.
-/

namespace Packing

/-- The number with these digits, the least significant first. -/
def join : List Nat → List Nat → Nat
  | value :: values, radix :: radices => value + radix * join values radices
  | _, _ => 0

/-- The digits of a number. -/
def split : List Nat → Nat → List Nat
  | [], _ => []
  | radix :: radices, n => n % radix :: split radices (n / radix)

@[simp] theorem length_split (radices : List Nat) (n : Nat) :
    (split radices n).length = radices.length := by
  induction radices generalizing n with
  | nil => rfl
  | cons radix radices ih => simp [split, ih]

theorem split_join {values radices : List Nat} (h : List.Forall₂ (· < ·) values radices) :
    split radices (join values radices) = values := by
  induction h with
  | nil => rfl
  | @cons value radix values radices hlt _ ih =>
      rw [join, split, Nat.add_mul_mod_self_left, Nat.mod_eq_of_lt hlt,
        Nat.add_mul_div_left _ _ (by omega), Nat.div_eq_of_lt hlt, Nat.zero_add, ih]

theorem join_lt {values radices : List Nat} (h : List.Forall₂ (· < ·) values radices) :
    join values radices < radices.prod := by
  induction h with
  | nil => simp [join]
  | @cons value radix values radices hlt _ ih =>
      rw [join, List.prod_cons]
      calc value + radix * join values radices
          < radix + radix * join values radices := by omega
        _ = radix * (join values radices + 1) := by rw [Nat.mul_add, Nat.mul_one, Nat.add_comm]
        _ ≤ radix * radices.prod := Nat.mul_le_mul_left _ ih

theorem join_split {radices : List Nat} {n : Nat} (h : n < radices.prod) :
    join (split radices n) radices = n := by
  induction radices generalizing n with
  | nil =>
      rw [List.prod_nil, Nat.lt_one_iff] at h
      rw [h]
      rfl
  | cons radix radices ih =>
      rw [List.prod_cons] at h
      rw [split, join, ih (Nat.div_lt_of_lt_mul h), Nat.mod_add_div]

/-- The byte string of so many bytes that holds the digits. -/
def pack (width : Nat) (radices values : List Nat) : Bytes :=
  (split (List.replicate width 256) (join values radices)).map UInt8.ofNat

def unpack (radices : List Nat) (bytes : Bytes) : List Nat :=
  split radices (join (bytes.map UInt8.toNat) (List.replicate bytes.length 256))

@[simp] theorem length_pack (width : Nat) (radices values : List Nat) :
    (pack width radices values).length = width := by
  simp [pack]

theorem split_bytes_lt (width n : Nat) : ∀ d ∈ split (List.replicate width 256) n, d < 256 := by
  induction width generalizing n with
  | zero => simp [split]
  | succ width ih =>
      intro d hd
      rw [List.replicate_succ, split, List.mem_cons] at hd
      rcases hd with rfl | hd
      · exact Nat.mod_lt _ (by decide)
      · exact ih _ d hd

theorem unpack_pack {width : Nat} {radices values : List Nat}
    (h : List.Forall₂ (· < ·) values radices) (hroom : radices.prod ≤ 256 ^ width) :
    unpack radices (pack width radices values) = values := by
  have hbytes : (pack width radices values).map UInt8.toNat =
      split (List.replicate width 256) (join values radices) := by
    rw [pack, List.map_map]
    refine (List.map_congr_left fun d hd => ?_).trans (List.map_id _)
    exact UInt8.toNat_ofNat_of_lt' (split_bytes_lt _ _ d hd)
  rw [unpack, hbytes, length_pack, join_split, split_join h]
  rw [List.prod_replicate]
  exact (join_lt h).trans_le hroom

end Packing
