import Mathlib

/-!
Permanent identifiers (`crates/core/src/id.rs`) and file revisions
(`crates/core/src/revision.rs`).

Every identifier is a ULID, a 128-bit number whose canonical text is its 26
digit big-endian rendering in Crockford's base 32. `Ulid.toText_injective` says
that the text determines the number, which is what lets a bundle name or a
trailer stand for the identifier it shows.
-/

namespace AgentKnowledge

/-- Crockford's base 32 digits: the decimal digits and the upper-case letters
without `I`, `L`, `O` and `U`. -/
def crockfordAlphabet : List Char := "0123456789ABCDEFGHJKMNPQRSTVWXYZ".toList

def crockfordDigit (digit : Nat) : Char := crockfordAlphabet.getD digit '0'

/-- The last `width` base 32 digits of `value`, most significant first. -/
def crockford : Nat → Nat → List Char
  | 0, _ => []
  | width + 1, value => crockford width (value / 32) ++ [crockfordDigit (value % 32)]

/-- A ULID: any 128-bit number. -/
structure Ulid where
  value : Nat
  bound : value < 2 ^ 128
deriving DecidableEq, Repr

/-! The samples number their identifiers below eight. -/

instance eightNeZero : NeZero 8 := ⟨by decide⟩

theorem Ulid.bound_of_eight (number : Fin 8) : number.val < 2 ^ 128 := by omega

theorem Ulid.bound_one : 1 < 2 ^ 128 := by decide

theorem Ulid.bound_two : 2 < 2 ^ 128 := by decide

theorem Ulid.bound_three : 3 < 2 ^ 128 := by decide

/-- The canonical 26 character text. -/
@[irreducible] def Ulid.toText (id : Ulid) : List Char := crockford 26 id.value

/-- A permanent identifier for one change request. -/
structure RequestId where
  ulid : Ulid
deriving DecidableEq, Repr

/-- An identifier for one Repository Worker batch. -/
structure BatchId where
  ulid : Ulid
deriving DecidableEq, Repr

/-- A permanent identifier for one Markdown document. -/
structure DocumentId where
  ulid : Ulid
deriving DecidableEq, Repr

/-- An identifier for one coding-agent work session. -/
structure SessionId where
  ulid : Ulid
deriving DecidableEq, Repr

def RequestId.toText (id : RequestId) : List Char := id.ulid.toText

def BatchId.toText (id : BatchId) : List Char := id.ulid.toText

def DocumentId.toText (id : DocumentId) : List Char := id.ulid.toText

/-- The SHA-256 revision of an exact file byte sequence: 32 digest bytes. -/
structure Revision where
  digest : BitVec 256
deriving DecidableEq, Repr

/-! ### The text of an identifier -/

theorem crockfordDigit_mem (digit : Nat) : crockfordDigit digit ∈ crockfordAlphabet := by
  unfold crockfordDigit
  by_cases h : digit < crockfordAlphabet.length
  · rw [List.getD_eq_getElem _ _ h]
    exact List.getElem_mem h
  · rw [List.getD_eq_default _ _ (Nat.le_of_not_lt h)]
    decide

theorem crockfordDigit_injOn {a b : Nat} (ha : a < 32) (hb : b < 32)
    (h : crockfordDigit a = crockfordDigit b) : a = b := by
  have table : ∀ i < 32, ∀ j < 32, crockfordDigit i = crockfordDigit j → i = j := by decide
  exact table a ha b hb h

@[simp] theorem length_crockford (width value : Nat) : (crockford width value).length = width := by
  induction width generalizing value with
  | zero => rfl
  | succ width ih => simp [crockford, ih]

theorem mem_crockford {width value : Nat} {c : Char} (h : c ∈ crockford width value) :
    c ∈ crockfordAlphabet := by
  induction width generalizing value with
  | zero => simp [crockford] at h
  | succ width ih =>
      rcases List.mem_append.1 h with h | h
      · exact ih h
      · rw [List.mem_singleton.1 h]
        exact crockfordDigit_mem _

theorem crockford_injOn {width a b : Nat} (ha : a < 32 ^ width) (hb : b < 32 ^ width)
    (h : crockford width a = crockford width b) : a = b := by
  induction width generalizing a b with
  | zero => omega
  | succ width ih =>
      obtain ⟨hinit, hlast⟩ := List.append_inj h (by simp)
      have hdiv : a / 32 = b / 32 := by
        refine ih ?_ ?_ hinit <;> rw [Nat.pow_succ] at ha hb <;> omega
      have hmod : a % 32 = b % 32 :=
        crockfordDigit_injOn (Nat.mod_lt _ (by decide)) (Nat.mod_lt _ (by decide))
          (by simpa using hlast)
      omega

@[simp] theorem Ulid.length_toText (id : Ulid) : id.toText.length = 26 := by
  unfold Ulid.toText
  exact length_crockford _ _

theorem Ulid.toText_injective : Function.Injective Ulid.toText := by
  intro a b h
  have bound : (2 : Nat) ^ 128 < 32 ^ 26 := by decide
  have : a.value = b.value :=
    crockford_injOn (Nat.lt_trans a.bound bound) (Nat.lt_trans b.bound bound)
      (by unfold Ulid.toText at h; exact h)
  cases a; cases b; simp_all

theorem Ulid.mem_toText {id : Ulid} {c : Char} (h : c ∈ id.toText) : c ∈ crockfordAlphabet := by
  unfold Ulid.toText at h
  exact mem_crockford h

end AgentKnowledge
