import AgentKnowledge.Core.Id
import AgentKnowledge.Lib.Bytes

/-!
The text of a revision (`crates/core/src/revision.rs`): `sha256:` and 64 lowercase
hexadecimal digits. `Revision.parse_text` says that the parser reads back what is
displayed.
-/

namespace AgentKnowledge

def hexDigit (nibble : Nat) : UInt8 :=
  if nibble < 10 then UInt8.ofNat (48 + nibble) else UInt8.ofNat (87 + nibble)

def hexValue (byte : UInt8) : Option Nat :=
  if 48 ≤ byte ∧ byte ≤ 57 then some (byte.toNat - 48)
  else if 97 ≤ byte ∧ byte ≤ 102 then some (byte.toNat - 87)
  else none

/-- The last `width` hexadecimal digits of a number, most significant first. -/
def hexText : Nat → Nat → Bytes
  | 0, _ => []
  | width + 1, value => hexText width (value / 16) ++ [hexDigit (value % 16)]

/-- The number a text of hexadecimal digits denotes. -/
def parseHex (text : Bytes) : Option Nat :=
  text.foldlM (fun value byte => (hexValue byte).map fun nibble => value * 16 + nibble) 0

/-- `Display` of a revision. -/
def Revision.text (revision : Revision) : Bytes :=
  Bytes.ascii "sha256:" ++ hexText 64 revision.digest.toNat

/-- `FromStr` of a revision. -/
def Revision.parse (text : Bytes) : Option Revision :=
  if Bytes.ascii "sha256:" <+: text ∧ (text.drop 7).length = 64 then
    (parseHex (text.drop 7)).map fun value => ⟨BitVec.ofNat 256 value⟩
  else none

@[simp] theorem length_hexText (width value : Nat) : (hexText width value).length = width := by
  induction width generalizing value with
  | zero => rfl
  | succ width ih => simp [hexText, ih]

theorem hexValue_hexDigit {nibble : Nat} (h : nibble < 16) :
    hexValue (hexDigit nibble) = some nibble := by
  have table : ∀ i < 16, hexValue (hexDigit i) = some i := by decide
  exact table nibble h

theorem parseHex_hexText (width value : Nat) :
    parseHex (hexText width value) = some (value % 16 ^ width) := by
  induction width generalizing value with
  | zero => simp [hexText, parseHex, Nat.mod_one]
  | succ width ih =>
      have hlast := hexValue_hexDigit (Nat.mod_lt value (by decide : 16 > 0))
      have hinit := ih (value / 16)
      unfold parseHex at hinit ⊢
      rw [hexText, List.foldlM_append, hinit]
      simp only [Option.bind_eq_bind, Option.bind_some, List.foldlM_cons, List.foldlM_nil, hlast,
        Option.map_some, Option.pure_def, Option.some.injEq]
      rw [Nat.pow_succ', Nat.mod_mul]
      omega

theorem Revision.length_text (revision : Revision) : revision.text.length = 71 := by
  rw [text, List.length_append, length_hexText]
  rfl

theorem Revision.parse_text (revision : Revision) : parse revision.text = some revision := by
  have hdrop : revision.text.drop 7 = hexText 64 revision.digest.toNat :=
    List.drop_left' (by decide)
  rw [parse, if_pos ⟨List.prefix_append _ _, by rw [hdrop, length_hexText]⟩, hdrop,
    parseHex_hexText, Nat.mod_eq_of_lt (Nat.lt_of_lt_of_eq revision.digest.isLt (by decide))]
  simp

theorem mem_hexText {width value : Nat} {byte : UInt8} (h : byte ∈ hexText width value) :
    ∃ nibble < 16, byte = hexDigit nibble := by
  induction width generalizing value with
  | zero => cases h
  | succ width ih =>
      rcases List.mem_append.1 h with h | h
      · exact ih h
      · exact ⟨value % 16, Nat.mod_lt _ (by decide), List.mem_singleton.1 h⟩

/-- The text is printable ASCII. -/
theorem Revision.mem_text {revision : Revision} {byte : UInt8} (h : byte ∈ revision.text) :
    32 < byte ∧ byte < 0x80 := by
  rcases List.mem_append.1 h with h | h
  · have table : ∀ b ∈ Bytes.ascii "sha256:", 32 < b ∧ b < 0x80 := by
      decide +kernel
    exact table byte h
  · obtain ⟨nibble, hnibble, rfl⟩ := mem_hexText h
    have table : ∀ i : Fin 16, 32 < hexDigit i ∧ hexDigit i < 0x80 := by decide
    exact table ⟨nibble, hnibble⟩

end AgentKnowledge
