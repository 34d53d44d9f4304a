import AgentKnowledge.Lib.Results
import AgentKnowledge.Lib.Text

/-!
Safe names and paths (`crates/core/src/path.rs`).

A `ProjectId`, a `PayloadPath` and an `AttachmentName` are texts together with
the proof that the parser accepted them, so no unchecked name can stand in a
request. Lengths are byte lengths of the UTF-8 encoding, as in the source.
-/

namespace AgentKnowledge

open Results

def maxPathLength : Nat := 4096
def maxComponentLength : Nat := 255
def maxProjectLength : Nat := 63

/-- A failure to validate a project identifier, payload path, or attachment name. -/
inductive PathValidationError where
  | empty
  | emptyComponent
  | absolute
  | traversal
  | backslash
  | separator
  | controlCharacter
  | hiddenComponent
  | invalidProjectId
  | tooLong (maximum actual : Nat)
deriving DecidableEq, Repr

def isAsciiLowercase (c : Char) : Bool := 'a' ≤ c && c ≤ 'z'

def isAsciiDigit (c : Char) : Bool := '0' ≤ c && c ≤ '9'

/-- A lowercase ASCII slug of at most 63 bytes that neither starts nor ends with
a hyphen. -/
def validateProjectId (value : String) : Except PathValidationError Unit :=
  if value.toList.isEmpty then .error .empty
  else if maxProjectLength < value.utf8ByteSize then
    .error (.tooLong maxProjectLength value.utf8ByteSize)
  else if value.toList.head? = some '-' ∨ value.toList.getLast? = some '-' then
    .error .invalidProjectId
  else if ¬ value.toList.all (fun c => isAsciiLowercase c || isAsciiDigit c || c == '-') then
    .error .invalidProjectId
  else .ok ()

def validateComponent (value : String) : Except PathValidationError Unit :=
  if value.toList.isEmpty then .error .emptyComponent
  else if value = "." ∨ value = ".." then .error .traversal
  else if maxComponentLength < value.utf8ByteSize then
    .error (.tooLong maxComponentLength value.utf8ByteSize)
  else if value.toList.any Text.isControl then .error .controlCharacter
  else .ok ()

/-- The slash-separated components of a path text (`str::split('/')`). -/
def splitSlash (value : String) : List String :=
  (value.toList.splitOn '/').map String.ofList

def validateRelativePath (value : String) : Except PathValidationError Unit :=
  if value.toList.isEmpty then .error .empty
  else if maxPathLength < value.utf8ByteSize then
    .error (.tooLong maxPathLength value.utf8ByteSize)
  else if value.toList.head? = some '/' then .error .absolute
  else if value.toList.contains '\\' then .error .backslash
  else (splitSlash value).forM validateComponent

def validateAttachmentName (value : String) : Except PathValidationError Unit :=
  if value.toList.any (fun c => c == '/' || c == '\\') then .error .separator
  else do
    validateComponent value
    if value.toList.head? = some '.' then .error .hiddenComponent else .ok ()

/-- A validated lowercase project slug used in canonical paths and read scopes. -/
structure ProjectId where
  value : String
  valid : validateProjectId value = .ok ()
deriving DecidableEq

theorem ProjectId.value_injective : Function.Injective ProjectId.value := by
  rintro ⟨a, ha⟩ ⟨b, hb⟩ h
  cases h
  rfl
/-- A normalized relative path inside a request's `payload/` directory. -/
structure PayloadPath where
  value : String
  valid : validateRelativePath value = .ok ()
deriving DecidableEq

/-- A single safe attachment file name. -/
structure AttachmentName where
  value : String
  valid : validateAttachmentName value = .ok ()
deriving DecidableEq

/-! ### What the parsers guarantee -/

theorem validateComponent_eq_ok_iff {value : String} :
    validateComponent value = .ok () ↔
      value.toList ≠ [] ∧ ¬ (value = "." ∨ value = "..") ∧
        value.utf8ByteSize ≤ maxComponentLength ∧
        ∀ c ∈ value.toList, Text.isControl c = false := by
  unfold validateComponent
  split_ifs with hempty hdots hlong hcontrol
  · simp [List.isEmpty_iff.1 hempty]
  · simp [hdots]
  · simp [Nat.not_le.2 hlong]
  · obtain ⟨c, hc, hcontrol⟩ := List.any_eq_true.1 hcontrol
    rw [false_iff]
    rintro ⟨-, -, -, hall⟩
    simp [hall c hc] at hcontrol
  · simp_all

theorem validateAttachmentName_eq_ok_iff {value : String} :
    validateAttachmentName value = .ok () ↔
      '/' ∉ value.toList ∧ '\\' ∉ value.toList ∧ validateComponent value = .ok () ∧
        value.toList.head? ≠ some '.' := by
  have hany : (value.toList.any fun c => c == '/' || c == '\\') ↔
      '/' ∈ value.toList ∨ '\\' ∈ value.toList := by
    simp [List.any_eq_true, exists_or, and_or_left]
  unfold validateAttachmentName
  split_ifs with hseparator hhidden
  · rw [hany] at hseparator
    rw [false_iff]
    tauto
  · simp [bind_eq_ok, hhidden]
  · rw [hany, not_or] at hseparator
    simp [bind_eq_ok, exists_unit, hhidden, hseparator]

/-- The characters of an accepted project slug. -/
theorem ProjectId.mem_value {project : ProjectId} {c : Char} (h : c ∈ project.value.toList) :
    isAsciiLowercase c ∨ isAsciiDigit c ∨ c = '-' := by
  have hv := project.valid
  unfold validateProjectId at hv
  split_ifs at hv with h1 h2 h3 h4
  have hall : ∀ x ∈ project.value.toList,
      (isAsciiLowercase x = true ∨ isAsciiDigit x = true) ∨ x = '-' := by simpa using h4
  exact or_assoc.1 (hall c h)

end AgentKnowledge
