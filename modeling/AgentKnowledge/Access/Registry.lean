import AgentKnowledge.Lib.Json
import AgentKnowledge.Queue.Package

/-!
Client enrolment records (`crates/access/src/key.rs`, `crates/access/src/store/mod.rs`).

A key is kept in one canonical form: `NormalizedPublicKey.parse` decodes an OpenSSH line, checks
its wire structure and encodes it again. A snapshot of the registry is accepted only if every
client's key is in that form (`validateSnapshot_clients`).

Base64, SHA-256, RFC 3339 and the ULID reader are libraries and stand here as parameters.
-/

namespace AgentKnowledge

open Results

/-! ### Client identifiers -/

inductive ClientIdError where
  | empty
  | tooLong (maximum actual : Nat)
  | invalidCharacter
deriving DecidableEq

/-- Reads a client identifier (`ClientId::from_str`). -/
def ClientId.fromStr (text : List Char) : Except ClientIdError ClientId :=
  if text = [] then .error .empty
  else if maximumClientIdBytes < Json.size text then
    .error (.tooLong maximumClientIdBytes (Json.size text))
  else if h : validClientId text then .ok ⟨String.ofList text, by simpa using h⟩
  else .error .invalidCharacter

theorem ClientId.mem_value (id : ClientId) {c : Char} (h : c ∈ id.value.toList) :
    isAsciiLowercase c ∨ isAsciiDigit c ∨ c = '-' := by
  have hvalid := id.valid
  simp only [validClientId, Bool.and_eq_true, List.all_eq_true] at hvalid
  simpa [or_assoc] using hvalid.2 c h

theorem ClientId.value_ne_nil (id : ClientId) : id.value.toList ≠ [] := by
  intro hnil
  have hvalid := id.valid
  simp [validClientId, hnil] at hvalid

theorem toNat_of_isAsciiLowercase {c : Char} (h : isAsciiLowercase c) :
    97 ≤ c.toNat ∧ c.toNat ≤ 122 := by
  simp only [isAsciiLowercase, Bool.and_eq_true, decide_eq_true_eq, Char.le_def,
    UInt32.le_iff_toNat_le] at h
  exact h

theorem toNat_of_isAsciiDigit {c : Char} (h : isAsciiDigit c) : 48 ≤ c.toNat ∧ c.toNat ≤ 57 := by
  simp only [isAsciiDigit, Bool.and_eq_true, decide_eq_true_eq, Char.le_def,
    UInt32.le_iff_toNat_le] at h
  exact h

theorem ClientId.toNat_of_mem (id : ClientId) {c : Char} (h : c ∈ id.value.toList) :
    45 ≤ c.toNat ∧ c.toNat ≤ 122 := by
  rcases id.mem_value h with h | h | rfl
  · have := toNat_of_isAsciiLowercase h
    omega
  · have := toNat_of_isAsciiDigit h
    omega
  · decide

/-- The text of an identifier is read back. -/
theorem ClientId.fromStr_value (id : ClientId) : ClientId.fromStr id.value.toList = .ok id := by
  have hlength : Json.size id.value.toList = id.value.toList.length :=
    Json.size_of_ascii fun c hc => by
      have := id.toNat_of_mem hc
      omega
  have hle : id.value.toList.length ≤ maximumClientIdBytes := by
    have hvalid := id.valid
    simp only [validClientId, Bool.and_eq_true, decide_eq_true_eq] at hvalid
    exact hvalid.1.1.1.2
  rw [ClientId.fromStr, if_neg id.value_ne_nil, if_neg (by omega), dif_pos id.valid]
  simp

/-! ### Public keys -/

/-- Characters of Base64 texts. -/
def isBase64 (c : Char) : Bool :=
  isAsciiLowercase c || ('A' ≤ c && c ≤ 'Z') || isAsciiDigit c || c == '+' || c == '/' || c == '='

/-- A Base64 engine. -/
structure Base64 where
  encode : Bytes → List Char
  decode : List Char → Option Bytes
  decode_encode (bytes : Bytes) : decode (encode bytes) = some bytes
  alphabet {bytes : Bytes} {c : Char} : c ∈ encode bytes → isBase64 c

/-- The libraries the registry uses. -/
structure AccessExternals where
  standard : Base64
  standardNoPad : Bytes → List Char
  sha256 : Bytes → Bytes
  parseTime : List Char → Option OffsetDateTime
  parseUlid : List Char → Option Ulid

def maximumPublicKeyBytes : Nat := 16 * 1024

def ed25519Algorithm : List Char := Text.lit "ssh-ed25519"

def ed25519KeyBytes : Nat := 32

inductive KeyValidationError where
  | tooLarge
  | invalidFormat
  | invalidEncoding
  | unsupportedAlgorithm (algorithm : List Char)
deriving DecidableEq

/-- One validated Ed25519 public key in canonical OpenSSH form. -/
structure NormalizedPublicKey where
  openssh : List Char
  fingerprint : List Char
deriving DecidableEq

/-- A length-prefixed string of the SSH wire format, and what follows it. -/
def readSshString (input : Bytes) : Except KeyValidationError (Bytes × Bytes) := do
  rejectIf (input.length < 4) .invalidEncoding
  let length := (input.take 4).foldl (fun n byte => n * 256 + byte.toNat) 0
  rejectIf (input.length < 4 + length) .invalidEncoding
  pure ((input.drop 4).take length, input.drop (4 + length))

def validateEd25519Wire (wire : Bytes) : Except KeyValidationError Unit := do
  let (algorithm, remainder) ← readSshString wire
  let (publicKey, remainder) ← readSshString remainder
  rejectIf (algorithm ≠ Bytes.ascii "ssh-ed25519" ∨ publicKey.length ≠ ed25519KeyBytes ∨
    remainder ≠ []) .invalidEncoding

def isAsciiWhitespace (c : Char) : Bool :=
  c == ' ' || c == '\t' || c == '\n' || c == Char.ofNat 12 || c == '\r'

/-- The words of a text (`str::split_ascii_whitespace`). -/
def splitAsciiWhitespace (text : List Char) : List (List Char) :=
  (text.splitOnP isAsciiWhitespace).filter fun word => !word.isEmpty

section Key

variable (x : AccessExternals)

/-- The canonical form of a key given by its wire format. -/
def normalizedKey (wire : Bytes) : NormalizedPublicKey where
  openssh := ed25519Algorithm ++ ' ' :: x.standard.encode wire
  fingerprint := Text.lit "SHA256:" ++ x.standardNoPad (x.sha256 wire)

def NormalizedPublicKey.parse (input : List Char) :
    Except KeyValidationError NormalizedPublicKey := do
  rejectIf (maximumPublicKeyBytes < Json.size input) .tooLarge
  let input := Text.trim input
  rejectIf (input = [] ∨ '\n' ∈ input ∨ '\r' ∈ input) .invalidFormat
  match splitAsciiWhitespace input with
  | algorithm :: encoded :: _ => do
      rejectIf (algorithm ≠ ed25519Algorithm) (.unsupportedAlgorithm algorithm)
      let wire ← ofOption (x.standard.decode encoded) .invalidEncoding
      validateEd25519Wire wire
      pure (normalizedKey x wire)
  | _ => .error .invalidFormat

end Key

/-! ### Snapshots of the registry -/

/-- Whether a registered client key is accepted by the SSH adapter. -/
inductive ClientStatus where
  | active
  | disabled
deriving DecidableEq

/-- One durable SSH client enrolment. -/
structure ClientRecord where
  clientId : ClientId
  publicKey : List Char
  fingerprint : List Char
  status : ClientStatus
  createdAt : List Char
  updatedAt : List Char
deriving DecidableEq

inductive ChangeAction where
  | add
  | disable
  | enable
  | rotateKey
  | importAuthorizedKeys
deriving DecidableEq

structure RegistryChange where
  action : ChangeAction
  actor : List Char
  clientIds : List ClientId
deriving DecidableEq

/-- One immutable, complete generation of the client access registry. -/
structure RegistrySnapshot where
  schemaVersion : Nat
  generationId : List Char
  previousGeneration : Option (List Char)
  changedAt : List Char
  change : RegistryChange
  clients : List ClientRecord
deriving DecidableEq

def currentRegistrySchemaVersion : Nat := 1

def maximumClients : Nat := 4096

def maximumActorBytes : Nat := 128

inductive AccessRegistryError where
  | invalidSnapshot
deriving DecidableEq

/-- What the check of the clients carries from one to the next. -/
structure ClientScan where
  clientIds : List ClientId := []
  fingerprints : List (List Char) := []
  previousId : Option ClientId := none

section Validate

variable (x : AccessExternals)

def validateClient (changedAt : OffsetDateTime) (scan : ClientScan) (client : ClientRecord) :
    Except AccessRegistryError ClientScan := do
  rejectIf ((scan.previousId.any fun previous => client.clientId.value ≤ previous.value) ∨
    client.clientId ∈ scan.clientIds ∨ client.fingerprint ∈ scan.fingerprints) .invalidSnapshot
  let key ← (NormalizedPublicKey.parse x client.publicKey).mapError fun _ => .invalidSnapshot
  rejectIf (key.openssh ≠ client.publicKey ∨ key.fingerprint ≠ client.fingerprint) .invalidSnapshot
  let createdAt ← ofOption (x.parseTime client.createdAt) .invalidSnapshot
  let updatedAt ← ofOption (x.parseTime client.updatedAt) .invalidSnapshot
  rejectIf (updatedAt.instant < createdAt.instant ∨ changedAt.instant < updatedAt.instant)
    .invalidSnapshot
  pure {
    clientIds := client.clientId :: scan.clientIds
    fingerprints := client.fingerprint :: scan.fingerprints
    previousId := some client.clientId }

def validateSnapshot (snapshot : RegistrySnapshot) (generationId : List Char) :
    Except AccessRegistryError Unit := do
  rejectIf (snapshot.schemaVersion ≠ currentRegistrySchemaVersion ∨
    snapshot.generationId ≠ generationId ∨ (x.parseUlid generationId).isNone ∨
    maximumClients < snapshot.clients.length ∨ snapshot.change.clientIds = [] ∨
    maximumClients < snapshot.change.clientIds.length ∨ snapshot.change.actor = [] ∨
    maximumActorBytes < Json.size snapshot.change.actor) .invalidSnapshot
  rejectIf (snapshot.previousGeneration.any fun previous =>
    previous = generationId ∨ (x.parseUlid previous).isNone) .invalidSnapshot
  let changedAt ← ofOption (x.parseTime snapshot.changedAt) .invalidSnapshot
  rejectIf (¬ snapshot.change.clientIds.Nodup) .invalidSnapshot
  let scan ← snapshot.clients.foldlM (validateClient x changedAt) {}
  rejectIf (snapshot.change.clientIds.any fun clientId => clientId ∉ scan.clientIds)
    .invalidSnapshot

end Validate

section Checked

variable {x : AccessExternals} {snapshot : RegistrySnapshot} {generationId : List Char}

/-- The key of a client of an accepted snapshot is in its canonical form. -/
theorem validateSnapshot_clients (h : validateSnapshot x snapshot generationId = .ok ()) :
    ∀ client ∈ snapshot.clients, NormalizedPublicKey.parse x client.publicKey =
      .ok ⟨client.publicKey, client.fingerprint⟩ := by
  simp only [validateSnapshot, bind_eq_ok, exists_unit] at h
  obtain ⟨-, -, changedAt, -, -, scan, hscan, -⟩ := h
  intro client hclient
  obtain ⟨before, after, hstep⟩ := exists_of_foldlM_eq_ok hscan client hclient
  simp only [validateClient, bind_eq_ok, exists_unit, rejectIf_eq_ok, mapError_eq_ok, not_or, ne_eq,
    not_not] at hstep
  obtain ⟨-, ⟨openssh, fingerprint⟩, hkey, ⟨hopenssh, hfingerprint⟩, -⟩ := hstep
  rw [hkey, ← hopenssh, ← hfingerprint]

/-- A key in its canonical form: the algorithm, then a Base64 text that is not empty. -/
theorem canonical_key {text fingerprint : List Char}
    (h : NormalizedPublicKey.parse x text = .ok ⟨text, fingerprint⟩) :
    ∃ encoded, text = ed25519Algorithm ++ ' ' :: encoded ∧ encoded ≠ [] ∧
      ∀ c ∈ encoded, isBase64 c := by
  simp only [NormalizedPublicKey.parse, bind_eq_ok, exists_unit] at h
  obtain ⟨-, -, h⟩ := h
  split at h
  · rename_i algorithm encoded rest hwords
    simp only [bind_eq_ok, exists_unit, rejectIf_eq_ok, ne_eq, not_not, ofOption_eq_ok, pure_eq_ok,
      Except.ok.injEq] at h
    obtain ⟨-, wire, -, -, hkey⟩ := h
    have htext : ed25519Algorithm ++ ' ' :: x.standard.encode wire = text :=
      congrArg NormalizedPublicKey.openssh hkey
    refine ⟨x.standard.encode wire, htext.symm, ?_, fun c hc => x.standard.alphabet hc⟩
    intro hnil
    rw [hnil] at htext
    rw [← htext] at hwords
    have hword : splitAsciiWhitespace (Text.trim (ed25519Algorithm ++ [' '])) =
        [ed25519Algorithm] := by decide +kernel
    rw [hword] at hwords
    cases hwords
  · cases h

end Checked

end AgentKnowledge
