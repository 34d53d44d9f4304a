import AgentKnowledge.Lib.Packing
import AgentKnowledge.Queue.FileQueue

/-!
A format for the records of the queue.

The source writes its records as JSON; the development only uses that a record is
read back as it was written and that its file stays below the limit of its reader
(`RecordFormat`). Here the records are packed into fields of fixed width, which
shows that the limits leave room for every record and gives an instance to compute
with (`QueueExternals.ofTables`).
-/

namespace AgentKnowledge

/-- The width of all records. -/
def recordBytes : Nat := 128

/-- A format from the fields of a record and their bounds. -/
def RecordFormat.ofFields {α : Type} {maximumBytes : Nat} (radices : List Nat)
    (fields : α → List Nat) (build : List Nat → Option α)
    (hfields : ∀ a, List.Forall₂ (· < ·) (fields a) radices) (hbuild : ∀ a, build (fields a) = some a)
    (hroom : radices.prod ≤ 256 ^ recordBytes) (hbytes : recordBytes ≤ maximumBytes) :
    RecordFormat α maximumBytes where
  encode a := Packing.pack recordBytes radices (fields a)
  decode bytes := build (Packing.unpack radices bytes)
  decode_encode a := by rw [Packing.unpack_pack (hfields a) hroom, hbuild]
  length_encode a := (Packing.length_pack _ _ _).trans_le hbytes

/-! ### Times and identifiers -/

def OffsetDateTime.radices : List Nat := [10000, 13, 32, 24, 60, 60, 1000000000, 172800]

def OffsetDateTime.fields (t : OffsetDateTime) : List Nat :=
  [t.year, t.month, t.day, t.hour, t.minute, t.second, t.nanosecond,
    (t.offsetSeconds + 86400).toNat]

def OffsetDateTime.ofFields : List Nat → Option OffsetDateTime
  | [year, month, day, hour, minute, second, nanosecond, offset] =>
      if valid : year ≤ 9999 ∧ 1 ≤ month ∧ month ≤ 12 ∧ 1 ≤ day ∧ day ≤ daysInMonth year month ∧
          hour < 24 ∧ minute < 60 ∧ second < 60 ∧ nanosecond < 1000000000 ∧
          -86400 < (offset : Int) - 86400 ∧ (offset : Int) - 86400 < 86400 then
        some ⟨year, month, day, hour, minute, second, nanosecond, (offset : Int) - 86400, valid⟩
      else none
  | _ => none

theorem daysInMonth_le (year month : Nat) : daysInMonth year month ≤ 31 := by
  unfold daysInMonth
  split
  · split <;> omega
  all_goals omega

theorem OffsetDateTime.fields_lt (t : OffsetDateTime) :
    List.Forall₂ (· < ·) t.fields OffsetDateTime.radices := by
  obtain ⟨hyear, -, hmonth, -, hday, hhour, hminute, hsecond, hnanosecond, hlow, hhigh⟩ := t.valid
  have hdays := daysInMonth_le t.year t.month
  simp only [fields, radices, List.forall₂_cons, List.forall₂_nil_left_iff, and_true]
  omega

theorem OffsetDateTime.ofFields_fields (t : OffsetDateTime) : ofFields t.fields = some t := by
  have hoffset : ((t.offsetSeconds + 86400).toNat : Int) - 86400 = t.offsetSeconds := by
    have hlow := t.valid.2.2.2.2.2.2.2.2.2.1
    omega
  simp only [fields, ofFields, hoffset]
  exact dif_pos t.valid

def Ulid.ofNat (value : Nat) : Option Ulid :=
  if bound : value < 2 ^ 128 then some ⟨value, bound⟩ else none

theorem Ulid.ofNat_value (id : Ulid) : Ulid.ofNat id.value = some id := dif_pos id.bound

/-! ### Client identifiers -/

def ClientId.radices : List Nat := 64 :: List.replicate maximumClientIdBytes 128

/-- The length and the characters of a client identifier; length zero for none. -/
def ClientId.fields : Option ClientId → List Nat
  | none => 0 :: List.replicate maximumClientIdBytes 0
  | some id =>
      let text := id.value.toList
      text.length ::
        (text.map Char.toNat ++ List.replicate (maximumClientIdBytes - text.length) 0)

def ClientId.ofFields : List Nat → Option (Option ClientId)
  | 0 :: _ => some none
  | length :: codes =>
      let text := (codes.take length).map Char.ofNat
      if valid : validClientId (String.ofList text).toList then some (some ⟨String.ofList text, valid⟩)
      else none
  | [] => none

theorem validClientId_iff {text : List Char} (h : validClientId text) :
    0 < text.length ∧ text.length ≤ maximumClientIdBytes ∧ ∀ c ∈ text, c.toNat < 128 := by
  simp only [validClientId, Bool.and_eq_true, decide_eq_true_eq, List.all_eq_true,
    Bool.not_eq_true', List.isEmpty_eq_false_iff] at h
  obtain ⟨⟨⟨⟨hne, hlength⟩, -⟩, -⟩, hall⟩ := h
  refine ⟨List.length_pos_of_ne_nil hne, hlength, fun c hc => ?_⟩
  have hc := hall c hc
  simp only [isAsciiLowercase, isAsciiDigit, Bool.or_eq_true, Bool.and_eq_true, decide_eq_true_eq,
    beq_iff_eq] at hc
  rcases hc with (⟨-, hc⟩ | ⟨-, hc⟩) | rfl
  · exact lt_of_le_of_lt (Char.le_def.1 hc) (by decide)
  · exact lt_of_le_of_lt (Char.le_def.1 hc) (by decide)
  · decide

theorem forall₂_lt_replicate {values : List Nat} {width radix : Nat} (hlength : values.length = width)
    (h : ∀ value ∈ values, value < radix) :
    List.Forall₂ (· < ·) values (List.replicate width radix) := by
  subst hlength
  induction values with
  | nil => exact .nil
  | cons value values ih =>
      exact .cons (h value List.mem_cons_self) (ih fun v hv => h v (List.mem_cons_of_mem _ hv))

theorem ClientId.fields_lt (client : Option ClientId) :
    List.Forall₂ (· < ·) (ClientId.fields client) ClientId.radices := by
  cases client with
  | none =>
      refine .cons (by decide) (forall₂_lt_replicate (by simp) fun value hvalue => ?_)
      rw [(List.mem_replicate.1 hvalue).2]
      decide
  | some id =>
      obtain ⟨-, hlength, hascii⟩ := validClientId_iff id.valid
      refine .cons (by unfold maximumClientIdBytes at hlength; omega)
        (forall₂_lt_replicate ?_ fun value hvalue => ?_)
      · rw [List.length_append, List.length_map, List.length_replicate]
        omega
      · rcases List.mem_append.1 hvalue with hvalue | hvalue
        · obtain ⟨c, hc, rfl⟩ := List.mem_map.1 hvalue
          exact hascii c hc
        · rw [(List.mem_replicate.1 hvalue).2]
          decide

theorem ClientId.ofFields_fields (client : Option ClientId) :
    ClientId.ofFields (ClientId.fields client) = some client := by
  cases client with
  | none => rfl
  | some id =>
      obtain ⟨hpos, -, -⟩ := validClientId_iff id.valid
      have htext : ((id.value.toList.map Char.toNat ++
          List.replicate (maximumClientIdBytes - id.value.toList.length) 0).take
            id.value.toList.length).map Char.ofNat = id.value.toList := by
        rw [List.take_left' (by simp), List.map_map]
        exact (List.map_congr_left fun c _ => Char.ofNat_toNat c).trans (List.map_id _)
      obtain ⟨length, hlength⟩ := Nat.exists_eq_succ_of_ne_zero hpos.ne'
      simp only [fields]
      rw [hlength] at htext ⊢
      simp only [ofFields, htext, String.ofList_toList]
      exact dif_pos id.valid

/-! ### The records -/

def AcceptanceMetadata.radices : List Nat := 2 ^ 64 :: (OffsetDateTime.radices ++ ClientId.radices)

def AcceptanceMetadata.fields (a : AcceptanceMetadata) : List Nat :=
  a.sequence :: (a.acceptedAt.fields ++ ClientId.fields a.clientId)

def AcceptanceMetadata.ofFields : List Nat → Option AcceptanceMetadata
  | sequence :: rest => do
      let acceptedAt ← OffsetDateTime.ofFields (rest.take 8)
      let clientId ← ClientId.ofFields (rest.drop 8)
      if h : 0 < sequence ∧ sequence < 2 ^ 64 then some ⟨sequence, acceptedAt, clientId, h⟩ else none
  | [] => none

def acceptanceFormat : RecordFormat AcceptanceMetadata maximumAcceptanceFileBytes :=
  .ofFields AcceptanceMetadata.radices AcceptanceMetadata.fields AcceptanceMetadata.ofFields
    (fun a => .cons a.sequence_valid.2
      (List.rel_append a.acceptedAt.fields_lt (ClientId.fields_lt a.clientId)))
    (fun a => by
      have hlength : a.acceptedAt.fields.length = 8 := rfl
      simp only [AcceptanceMetadata.fields, AcceptanceMetadata.ofFields]
      rw [List.take_left' hlength, List.drop_left' hlength, OffsetDateTime.ofFields_fields,
        ClientId.ofFields_fields]
      exact dif_pos a.sequence_valid)
    (by decide) (by decide)

def WorkerPhaseRecord.radices : List Nat :=
  2 ^ 16 :: 2 ^ 128 :: 2 ^ 128 :: 2 ^ 32 :: OffsetDateTime.radices

def WorkerPhaseRecord.fields (r : WorkerPhaseRecord) : List Nat :=
  r.schemaVersion :: r.requestId.ulid.value :: r.batchId.ulid.value :: r.attempt ::
    r.updatedAt.fields

def WorkerPhaseRecord.ofFields : List Nat → Option WorkerPhaseRecord
  | schemaVersion :: requestId :: batchId :: attempt :: rest => do
      let requestId ← Ulid.ofNat requestId
      let batchId ← Ulid.ofNat batchId
      let updatedAt ← OffsetDateTime.ofFields rest
      if h : schemaVersion < 2 ^ 16 ∧ 0 < attempt ∧ attempt < 2 ^ 32 then
        some ⟨schemaVersion, ⟨requestId⟩, ⟨batchId⟩, attempt, .claimed, updatedAt, h⟩
      else none
  | _ => none

def phaseFormat : RecordFormat WorkerPhaseRecord maximumPhaseFileBytes :=
  .ofFields WorkerPhaseRecord.radices WorkerPhaseRecord.fields WorkerPhaseRecord.ofFields
    (fun r => .cons r.valid.1 (.cons r.requestId.ulid.bound (.cons r.batchId.ulid.bound
      (.cons r.valid.2.2 r.updatedAt.fields_lt))))
    (fun r => by
      have hphase : r.phase = .claimed := by cases r.phase; rfl
      simp only [WorkerPhaseRecord.fields, WorkerPhaseRecord.ofFields]
      rw [Ulid.ofNat_value, Ulid.ofNat_value, OffsetDateTime.ofFields_fields, ← hphase]
      exact dif_pos r.valid)
    (by decide) (by decide)

def errorCodes : List ErrorCode :=
  [.invalidProtocol, .invalidRequest, .invalidFrontMatter, .invalidPath, .unsupportedFileType,
    .limitExceeded, .requestIdReused, .requestNotFound, .documentIdConflict, .documentNotFound,
    .revisionConflict, .operationForbidden, .contentValidationFailed, .quartzBuildFailed,
    .temporaryFailure, .internalError]

theorem errorCodes_idxOf (errorCode : ErrorCode) :
    errorCodes.idxOf errorCode < 16 ∧ errorCodes[errorCodes.idxOf errorCode]? = some errorCode := by
  cases errorCode <;> decide

def WorkerResultRecord.radices : List Nat :=
  2 ^ 16 :: 2 ^ 128 :: 2 ^ 128 :: 16 :: OffsetDateTime.radices

def WorkerResultRecord.fields (r : WorkerResultRecord) : List Nat :=
  r.schemaVersion :: r.requestId.ulid.value :: r.batchId.ulid.value ::
    errorCodes.idxOf r.errorCode :: r.failedAt.fields

def WorkerResultRecord.ofFields : List Nat → Option WorkerResultRecord
  | schemaVersion :: requestId :: batchId :: errorCode :: rest => do
      let requestId ← Ulid.ofNat requestId
      let batchId ← Ulid.ofNat batchId
      let errorCode ← errorCodes[errorCode]?
      let failedAt ← OffsetDateTime.ofFields rest
      if h : schemaVersion < 2 ^ 16 then
        some ⟨schemaVersion, ⟨requestId⟩, ⟨batchId⟩, .failed, errorCode, failedAt, h⟩
      else none
  | _ => none

def resultFormat : RecordFormat WorkerResultRecord maximumResultFileBytes :=
  .ofFields WorkerResultRecord.radices WorkerResultRecord.fields WorkerResultRecord.ofFields
    (fun r => .cons r.valid (.cons r.requestId.ulid.bound (.cons r.batchId.ulid.bound
      (.cons (errorCodes_idxOf r.errorCode).1 r.failedAt.fields_lt))))
    (fun r => by
      have hstatus : r.status = .failed := by cases r.status; rfl
      simp only [WorkerResultRecord.fields, WorkerResultRecord.ofFields]
      rw [Ulid.ofNat_value, Ulid.ofNat_value, (errorCodes_idxOf r.errorCode).2,
        OffsetDateTime.ofFields_fields, ← hstatus]
      exact dif_pos r.valid)
    (by decide) (by decide)

/-- Finite tables of texts, with the packed records. -/
def QueueExternals.ofTables (documents : List (Bytes × DocumentMetadata))
    (requests : List (Bytes × ChangeRequest)) : QueueExternals where
  toExternals := .ofTables documents requests
  requestPathInvalid _ := false
  acceptanceFormat := AgentKnowledge.acceptanceFormat
  phaseFormat := AgentKnowledge.phaseFormat
  resultFormat := AgentKnowledge.resultFormat

/-! ### A queue to compute with -/

namespace QueueSample

def now : OffsetDateTime := ⟨2026, 1, 1, 9, 0, 0, 0, 0, by decide⟩

/-- The identifier of a request; requests four apart share one. -/
def requestId (number : Fin 8) : RequestId := ⟨⟨number % 4, by omega⟩⟩

def batchId (number : Fin 8) : BatchId := ⟨⟨number, by omega⟩⟩

def document (number : Fin 8) : DocumentId := ⟨⟨number, by omega⟩⟩

def content : PayloadPath := ⟨"n.md", by rfl⟩

/-- A request that creates one document. -/
def request (number : Fin 8) : ChangeRequest where
  protocolVersion := 1
  requestId := requestId number
  title := "note"
  project := none
  documentType := .decision
  node := none
  agent := none
  session := none
  createdAt := now
  operations := [.createDocument (document number) content]

def metadata (number : Fin 8) : DocumentMetadata where
  schemaVersion := 1
  documentId := document number
  title := "N"
  created := now
  updated := none
  node := none
  agent := none
  session := none
  requestId := requestId number
  tags := []
  status := .active
  supersededBy := none

/-- The byte that stands for a request and for the front matter of its document. -/
def letter (number : Fin 8) : UInt8 := 97 + UInt8.ofNat number

def markdown (number : Fin 8) : Bytes :=
  Bytes.ascii "---\n" ++ [letter number, lineFeed] ++ Bytes.ascii "---\n"

def tables : QueueExternals :=
  .ofTables ((List.finRange 8).map fun number => ([letter number, lineFeed], metadata number))
    ((List.finRange 8).map fun number => ([letter number], request number))

/-- The digest looks at the letter of the request only. -/
def setup : QueueSetup where
  x := { tables with digest := fun bytes => ⟨BitVec.ofNat 256 (bytes.getD 58 0).toNat⟩ }
  policy := ⟨{}, ["png"], by decide⟩
  identity := ⟨0⟩

/-- The package of a request, as it is uploaded. -/
def staged (number : Fin 8) : StoredPackage where
  request := some (.file { bytes := [letter number] })
  payload := some (some (.cons (some "n.md") (.file { bytes := markdown number }) .nil))
  digest := none
  acceptance := none
  phase := none
  result := none
  unexpected := []

def upload (number : Fin 8) : Upload := ⟨staged number, none, now⟩

def digest (number : Fin 8) : PackageDigest := ⟨⟨BitVec.ofNat 256 (letter number).toNat⟩⟩

example : ((accept setup (upload 5)).calmly .empty).2 =
    .ok (.accepted (requestId 1) (digest 5)) := by decide +kernel

end QueueSample

end AgentKnowledge
