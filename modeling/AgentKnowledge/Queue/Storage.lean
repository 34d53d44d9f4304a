import AgentKnowledge.Core.Revision
import AgentKnowledge.Lib.Reading
import AgentKnowledge.Queue.Package
import Mathlib

/-!
Accepted packages as they lie on disk (`crates/queue/src/package.rs`).

A `StoredPackage` is a request directory with arbitrary contents: any of its
entries may be missing, malformed or of the wrong type. `readAcceptedPackage` is
`validate_accepted_package` on it, with every file-system call the source makes,
so that it can be asked both what the validation says about a damaged directory
and what a failing call turns into. `readAcceptedPackage_result` connects it with
`validateAcceptedPackage`, the validation of a directory whose entries have been
read.
-/

namespace AgentKnowledge

open Results

/-! ### Entries -/

/-- A regular file, with the properties validation looks at. -/
structure StoredFile where
  bytes : Bytes
  hardLinked : Bool := false
  executable : Bool := false
deriving DecidableEq

/-- An entry that should be a regular file. -/
inductive FileEntry where
  | file (content : StoredFile)
  | other
deriving DecidableEq

mutual

/-- An entry below `payload/`. -/
inductive PayloadNode where
  | file (content : StoredFile)
  | directory (children : PayloadNodes)
  | other

/-- The entries of one directory in the order of their names; a name that is not
UTF-8 is `none`. -/
inductive PayloadNodes where
  | nil
  | cons (name : Option String) (node : PayloadNode) (rest : PayloadNodes)

end

/-- The directory of one accepted request, whatever it holds. -/
structure StoredPackage where
  request : Option FileEntry
  /-- The entries of `payload/`, or `none` within if it is not a directory. -/
  payload : Option (Option PayloadNodes)
  digest : Option FileEntry
  acceptance : Option FileEntry
  phase : Option FileEntry
  result : Option FileEntry
  /-- The names of all other entries, in the order they are listed. -/
  unexpected : List (Option String)

/-- The file-system calls, by the function that makes them. -/
inductive IoSite where
  | queueLock
  | queueIdentity
  | findExisting
  | storedDigest
  | packageRoot
  | digestFile
  | acceptanceFile
  | requestFile
  | payloadScan
  | parseDocument
  | payloadDigest
  | phaseRecord
  | resultRecord
  | nextSequence
  | pendingScan
  | processingScan
  | acceptWrite
  | claimWrite
  | requeueWrite
  | terminalWrite
  | failPendingWrite
  | deadline
deriving DecidableEq, Repr

/-! ### Records -/

/-- A durable processing phase recorded inside an accepted package. -/
inductive WorkerPhase where
  | claimed
deriving DecidableEq, Repr

/-- Durable ownership metadata for one processing request. -/
structure WorkerPhaseRecord where
  schemaVersion : Nat
  requestId : RequestId
  batchId : BatchId
  attempt : Nat
  phase : WorkerPhase
  updatedAt : OffsetDateTime
  valid : schemaVersion < 2 ^ 16 ∧ 0 < attempt ∧ attempt < 2 ^ 32
deriving DecidableEq

/-- Terminal request status recorded by the Repository Worker. -/
inductive WorkerResultStatus where
  | failed
deriving DecidableEq, Repr

/-- Durable terminal result for one request. -/
structure WorkerResultRecord where
  schemaVersion : Nat
  requestId : RequestId
  batchId : BatchId
  status : WorkerResultStatus
  errorCode : ErrorCode
  failedAt : OffsetDateTime
  valid : schemaVersion < 2 ^ 16
deriving DecidableEq

/-- How a record is written to a file and read back: JSON with a line feed in the
source. The laws are those of the serializer; the bound is the one the readers
enforce. -/
structure RecordFormat (α : Type) (maximumBytes : Nat) where
  encode : α → Bytes
  decode : Bytes → Option α
  decode_encode : ∀ a, decode (encode a) = some a
  length_encode : ∀ a, (encode a).length ≤ maximumBytes

def maximumPhaseFileBytes : Nat := 1024
def maximumResultFileBytes : Nat := 1024
def maximumAcceptanceFileBytes : Nat := 256
def maximumDigestFileBytes : Nat := 72

/-- The third-party functions of the queue. -/
structure QueueExternals extends Externals where
  /-- Whether a request file that cannot be decoded fails on one of its paths. -/
  requestPathInvalid : Bytes → Bool
  acceptanceFormat : RecordFormat AcceptanceMetadata maximumAcceptanceFileBytes
  phaseFormat : RecordFormat WorkerPhaseRecord maximumPhaseFileBytes
  resultFormat : RecordFormat WorkerResultRecord maximumResultFileBytes

/-! ### The layout of a package -/

abbrev PackageReading (α : Type) := Reading IoSite PackageValidationError α

/-- The checks `validate_regular_file` makes. -/
def validateRegularFile (entry : FileEntry) (path : String) :
    Except PackageValidationError StoredFile :=
  match entry with
  | .other => .error (.invalidEntryType path)
  | .file content =>
      if content.hardLinked then .error (.hardLinkedFile path)
      else if content.executable then .error (.executableFile path)
      else .ok content

/-- The first entry that does not belong at the top level. -/
def validateTopLevelNames (accepted : Bool) (package : StoredPackage) :
    Except PackageValidationError Unit := do
  match package.unexpected with
  | [] => pure ()
  | none :: _ => .error .invalidLayout
  | some name :: _ => .error (.unexpectedTopLevelEntry name)
  rejectIf (¬ accepted ∧ package.digest.isSome) (.unexpectedTopLevelEntry "digest")
  rejectIf (¬ accepted ∧ package.acceptance.isSome) (.unexpectedTopLevelEntry "acceptance.json")
  rejectIf (¬ accepted ∧ package.phase.isSome) (.unexpectedTopLevelEntry "phase.json")
  rejectIf (¬ accepted ∧ package.result.isSome) (.unexpectedTopLevelEntry "result.json")

/-- A required file of the top level. -/
def requireFile (entry : Option FileEntry) (name : String) :
    Except PackageValidationError FileEntry :=
  ofOption entry (.missingTopLevelEntry name)

/-- A sidecar of the Worker is optional, but has to be a regular file. -/
def validateSidecar (entry : Option FileEntry) (name : String) : PackageReading Unit :=
  match entry with
  | none => pure ()
  | some entry => do
      .call .packageRoot .io
      let _ ← .lift (validateRegularFile entry name)

/-- What the layout check has found: the request file, the entries of `payload/`
and, in an accepted package, the digest and the acceptance record. -/
structure PackageLayout where
  request : StoredFile
  payload : PayloadNodes
  digest : StoredFile
  acceptance : StoredFile

/-- `validate_package_root` for a package that has not been accepted. -/
def validateIncomingRoot (package : StoredPackage) :
    PackageReading (StoredFile × PayloadNodes) := do
  .call .packageRoot .io
  .call .packageRoot .io
  .lift (validateTopLevelNames false package)
  let request ← .lift (requireFile package.request "request.json")
  let payload ← .lift (ofOption package.payload (.missingTopLevelEntry "payload"))
  .call .packageRoot .io
  let request ← .lift (validateRegularFile request "request.json")
  .call .packageRoot .io
  let payload ← .lift (ofOption payload (.invalidEntryType "payload"))
  pure (request, payload)

/-- `validate_package_root` for an accepted package. -/
def validateAcceptedRoot (package : StoredPackage) : PackageReading PackageLayout := do
  .call .packageRoot .io
  .call .packageRoot .io
  .lift (validateTopLevelNames true package)
  let request ← .lift (requireFile package.request "request.json")
  let payload ← .lift (ofOption package.payload (.missingTopLevelEntry "payload"))
  let digest ← .lift (requireFile package.digest "digest")
  let acceptance ← .lift (requireFile package.acceptance "acceptance.json")
  .call .packageRoot .io
  let request ← .lift (validateRegularFile request "request.json")
  .call .packageRoot .io
  let payload ← .lift (ofOption payload (.invalidEntryType "payload"))
  .call .packageRoot .io
  let digest ← .lift (validateRegularFile digest "digest")
  .call .packageRoot .io
  let acceptance ← .lift (validateRegularFile acceptance "acceptance.json")
  validateSidecar package.phase "phase.json"
  validateSidecar package.result "result.json"
  pure { request, payload, digest, acceptance }

/-- The content of a digest file: one line with a revision. -/
def digestLine (bytes : Bytes) : Option PackageDigest :=
  if maximumDigestFileBytes < bytes.length ∨ ¬ Bytes.validUtf8 bytes ∨
      bytes.getLast? ≠ some lineFeed ∨ lineFeed ∈ bytes.dropLast then none
  else (Revision.parse bytes.dropLast).map PackageDigest.mk

def readDigestFile (file : StoredFile) : PackageReading PackageDigest := do
  .call .digestFile .io
  .call .digestFile .io
  .lift (ofOption (digestLine file.bytes) .invalidStoredDigest)

/-- `read_limited_file`. -/
def readLimitedFile (site : IoSite) (file : StoredFile) (maximum : Nat) (path : String) :
    PackageReading Bytes := do
  .call site .io
  .lift (rejectIf (maximum < file.bytes.length) (.fileTooLarge path maximum file.bytes.length))
  .call site .io
  .call site .io
  pure file.bytes

def readAcceptanceFile (x : QueueExternals) (file : StoredFile) :
    PackageReading AcceptanceMetadata := do
  .call .acceptanceFile .io
  let bytes ← readLimitedFile .acceptanceFile file maximumAcceptanceFileBytes "acceptance.json"
  .lift (ofOption (x.acceptanceFormat.decode bytes) .invalidAcceptanceMetadata)

/-! ### The payload scan -/

/-- The text of a relative path. -/
def joinPath (components : List String) : String :=
  String.ofList (['/'].intercalate (components.map String.toList))

def parsePayloadPath (text : String) : Except PackageValidationError PayloadPath :=
  if h : validateRelativePath text = .ok () then .ok ⟨text, h⟩
  else .error (.invalidPayloadPath text)

def PayloadNodes.length : PayloadNodes → Nat
  | .nil => 0
  | .cons _ _ rest => rest.length + 1

/-- What `scan_payload_directory` has counted and collected. -/
structure PayloadScan where
  totalBytes : Nat
  fileCount : Nat
  entryCount : Nat
  directories : List (List String × PayloadPath)
  nonempty : List (List String)
  files : List PayloadFile

/-- The entry of a node that is not a directory. -/
def PayloadNode.entry : PayloadNode → FileEntry
  | .file content => .file content
  | .directory _ | .other => .other

/-- A regular payload file enters the totals. -/
def scanRegularFile (limits : PackageLimits) (parents : List String) (path : PayloadPath)
    (entry : FileEntry) (scan : PayloadScan) : Except PackageValidationError PayloadScan := do
  let file ← validateRegularFile entry ("payload/" ++ path.value)
  let length := file.bytes.length
  rejectIf (limits.maximumFileBytes < length)
    (.fileTooLarge path.value limits.maximumFileBytes length)
  rejectIf (2 ^ 64 ≤ scan.totalBytes + length)
    (.limitExceeded .totalBytes limits.maximumTotalBytes (2 ^ 64 - 1))
  rejectIf (2 ^ 64 ≤ scan.fileCount + 1)
    (.limitExceeded .fileCount limits.maximumFileCount (2 ^ 64 - 1))
  enforceTotals limits (scan.totalBytes + length) (scan.fileCount + 1)
  pure { scan with
    totalBytes := scan.totalBytes + length
    fileCount := scan.fileCount + 1
    nonempty := parents.inits ++ scan.nonempty
    files := scan.files ++ [⟨path, file.bytes⟩] }

/-- A directory is only counted; its entries come later. -/
def scanSubdirectory (limits : PackageLimits) (components : List String) (path : PayloadPath)
    (scan : PayloadScan) : Except PackageValidationError PayloadScan := do
  let actual := scan.directories.length + 1
  rejectIf (limits.maximumDirectoryCount < actual)
    (.limitExceeded .directoryCount limits.maximumDirectoryCount actual)
  pure { scan with directories := scan.directories ++ [(components, path)] }

def scanPayloadEntry (limits : PackageLimits) (parents : List String) (name : Option String)
    (node : PayloadNode) (scan : PayloadScan) : PackageReading PayloadScan := do
  .call .payloadScan .io
  let name ← .lift (ofOption name .invalidLayout)
  let components := parents ++ [name]
  let path ← .lift (parsePayloadPath (joinPath components))
  let actual := (splitSlash path.value).length
  .lift (rejectIf (limits.maximumPathComponents < actual)
    (.limitExceeded .pathComponents limits.maximumPathComponents actual))
  match node with
  | .directory _ => .lift (scanSubdirectory limits components path scan)
  | .file content => .lift (scanRegularFile limits parents path (.file content) scan)
  | .other => .lift (scanRegularFile limits parents path .other scan)

def scanPayloadEntries (limits : PackageLimits) (parents : List String) :
    PayloadNodes → PayloadScan → PackageReading PayloadScan
  | .nil, scan => pure scan
  | .cons name node rest, scan => do
      let scan ← scanPayloadEntry limits parents name node scan
      scanPayloadEntries limits parents rest scan

/-- One turn of the loop: the entries of one directory. -/
def scanLevel (limits : PackageLimits) (parents : List String) (children : PayloadNodes)
    (scan : PayloadScan) : PackageReading PayloadScan := do
  .call .payloadScan .io
  .call .payloadScan .io
  let remaining := limits.maximumEntryCount - scan.entryCount
  .lift (rejectIf (remaining < children.length)
    (.limitExceeded .entryCount limits.maximumEntryCount (scan.entryCount + remaining + 1)))
  scanPayloadEntries limits parents children
    { scan with entryCount := scan.entryCount + children.length }

/-- The directories below one level. The source keeps them on a stack, so the last
one is looked at first, with everything below it. -/
def scanBelow (limits : PackageLimits) (parents : List String) :
    PayloadNodes → PayloadScan → PackageReading PayloadScan
  | .nil, scan => pure scan
  | .cons (some name) (.directory children) rest, scan => do
      let scan ← scanBelow limits parents rest scan
      let scan ← scanLevel limits (parents ++ [name]) children scan
      scanBelow limits (parents ++ [name]) children scan
  | .cons _ _ rest, scan => scanBelow limits parents rest scan

/-- The directory `sort_by` puts first among those without a file below. -/
def emptyDirectory (scan : PayloadScan) : Option PayloadPath :=
  let sorted := scan.directories.insertionSort fun a b => a.1 ≤ b.1
  (sorted.find? fun directory => !scan.nonempty.contains directory.1).map Prod.snd

/-- The files below `payload/` in path order. -/
def scanPayloadDirectory (limits : PackageLimits) (children : PayloadNodes) (requestBytes : Nat) :
    PackageReading (List PayloadFile) := do
  let scan ← scanLevel limits [] children
    { totalBytes := requestBytes, fileCount := 1, entryCount := 1, directories := [],
      nonempty := [], files := [] }
  let scan ← scanBelow limits [] children scan
  match emptyDirectory scan with
  | some path => .lift (.error (.emptyPayloadDirectory path))
  | none => pure (scan.files.insertionSort fun a b => a.path.value ≤ b.path.value)

/-! ### Validation -/

/-- `validate_documents`: every document payload is read from disk once more. -/
def readDocuments (x : Externals) (limits : PackageLimits) (request : ChangeRequest)
    (payload : List PayloadFile) : Reading IoSite MarkdownValidationError Unit :=
  request.operations.forM fun operation =>
    match operation.writtenDocument with
    | none => pure ()
    | some (documentId, content, updatedRequired) => do
        .call .parseDocument .io
        let metadata ← .lift (parseDocument x limits request payload content)
        .lift (validateOperationMetadata metadata content documentId updatedRequired)

/-- `calculate_digest` opens and reads every payload file. -/
def readDigest (x : Externals) (canonicalRequest : Bytes) (payload : List PayloadFile) :
    PackageReading PackageDigest := do
  payload.forM fun _ => do
    .call .payloadDigest .io
    .call .payloadDigest .io
  pure (calculateDigest x canonicalRequest payload)

/-- The request a request file holds. -/
def decodeRequest (x : QueueExternals) (bytes : Bytes) :
    Except PackageValidationError ChangeRequest :=
  ofOption (x.decodeRequest bytes)
    (if x.requestPathInvalid bytes then .invalidRequestPath else .invalidRequest)

/-- `validate_package_contents`, on the request file and the entries of `payload/`. -/
def readPackageContents (x : QueueExternals) (policy : PackagePolicy) (requestFile : StoredFile)
    (children : PayloadNodes) : PackageReading (ValidatedPackage × List PayloadFile) := do
  let limits := policy.limits
  let bytes ← readLimitedFile .requestFile requestFile limits.maximumFileBytes "request.json"
  .lift (enforceTotals limits bytes.length 1)
  .lift (rejectIf (limits.maximumEntryCount < 1)
    (.limitExceeded .entryCount limits.maximumEntryCount 1))
  let request ← .lift (decodeRequest x bytes)
  .lift ((request.validate limits.request).mapError PackageValidationError.invalidRequestMetadata)
  let payload ← scanPayloadDirectory limits children bytes.length
  .lift (validatePayloadReferences policy request payload)
  (readDocuments x.toExternals limits request payload).mapError
    PackageValidationError.invalidFrontMatter
  let canonicalRequest ← .lift (ofOption (x.encodeRequest request) .canonicalRequestJson)
  let digest ← readDigest x.toExternals canonicalRequest payload
  pure ({ request, digest, payload := payload.map (PayloadFile.metadata x.toExternals),
          acceptance := none }, payload)

/-- `validate_package`: an extracted package that has not been accepted. -/
def readIncomingPackage (x : QueueExternals) (policy : PackagePolicy) (package : StoredPackage) :
    PackageReading ValidatedPackage := do
  let (request, payload) ← validateIncomingRoot package
  let (validated, _) ← readPackageContents x policy request payload
  pure validated

/-- `validate_accepted_package`. -/
def readAcceptedPackage (x : QueueExternals) (policy : PackagePolicy) (package : StoredPackage) :
    PackageReading ValidatedPackage := do
  let layout ← validateAcceptedRoot package
  let storedDigest ← readDigestFile layout.digest
  let acceptance ← readAcceptanceFile x layout.acceptance
  let (validated, _) ← readPackageContents x policy layout.request layout.payload
  .lift (rejectIf (storedDigest ≠ validated.digest)
    (.storedDigestMismatch storedDigest validated.digest))
  pure { validated with acceptance := some acceptance }

/-! ### What a successful validation has seen -/

/-- An entry as the queue writes it: a regular file that is neither linked nor
executable. -/
def FileEntry.IsPlain (entry : FileEntry) (file : StoredFile) : Prop :=
  entry = .file file ∧ file.hardLinked = false ∧ file.executable = false

theorem validateRegularFile_eq_ok {entry : FileEntry} {path : String} {file : StoredFile} :
    validateRegularFile entry path = .ok file ↔ entry.IsPlain file := by
  unfold validateRegularFile FileEntry.IsPlain
  cases entry with
  | other => simp
  | file content =>
      by_cases hlinked : content.hardLinked <;> by_cases hexecutable : content.executable <;>
        simp [hlinked, hexecutable] <;> rintro rfl <;> simp_all

/-- A sidecar that validation accepts. -/
def SidecarPlain (entry : Option FileEntry) : Prop :=
  ∀ found, entry = some found → ∃ file, found.IsPlain file

theorem validateSidecar_eq_ok {entry : Option FileEntry} {name : String} :
    (validateSidecar entry name).result = .ok () ↔ SidecarPlain entry := by
  cases entry with
  | none => simp [validateSidecar, SidecarPlain]
  | some entry =>
      simp only [validateSidecar, SidecarPlain, Reading.result_bind, Reading.result_call,
        Reading.result_lift, Reading.result_pure, ok_bind, bind_eq_ok, validateRegularFile_eq_ok]
      simp

/-- The layout an accepted package has to have. -/
structure StoredPackage.HasLayout (package : StoredPackage) (layout : PackageLayout) : Prop where
  unexpected : package.unexpected = []
  request : ∃ entry, package.request = some entry ∧ entry.IsPlain layout.request
  payload : package.payload = some (some layout.payload)
  digest : ∃ entry, package.digest = some entry ∧ entry.IsPlain layout.digest
  acceptance : ∃ entry, package.acceptance = some entry ∧ entry.IsPlain layout.acceptance
  phase : SidecarPlain package.phase
  result : SidecarPlain package.result

theorem validateTopLevelNames_accepted {package : StoredPackage} :
    validateTopLevelNames true package = .ok () ↔ package.unexpected = [] := by
  unfold validateTopLevelNames
  rcases package.unexpected with _ | ⟨_ | name, rest⟩ <;> simp

theorem validateAcceptedRoot_eq_ok {package : StoredPackage} {layout : PackageLayout} :
    (validateAcceptedRoot package).result = .ok layout ↔ package.HasLayout layout := by
  unfold validateAcceptedRoot requireFile
  simp only [Reading.result_bind, Reading.result_call, Reading.result_lift, Reading.result_pure,
    ok_bind, bind_eq_ok, exists_unit, validateTopLevelNames_accepted, ofOption_eq_ok,
    validateRegularFile_eq_ok, validateSidecar_eq_ok, Except.ok.injEq]
  constructor
  · rintro ⟨hunexpected, request, hrequest, payload, hpayload, digest, hdigest, acceptance,
      hacceptance, requestFile, hrequestFile, children, rfl, digestFile, hdigestFile,
      acceptanceFile, hacceptanceFile, hphase, hresult, rfl⟩
    exact ⟨hunexpected, ⟨request, hrequest, hrequestFile⟩, hpayload, ⟨digest, hdigest, hdigestFile⟩,
      ⟨acceptance, hacceptance, hacceptanceFile⟩, hphase, hresult⟩
  · rintro ⟨hunexpected, ⟨request, hrequest, hrequestFile⟩, hpayload, ⟨digest, hdigest, hdigestFile⟩,
      ⟨acceptance, hacceptance, hacceptanceFile⟩, hphase, hresult⟩
    exact ⟨hunexpected, request, hrequest, _, hpayload, digest, hdigest, acceptance, hacceptance,
      _, hrequestFile, _, rfl, _, hdigestFile, _, hacceptanceFile, hphase, hresult, rfl⟩

theorem readDigestFile_eq_ok {file : StoredFile} {digest : PackageDigest} :
    (readDigestFile file).result = .ok digest ↔ digestLine file.bytes = some digest := by
  simp [readDigestFile]

theorem readLimitedFile_eq_ok {site : IoSite} {file : StoredFile} {maximum : Nat} {path : String}
    {bytes : Bytes} :
    (readLimitedFile site file maximum path).result = .ok bytes ↔
      file.bytes.length ≤ maximum ∧ file.bytes = bytes := by
  simp [readLimitedFile, bind_eq_ok]

theorem readAcceptanceFile_eq_ok {x : QueueExternals} {file : StoredFile}
    {acceptance : AcceptanceMetadata} :
    (readAcceptanceFile x file).result = .ok acceptance ↔
      file.bytes.length ≤ maximumAcceptanceFileBytes ∧
        x.acceptanceFormat.decode file.bytes = some acceptance := by
  simp only [readAcceptanceFile, Reading.result_bind, Reading.result_call, Reading.result_lift,
    ok_bind, bind_eq_ok, readLimitedFile_eq_ok, ofOption_eq_ok]
  constructor
  · rintro ⟨bytes, ⟨hlength, rfl⟩, hdecode⟩
    exact ⟨hlength, hdecode⟩
  · rintro ⟨hlength, hdecode⟩
    exact ⟨_, ⟨hlength, rfl⟩, hdecode⟩

section Accepted

variable {x : QueueExternals} {policy : PackagePolicy} {package : StoredPackage}
  {validated : ValidatedPackage}

theorem readAcceptedPackage_eq_ok :
    (readAcceptedPackage x policy package).result = .ok validated ↔
      ∃ layout contents payload acceptance, package.HasLayout layout ∧
        (readPackageContents x policy layout.request layout.payload).result =
          .ok (contents, payload) ∧
        digestLine layout.digest.bytes = some contents.digest ∧
        layout.acceptance.bytes.length ≤ maximumAcceptanceFileBytes ∧
        x.acceptanceFormat.decode layout.acceptance.bytes = some acceptance ∧
        { contents with acceptance := some acceptance } = validated := by
  unfold readAcceptedPackage
  simp only [Reading.result_bind, Reading.result_lift, Reading.result_pure, bind_eq_ok,
    exists_unit, validateAcceptedRoot_eq_ok, readDigestFile_eq_ok, readAcceptanceFile_eq_ok,
    rejectIf_eq_ok, not_not, Except.ok.injEq, Prod.exists]
  constructor
  · rintro ⟨layout, hlayout, stored, hstored, acceptance, ⟨hlength, hdecode⟩, contents, payload,
      hcontents, rfl, hvalidated⟩
    exact ⟨layout, contents, payload, acceptance, hlayout, hcontents, hstored, hlength, hdecode,
      hvalidated⟩
  · rintro ⟨layout, contents, payload, acceptance, hlayout, hcontents, hstored, hlength, hdecode,
      hvalidated⟩
    exact ⟨layout, hlayout, _, hstored, acceptance, ⟨hlength, hdecode⟩, contents, payload, hcontents,
      rfl, hvalidated⟩

/-- Two package directories with the same immutable entries. -/
structure StoredPackage.SameContent (package other : StoredPackage) : Prop where
  request : other.request = package.request
  payload : other.payload = package.payload
  digest : other.digest = package.digest
  acceptance : other.acceptance = package.acceptance
  unexpected : other.unexpected = package.unexpected

/-- What the Worker writes beside a package does not change what validation says. -/
theorem readAcceptedPackage_of_sameContent {other : StoredPackage}
    (h : (readAcceptedPackage x policy package).result = .ok validated)
    (hsame : package.SameContent other) (hphase : SidecarPlain other.phase)
    (hresult : SidecarPlain other.result) :
    (readAcceptedPackage x policy other).result = .ok validated := by
  obtain ⟨layout, contents, payload, acceptance, hlayout, hrest⟩ := readAcceptedPackage_eq_ok.1 h
  refine readAcceptedPackage_eq_ok.2 ⟨layout, contents, payload, acceptance, ?_, hrest⟩
  exact {
    unexpected := hsame.unexpected.trans hlayout.unexpected
    request := by rw [hsame.request]; exact hlayout.request
    payload := hsame.payload.trans hlayout.payload
    digest := by rw [hsame.digest]; exact hlayout.digest
    acceptance := by rw [hsame.acceptance]; exact hlayout.acceptance
    phase := hphase
    result := hresult }

/-! ### Acceptance -/

/-- `write_digest_file`. -/
def digestEntry (digest : PackageDigest) : FileEntry :=
  .file { bytes := digest.revision.text ++ [lineFeed] }

/-- `write_acceptance_file`. -/
def acceptanceEntry (x : QueueExternals) (acceptance : AcceptanceMetadata) : FileEntry :=
  .file { bytes := x.acceptanceFormat.encode acceptance }

theorem digestLine_digestEntry (digest : PackageDigest) :
    digestLine (digest.revision.text ++ [lineFeed]) = some digest := by
  have hlength : (digest.revision.text ++ [lineFeed]).length = 72 := by
    rw [List.length_append, Revision.length_text]
    rfl
  have hascii : ∀ b ∈ digest.revision.text ++ [lineFeed], b < 0x80 := by
    intro b hb
    rcases List.mem_append.1 hb with hb | hb
    · exact (Revision.mem_text hb).2
    · rw [List.mem_singleton.1 hb]
      decide
  have hline : lineFeed ∉ digest.revision.text := by
    intro h
    exact absurd (Revision.mem_text h).1 (by decide)
  unfold digestLine
  rw [List.getLast?_concat, List.dropLast_concat, hlength, if_neg, Revision.parse_text]
  · rfl
  · rintro (h | h | h | h)
    · exact absurd h (by decide)
    · exact h (Bytes.validUtf8_of_ascii hascii)
    · exact h rfl
    · exact hline h

theorem validateTopLevelNames_incoming {package : StoredPackage} :
    validateTopLevelNames false package = .ok () ↔
      package.unexpected = [] ∧ package.digest = none ∧ package.acceptance = none ∧
        package.phase = none ∧ package.result = none := by
  unfold validateTopLevelNames
  rcases package.unexpected with _ | ⟨_ | name, rest⟩ <;> simp [bind_eq_ok]

/-- An incoming package and what its validation read of it. -/
theorem readIncomingPackage_eq_ok :
    (readIncomingPackage x policy package).result = .ok validated ↔
      ∃ request children payload,
        (package.unexpected = [] ∧ package.digest = none ∧ package.acceptance = none ∧
          package.phase = none ∧ package.result = none) ∧
        (∃ entry, package.request = some entry ∧ entry.IsPlain request) ∧
        package.payload = some (some children) ∧
        (readPackageContents x policy request children).result = .ok (validated, payload) := by
  unfold readIncomingPackage validateIncomingRoot requireFile
  simp only [Reading.result_bind, Reading.result_call, Reading.result_lift, Reading.result_pure,
    ok_bind, bind_eq_ok, exists_unit, validateTopLevelNames_incoming, ofOption_eq_ok,
    validateRegularFile_eq_ok, Except.ok.injEq, Prod.exists, Prod.mk.injEq]
  constructor
  · rintro ⟨request, children, ⟨hnames, entry, hentry, found, hfound, file, hfile, nodes, rfl, rfl,
      rfl⟩, contents, payload, hcontents, rfl⟩
    exact ⟨file, nodes, payload, hnames, ⟨entry, hentry, hfile⟩, hfound, hcontents⟩
  · rintro ⟨request, children, payload, hnames, ⟨entry, hentry, hfile⟩, hfound, hcontents⟩
    exact ⟨request, children, ⟨hnames, entry, hentry, _, hfound, request, hfile, children, rfl, rfl,
      rfl⟩, validated, payload, hcontents, rfl⟩

/-- A package that validation lets in is accepted again, with the acceptance record
it was given. -/
theorem readAcceptedPackage_of_incoming (acceptance : AcceptanceMetadata)
    (h : (readIncomingPackage x policy package).result = .ok validated) :
    (readAcceptedPackage x policy { package with
        digest := some (digestEntry validated.digest)
        acceptance := some (acceptanceEntry x acceptance) }).result =
      .ok { validated with acceptance := some acceptance } := by
  obtain ⟨request, children, payload, hnames, hrequest, hpayload, hcontents⟩ :=
    readIncomingPackage_eq_ok.1 h
  obtain ⟨hunexpected, -, -, hphase, hresult⟩ := hnames
  let layout : PackageLayout := {
    request := request
    payload := children
    digest := { bytes := validated.digest.revision.text ++ [lineFeed] }
    acceptance := { bytes := x.acceptanceFormat.encode acceptance } }
  refine readAcceptedPackage_eq_ok.2
    ⟨layout, validated, payload, acceptance, ?_, hcontents,
      digestLine_digestEntry validated.digest, x.acceptanceFormat.length_encode acceptance,
      x.acceptanceFormat.decode_encode acceptance, rfl⟩
  exact {
    unexpected := hunexpected
    request := hrequest
    payload := hpayload
    digest := ⟨_, rfl, rfl, rfl, rfl⟩
    acceptance := ⟨_, rfl, rfl, rfl, rfl⟩
    phase := by rw [SidecarPlain, hphase]; rintro _ ⟨⟩
    result := by rw [SidecarPlain, hresult]; rintro _ ⟨⟩ }

end Accepted

/-! ### What a failing call turns into

A call that fails makes the validation fail with an I/O error, and damage never does.
The one exception is the document parser: its failing read is reported as invalid front
matter. -/

section Errors

open Reading

/-- The error a failing call turns into. -/
def packageCallError (site : IoSite) (error : PackageValidationError) : Prop :=
  error = .io ∨ site = .parseDocument

abbrev PackageErrs {α : Type} (r : PackageReading α) : Prop :=
  Errs packageCallError (fun error => ¬ error = .io) r

theorem errs_io {site : IoSite} : PackageErrs (.call site .io) := errs_call (.inl rfl)

variable {x : QueueExternals} {policy : PackagePolicy} {limits : PackageLimits}

theorem validateRegularFile_avoids {entry : FileEntry} {path : String} :
    Avoids (· = .io) (validateRegularFile entry path) := by
  intro e h
  unfold validateRegularFile at h
  split at h
  · cases h
    simp
  · split at h
    · cases h
      simp
    · split at h
      · cases h
        simp
      · cases h

theorem validateTopLevelNames_avoids {accepted : Bool} {package : StoredPackage} :
    Avoids (· = .io) (validateTopLevelNames accepted package) := by
  unfold validateTopLevelNames
  rcases package.unexpected with _ | ⟨_ | name, rest⟩
  · exact (avoids_rejectIf (by simp)).bind fun _ _ => (avoids_rejectIf (by simp)).bind fun _ _ =>
      (avoids_rejectIf (by simp)).bind fun _ _ => avoids_rejectIf (by simp)
  · rintro e ⟨⟩
    simp
  · rintro e ⟨⟩
    simp

theorem validateSidecar_errs {entry : Option FileEntry} {name : String} :
    PackageErrs (validateSidecar entry name) := by
  cases entry with
  | none => exact errs_pure _
  | some entry =>
      exact errs_io.bind fun _ _ => (errs_lift validateRegularFile_avoids).bind fun _ _ => errs_pure _

theorem validateAcceptedRoot_errs {package : StoredPackage} :
    PackageErrs (validateAcceptedRoot package) := by
  refine errs_io.bind fun _ _ => errs_io.bind fun _ _ =>
    (errs_lift validateTopLevelNames_avoids).bind fun _ _ =>
    (errs_ofOption (by simp)).bind fun _ _ =>
    (errs_ofOption (by simp)).bind fun _ _ =>
    (errs_ofOption (by simp)).bind fun _ _ =>
    (errs_ofOption (by simp)).bind fun _ _ => errs_io.bind fun _ _ => ?_
  refine (errs_lift validateRegularFile_avoids).bind fun _ _ => errs_io.bind fun _ _ =>
    (errs_ofOption (by simp)).bind fun _ _ => errs_io.bind fun _ _ =>
    (errs_lift validateRegularFile_avoids).bind fun _ _ => errs_io.bind fun _ _ =>
    (errs_lift validateRegularFile_avoids).bind fun _ _ => ?_
  exact validateSidecar_errs.bind fun _ _ => validateSidecar_errs.bind fun _ _ => errs_pure _

theorem readDigestFile_errs {file : StoredFile} : PackageErrs (readDigestFile file) :=
  errs_io.bind fun _ _ => errs_io.bind fun _ _ => errs_ofOption (by simp)

theorem readLimitedFile_errs {site : IoSite} {file : StoredFile} {maximum : Nat} {path : String} :
    PackageErrs (readLimitedFile site file maximum path) :=
  errs_io.bind fun _ _ => (errs_rejectIf (by simp)).bind fun _ _ =>
    errs_io.bind fun _ _ => errs_io.bind fun _ _ => errs_pure _

theorem readAcceptanceFile_errs {file : StoredFile} : PackageErrs (readAcceptanceFile x file) :=
  errs_io.bind fun _ _ => readLimitedFile_errs.bind fun _ _ =>
    errs_ofOption (by simp)

theorem enforceTotals_avoids {totalBytes fileCount : Nat} :
    Avoids (· = .io) (enforceTotals limits totalBytes fileCount) := by
  intro e h
  unfold enforceTotals at h
  split at h
  · cases h
    simp
  · split at h
    · cases h
      simp
    · cases h

/-! The payload scan. -/

theorem scanRegularFile_avoids {parents : List String} {path : PayloadPath} {entry : FileEntry}
    {scan : PayloadScan} : Avoids (· = .io) (scanRegularFile limits parents path entry scan) :=
  validateRegularFile_avoids.bind fun _ _ => (avoids_rejectIf (by simp)).bind fun _ _ =>
    (avoids_rejectIf (by simp)).bind fun _ _ => (avoids_rejectIf (by simp)).bind fun _ _ =>
      enforceTotals_avoids.bind fun _ _ => avoids_ok

theorem scanPayloadEntry_errs {parents : List String} {name : Option String} {node : PayloadNode}
    {scan : PayloadScan} : PackageErrs (scanPayloadEntry limits parents name node scan) := by
  refine errs_io.bind fun _ _ => (errs_ofOption (by simp)).bind fun name _ =>
    (errs_lift ?path).bind fun path _ => (errs_rejectIf (by simp)).bind fun _ _ => ?_
  case path =>
    intro e h
    unfold parsePayloadPath at h
    split at h
    · cases h
    · cases h
      simp
  cases node with
  | directory children =>
      exact errs_lift ((avoids_rejectIf (by simp)).bind fun _ _ => avoids_ok)
  | file content => exact errs_lift scanRegularFile_avoids
  | other => exact errs_lift scanRegularFile_avoids

theorem scanPayloadEntries_errs {parents : List String} {children : PayloadNodes} {scan : PayloadScan} :
    PackageErrs (scanPayloadEntries limits parents children scan) := by
  match children with
  | .nil => exact errs_pure _
  | .cons name node rest => exact scanPayloadEntry_errs.bind fun _ _ => scanPayloadEntries_errs

theorem scanLevel_errs {parents : List String} {children : PayloadNodes} {scan : PayloadScan} :
    PackageErrs (scanLevel limits parents children scan) :=
  errs_io.bind fun _ _ => errs_io.bind fun _ _ =>
    (errs_rejectIf (by simp)).bind fun _ _ => scanPayloadEntries_errs

theorem scanBelow_errs {parents : List String} {children : PayloadNodes} {scan : PayloadScan} :
    PackageErrs (scanBelow limits parents children scan) := by
  fun_induction scanBelow limits parents children scan with
  | case1 => exact errs_pure _
  | case2 parents name children rest scan ihRest ihChildren =>
      exact (ihRest).bind fun _ _ => scanLevel_errs.bind fun scan _ => ihChildren scan
  | case3 parents name node rest scan hnode ih => exact ih

theorem scanPayloadDirectory_errs {children : PayloadNodes} {requestBytes : Nat} :
    PackageErrs (scanPayloadDirectory limits children requestBytes) := by
  refine scanLevel_errs.bind fun _ _ => scanBelow_errs.bind fun scan _ => ?_
  split
  · exact errs_lift (by rintro e ⟨⟩; simp)
  · exact errs_pure _

/-! The contents. -/

theorem validatePayloadReferences_avoids {request : ChangeRequest} {payload : List PayloadFile} :
    Avoids (· = .io) (validatePayloadReferences policy request payload) := by
  have hname : ∀ operation, Avoids (· = PackageValidationError.io)
      (validateReferenceName policy operation) := by
    intro operation e h
    unfold validateReferenceName at h
    split at h
    · split at h
      · cases h
        simp
      · cases h
    · split at h
      · cases h
        simp
      · cases h
    · split at h
      · cases h
      · cases h
        simp
    · cases h
    · cases h
  have hstep : ∀ materialized operation, Avoids (· = PackageValidationError.io)
      (validateReference policy payload materialized operation) := by
    intro materialized operation
    refine (hname operation).bind fun _ _ => ?_
    cases operation.payloadSource with
    | none => exact avoids_ok
    | some source =>
        exact (avoids_ofOption (by simp)).bind fun _ _ => (avoids_rejectIf (by simp)).bind fun _ _ =>
          (avoids_rejectIf (by simp)).bind fun _ _ => avoids_ok
  refine (avoids_foldlM (P := fun _ => True) (fun _ _ _ _ => hstep _ _)
    (fun _ _ _ _ _ _ => trivial) trivial).bind fun _ _ => ?_
  dsimp only
  split
  · rintro e ⟨⟩
    simp
  · exact avoids_ok

theorem readDocuments_calls {request : ChangeRequest} {payload : List PayloadFile} :
    Errs (fun site _ => site = IoSite.parseDocument) (fun _ => True)
      (readDocuments x.toExternals limits request payload) := by
  refine errs_forM fun operation _ => ?_
  split
  · exact errs_pure _
  · have hcall : Errs (fun site _ => site = IoSite.parseDocument) (fun _ => True)
        (call IoSite.parseDocument MarkdownValidationError.io) := errs_call rfl
    exact hcall.bind fun _ _ => (errs_lift fun _ _ => trivial).bind fun _ _ =>
      errs_lift fun _ _ => trivial

theorem readPackageContents_errs {requestFile : StoredFile} {children : PayloadNodes} :
    PackageErrs (readPackageContents x policy requestFile children) := by
  refine readLimitedFile_errs.bind fun _ _ => (errs_lift enforceTotals_avoids).bind fun _ _ =>
    (errs_rejectIf (by simp)).bind fun _ _ => (errs_ofOption ?_).bind
    fun _ _ => (errs_lift (avoids_mapError (by simp))).bind fun _ _ =>
    scanPayloadDirectory_errs.bind fun payload _ =>
    (errs_lift validatePayloadReferences_avoids).bind fun _ _ => ?_
  · split <;> simp
  refine (readDocuments_calls.mapError (fun _ _ hsite => .inr hsite) (by simp)).bind fun _ _ =>
    (errs_ofOption (by simp)).bind fun _ _ => ?_
  refine Errs.bind ?_ fun _ _ => errs_pure _
  exact (errs_forM fun _ _ => errs_io.bind fun _ _ => errs_io).bind fun _ _ => errs_pure _

theorem readAcceptedPackage_errs {package : StoredPackage} :
    PackageErrs (readAcceptedPackage x policy package) :=
  validateAcceptedRoot_errs.bind fun _ _ => readDigestFile_errs.bind fun _ _ =>
    readAcceptanceFile_errs.bind fun _ _ => readPackageContents_errs.bind fun _ _ =>
      (errs_rejectIf (by simp)).bind fun _ _ => errs_pure _

end Errors

end AgentKnowledge
