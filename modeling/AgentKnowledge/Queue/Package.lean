import AgentKnowledge.Core.Markdown

/-!
Request packages and their validation (`crates/queue/src/package.rs` and
`package/markdown.rs`), and the Worker's claims on them
(`crates/queue/src/file_queue/worker.rs`).

`PackageDirectory` holds what the directory of an accepted package says: the
request file, the payload files the scan of `payload/` lists in path order, the
stored digest and the acceptance record. `validateAcceptedPackage` is the
revalidation the Worker makes before it applies a claim. What an accepted
package guarantees to the planner is collected in the lemmas at the end.
-/

namespace AgentKnowledge

open Results

/-- Configurable byte and file-count limits for one request package. -/
structure PackageLimits where
  maximumTotalBytes : Nat := 64 * 1024 * 1024
  maximumFileBytes : Nat := 32 * 1024 * 1024
  maximumFileCount : Nat := 256
  maximumDirectoryCount : Nat := 1024
  maximumEntryCount : Nat := 1280
  maximumPathComponents : Nat := 64
  maximumFrontMatterBytes : Nat := 64 * 1024
  request : RequestLimits := {}
  document : DocumentLimits := {}
deriving DecidableEq, Repr

/-- An attachment extension: lowercase ASCII letters or digits, at least one. -/
def validExtension (extension : String) : Bool :=
  !extension.toList.isEmpty &&
    extension.toList.all fun c => isAsciiLowercase c || isAsciiDigit c

/-- Package validation policy supplied by application configuration. -/
structure PackagePolicy where
  limits : PackageLimits
  allowedAttachmentExtensions : List String
  valid : ∀ extension ∈ allowedAttachmentExtensions, validExtension extension

/-- The built-in policy. -/
def PackagePolicy.default : PackagePolicy where
  limits := {}
  allowedAttachmentExtensions := ["png", "jpg", "jpeg", "svg", "csv", "json", "pdf", "html"]
  valid := by decide

/-- The extension of a file name (`Path::extension`): what follows the last dot,
unless that dot is missing or starts the name. -/
def fileExtension (name : String) : Option String :=
  let before := name.toList.rdropWhile (· != '.')
  if before.dropLast.isEmpty then none
  else some (String.ofList (name.toList.rtakeWhile (· != '.')))

theorem fileExtension_of_toList {name : String} {stem extension : List Char}
    (hname : name.toList = stem ++ '.' :: extension) (hstem : stem ≠ [])
    (hextension : '.' ∉ extension) : fileExtension name = some (String.ofList extension) := by
  have hafter : ∀ c ∈ extension.reverse, (c != '.') = true := by
    intro c hc
    rw [bne_iff_ne]
    rintro rfl
    exact hextension (List.mem_reverse.1 hc)
  have hreverse : name.toList.reverse = extension.reverse ++ '.' :: stem.reverse := by simp [hname]
  have hdrop : name.toList.rdropWhile (· != '.') = stem ++ ['.'] := by
    rw [List.rdropWhile, hreverse, List.dropWhile_append_of_pos hafter,
      List.dropWhile_cons_of_neg (by decide)]
    simp
  have htake : name.toList.rtakeWhile (· != '.') = extension := by
    rw [List.rtakeWhile, hreverse, List.takeWhile_append_of_pos hafter,
      List.takeWhile_cons_of_neg (by decide)]
    simp
  simp [fileExtension, hdrop, htake, hstem]

/-- Whether a file name uses one configured attachment extension. -/
def PackagePolicy.allowsAttachmentName (policy : PackagePolicy) (name : String) : Bool :=
  match fileExtension name with
  | some extension => extension ∈ policy.allowedAttachmentExtensions
  | none => false

/-- A deterministic digest of normalized request metadata and payload bytes. -/
structure PackageDigest where
  revision : Revision
deriving DecidableEq, Repr

def maximumClientIdBytes : Nat := 63

/-- The texts `ClientId::from_str` accepts (`crates/protocol/src/lib.rs`). -/
def validClientId (text : List Char) : Bool :=
  !text.isEmpty && text.length ≤ maximumClientIdBytes && text.head? != some '-' &&
    text.getLast? != some '-' && text.all fun c => isAsciiLowercase c || isAsciiDigit c || c == '-'

/-- A stable identifier assigned to one authenticated SSH public key. -/
structure ClientId where
  value : String
  valid : validClientId value.toList
deriving DecidableEq

/-- Immutable Gateway-owned ordering metadata for an accepted package. -/
structure AcceptanceMetadata where
  sequence : Nat
  acceptedAt : OffsetDateTime
  clientId : Option ClientId
  sequence_valid : 0 < sequence ∧ sequence < 2 ^ 64
deriving DecidableEq

theorem AcceptanceMetadata.first_valid : 0 < 1 ∧ 1 < 2 ^ 64 := by decide

/-- Metadata for one validated payload file. -/
structure PayloadMetadata where
  path : PayloadPath
  byteLength : Nat
  revision : Revision
deriving DecidableEq

/-- A package whose layout, request, payload references, limits, and digest are valid. -/
structure ValidatedPackage where
  request : ChangeRequest
  digest : PackageDigest
  payload : List PayloadMetadata
  acceptance : Option AcceptanceMetadata
deriving DecidableEq

/-- One regular file below `payload/`. -/
structure PayloadFile where
  path : PayloadPath
  bytes : Bytes
deriving DecidableEq

/-- The durable content of an accepted package directory. -/
structure PackageDirectory where
  requestJson : Bytes
  payload : List PayloadFile
  storedDigest : PackageDigest
  acceptance : AcceptanceMetadata
  paths_nodup : (payload.map PayloadFile.path).Nodup
deriving DecidableEq

/-- The configurable limit that rejected a package. -/
inductive PackageLimit where
  | totalBytes
  | materializedBytes
  | individualFileBytes
  | fileCount
  | directoryCount
  | entryCount
  | pathComponents
deriving DecidableEq, Repr

/-- A Markdown front-matter parsing or consistency failure. -/
inductive MarkdownValidationError where
  | io
  | invalidDocument (path : PayloadPath) (source : DocumentParseError)
  | invalidMetadata (path : PayloadPath) (source : DocumentValidationError)
  | documentIdMismatch (path : PayloadPath) (expected found : DocumentId)
  | requestIdMismatch (path : PayloadPath) (expected found : RequestId)
  | requestMetadataMismatch (path : PayloadPath) (field : String)
  | missingUpdatedTimestamp (path : PayloadPath)
deriving DecidableEq

/-- A package validation failure, as far as the modelled checks can raise it. -/
inductive PackageValidationError where
  | io
  | invalidLayout
  | missingTopLevelEntry (name : String)
  | unexpectedTopLevelEntry (name : String)
  | invalidEntryType (path : String)
  | invalidPayloadPath (path : String)
  | emptyPayloadDirectory (path : PayloadPath)
  | invalidRequest
  | invalidRequestPath
  | invalidRequestMetadata (source : RequestValidationError)
  | canonicalRequestJson
  | hardLinkedFile (path : String)
  | executableFile (path : String)
  | limitExceeded (limit : PackageLimit) (maximum actual : Nat)
  | fileTooLarge (path : String) (maximum actual : Nat)
  | markdownExtensionRequired (path : PayloadPath)
  | unsupportedAttachment (name : String)
  | missingPayload (path : PayloadPath)
  | unexpectedPayload (path : PayloadPath)
  | invalidFrontMatter (source : MarkdownValidationError)
  | invalidStoredDigest
  | invalidAcceptanceMetadata
  | storedDigestMismatch (stored calculated : PackageDigest)
deriving DecidableEq

def MarkdownValidationError.errorCode : MarkdownValidationError → ErrorCode
  | .io => .temporaryFailure
  | _ => .invalidFrontMatter

/-- The stable protocol error code of a failure. -/
def PackageValidationError.errorCode : PackageValidationError → ErrorCode
  | .io => .temporaryFailure
  | .invalidPayloadPath _ | .invalidRequestPath => .invalidPath
  | .invalidRequestMetadata (.unsupportedProtocolVersion _) => .invalidProtocol
  | .limitExceeded .. | .fileTooLarge .. => .limitExceeded
  | .unsupportedAttachment _ => .unsupportedFileType
  | .invalidFrontMatter source => source.errorCode
  | .invalidLayout | .missingTopLevelEntry _ | .unexpectedTopLevelEntry _ | .invalidEntryType _
  | .hardLinkedFile _ | .executableFile _ | .emptyPayloadDirectory _ | .invalidRequest
  | .invalidRequestMetadata _ | .markdownExtensionRequired _ | .missingPayload _
  | .unexpectedPayload _ => .invalidRequest
  | .canonicalRequestJson => .internalError
  | .invalidStoredDigest | .invalidAcceptanceMetadata | .storedDigestMismatch .. =>
      .contentValidationFailed

/-! ### Payload references -/

/-- The payload file an operation reads. -/
def Operation.payloadSource : Operation → Option PayloadPath
  | .createDocument _ content => some content
  | .updateDocument _ _ content => some content
  | .addAttachment _ source _ => some source
  | .moveDocument .. => none
  | .archiveDocument .. => none

/-- The last component of a payload path. -/
def PayloadPath.fileName (path : PayloadPath) : String :=
  (splitSlash path.value).getLastD ""

/-- The extension check of one operation. -/
def validateReferenceName (policy : PackagePolicy) : Operation → Except PackageValidationError Unit
  | .createDocument _ content | .updateDocument _ _ content =>
      if fileExtension content.fileName ≠ some "md" then
        .error (.markdownExtensionRequired content)
      else .ok ()
  | .addAttachment _ _ name =>
      if policy.allowsAttachmentName name.value then .ok ()
      else .error (.unsupportedAttachment name.value)
  | .moveDocument .. | .archiveDocument .. => .ok ()

/-- One turn of the loop of `validate_payload_references`: the bytes all
operations materialize so far go in and come out. -/
def validateReference (policy : PackagePolicy) (payload : List PayloadFile) (materialized : Nat)
    (operation : Operation) : Except PackageValidationError Nat := do
  validateReferenceName policy operation
  match operation.payloadSource with
  | none => pure materialized
  | some source =>
      let file ← ofOption (payload.find? (·.path == source)) (.missingPayload source)
      let next := materialized + file.bytes.length
      let maximum := policy.limits.maximumTotalBytes
      rejectIf (2 ^ 64 ≤ next) (.limitExceeded .materializedBytes maximum (2 ^ 64 - 1))
      rejectIf (maximum < next) (.limitExceeded .materializedBytes maximum next)
      pure next

def validatePayloadReferences (policy : PackagePolicy) (request : ChangeRequest)
    (payload : List PayloadFile) : Except PackageValidationError Unit := do
  let _ ← request.operations.foldlM (validateReference policy payload) 0
  let referenced := request.operations.filterMap Operation.payloadSource
  match payload.find? fun file => !referenced.contains file.path with
  | some unexpected => .error (.unexpectedPayload unexpected.path)
  | none => pure ()

/-! ### Document payloads -/

def validateOptionalRequestMetadata (path : PayloadPath) (field : String)
    (documentValue requestValue : Option String) : Except MarkdownValidationError Unit :=
  match documentValue with
  | some value =>
      if some value ≠ requestValue then .error (.requestMetadataMismatch path field) else .ok ()
  | none => .ok ()

def parseDocument (x : Externals) (limits : PackageLimits) (request : ChangeRequest)
    (payload : List PayloadFile) (path : PayloadPath) :
    Except MarkdownValidationError DocumentMetadata := do
  let file ← ofOption (payload.find? (·.path == path)) .io
  let metadata ← (decodeDocumentMetadata x file.bytes limits.maximumFrontMatterBytes).mapError
    (MarkdownValidationError.invalidDocument path)
  (metadata.validate request.documentType limits.document).mapError
    (MarkdownValidationError.invalidMetadata path)
  rejectIf (metadata.requestId ≠ request.requestId)
    (.requestIdMismatch path request.requestId metadata.requestId)
  validateOptionalRequestMetadata path "node" metadata.node request.node
  validateOptionalRequestMetadata path "agent" metadata.agent request.agent
  rejectIf (metadata.session.isSome ∧ metadata.session ≠ request.session)
    (.requestMetadataMismatch path "session")
  pure metadata

def validateOperationMetadata (metadata : DocumentMetadata) (path : PayloadPath)
    (expected : DocumentId) (updatedRequired : Bool) : Except MarkdownValidationError Unit :=
  if metadata.documentId ≠ expected then
    .error (.documentIdMismatch path expected metadata.documentId)
  else if updatedRequired && metadata.updated.isNone then .error (.missingUpdatedTimestamp path)
  else .ok ()

/-- The document a create or update operation writes, with the payload it reads
and whether that payload must carry an update time. -/
def Operation.writtenDocument : Operation → Option (DocumentId × PayloadPath × Bool)
  | .createDocument documentId content => some (documentId, content, false)
  | .updateDocument documentId _ content => some (documentId, content, true)
  | .moveDocument .. | .archiveDocument .. | .addAttachment .. => none

/-- The source keeps the metadata it has parsed, one entry a payload path; since
parsing reads only the immutable payload, parsing again gives the same result. -/
def validateDocuments (x : Externals) (limits : PackageLimits) (request : ChangeRequest)
    (payload : List PayloadFile) : Except MarkdownValidationError Unit :=
  request.operations.forM fun operation =>
    match operation.writtenDocument with
    | none => pure ()
    | some (documentId, content, updatedRequired) => do
        let metadata ← parseDocument x limits request payload content
        validateOperationMetadata metadata content documentId updatedRequired

/-! ### The package digest -/

/-- Eight bytes, most significant first (`u64::to_be_bytes`). -/
def bigEndian64 (value : Nat) : Bytes :=
  (List.range 8).map fun i => UInt8.ofNat (value / 256 ^ (7 - i) % 256)

def lengthPrefixed (bytes : Bytes) : Bytes := bigEndian64 bytes.length ++ bytes

def digestDomain : Bytes := Bytes.ascii "agent-knowledge-request-package-v1" ++ [0]

def utf8Bytes (text : String) : Bytes := text.toUTF8.toList

/-- The byte stream `calculate_digest` feeds to the hash. -/
def digestInput (canonicalRequest : Bytes) (payload : List PayloadFile) : Bytes :=
  digestDomain ++ lengthPrefixed (Bytes.ascii "request") ++ lengthPrefixed canonicalRequest ++
    bigEndian64 payload.length ++
    payload.flatMap fun file =>
      lengthPrefixed (utf8Bytes file.path.value) ++ bigEndian64 file.bytes.length ++ file.bytes

def calculateDigest (x : Externals) (canonicalRequest : Bytes) (payload : List PayloadFile) :
    PackageDigest :=
  ⟨x.digest (digestInput canonicalRequest payload)⟩

/-! ### Package validation -/

def enforceTotals (limits : PackageLimits) (totalBytes fileCount : Nat) :
    Except PackageValidationError Unit :=
  if limits.maximumTotalBytes < totalBytes then
    .error (.limitExceeded .totalBytes limits.maximumTotalBytes totalBytes)
  else if limits.maximumFileCount < fileCount then
    .error (.limitExceeded .fileCount limits.maximumFileCount fileCount)
  else .ok ()

/-- The limits the payload scan enforces on one file, with the running totals. -/
def scanPayloadFile (limits : PackageLimits) (totals : Nat × Nat) (file : PayloadFile) :
    Except PackageValidationError (Nat × Nat) := do
  let components := (splitSlash file.path.value).length
  rejectIf (limits.maximumPathComponents < components)
    (.limitExceeded .pathComponents limits.maximumPathComponents components)
  rejectIf (limits.maximumFileBytes < file.bytes.length)
    (.fileTooLarge file.path.value limits.maximumFileBytes file.bytes.length)
  let next := (totals.1 + file.bytes.length, totals.2 + 1)
  enforceTotals limits next.1 next.2
  pure next

def PayloadFile.metadata (x : Externals) (file : PayloadFile) : PayloadMetadata where
  path := file.path
  byteLength := file.bytes.length
  revision := x.digest file.bytes

def validatePackageContents (x : Externals) (policy : PackagePolicy) (directory : PackageDirectory) :
    Except PackageValidationError ValidatedPackage := do
  let limits := policy.limits
  rejectIf (limits.maximumFileBytes < directory.requestJson.length)
    (.fileTooLarge "request.json" limits.maximumFileBytes directory.requestJson.length)
  enforceTotals limits directory.requestJson.length 1
  rejectIf (limits.maximumEntryCount < 1)
    (.limitExceeded .entryCount limits.maximumEntryCount 1)
  let request ← ofOption (x.decodeRequest directory.requestJson) .invalidRequest
  (request.validate limits.request).mapError PackageValidationError.invalidRequestMetadata
  let _ ← directory.payload.foldlM (scanPayloadFile limits) (directory.requestJson.length, 1)
  validatePayloadReferences policy request directory.payload
  (validateDocuments x limits request directory.payload).mapError
    PackageValidationError.invalidFrontMatter
  let canonicalRequest ← ofOption (x.encodeRequest request) .canonicalRequestJson
  pure {
    request
    digest := calculateDigest x canonicalRequest directory.payload
    payload := directory.payload.map (PayloadFile.metadata x)
    acceptance := none }

/-- Revalidate an accepted package and its stored digest. -/
def validateAcceptedPackage (x : Externals) (policy : PackagePolicy) (directory : PackageDirectory) :
    Except PackageValidationError ValidatedPackage := do
  let package ← validatePackageContents x policy directory
  rejectIf (directory.storedDigest ≠ package.digest)
    (.storedDigestMismatch directory.storedDigest package.digest)
  pure { package with acceptance := some directory.acceptance }

/-- `package` is a validated reading of `directory`, with or without the
acceptance record the queue adds. -/
def ValidatedPackage.Reads (package : ValidatedPackage) (x : Externals) (policy : PackagePolicy)
    (directory : PackageDirectory) : Prop :=
  validatePackageContents x policy directory = .ok { package with acceptance := none }

/-! ### Claims -/

/-- Durable ownership of one claimed request. -/
structure ClaimToken where
  requestId : RequestId
  batchId : BatchId
  attempt : Nat
deriving DecidableEq, Repr

/-- An exclusively claimed package: its token, the package as it was validated
when it was claimed, and its directory in `processing/`. -/
structure ClaimedPackage where
  token : ClaimToken
  package : ValidatedPackage
  packageRoot : PackageDirectory
deriving DecidableEq

/-! ### What an accepted package guarantees -/

/-- The bytes of a payload file. -/
def PackageDirectory.payloadAt (directory : PackageDirectory) (path : PayloadPath) :
    Option Bytes :=
  (directory.payload.find? (·.path == path)).map PayloadFile.bytes

section Guarantees

variable {x : Externals} {policy : PackagePolicy} {directory : PackageDirectory}
  {package : ValidatedPackage}

theorem ValidatedPackage.Reads.checks (h : package.Reads x policy directory) :
    validatePayloadReferences policy package.request directory.payload = .ok () ∧
      validateDocuments x policy.limits package.request directory.payload = .ok () ∧
      package.request.validate policy.limits.request = .ok () ∧
      package.payload = directory.payload.map (PayloadFile.metadata x) := by
  unfold Reads validatePackageContents at h
  simp only [bind_eq_ok, exists_unit, rejectIf_eq_ok, ofOption_eq_ok, mapError_eq_ok, pure_eq_ok,
    Except.ok.injEq] at h
  obtain ⟨-, -, -, request, -, hvalid, totals, -, hreferences, hdocuments, h⟩ := h
  obtain ⟨canonical, -, hpackage⟩ := h
  obtain ⟨rfl, -, hpayload, -⟩ := ValidatedPackage.mk.inj hpackage
  exact ⟨hreferences, hdocuments, hvalid, hpayload.symm⟩

/-- Revalidation reads the package. -/
theorem reads_of_accepted (h : validateAcceptedPackage x policy directory = .ok package) :
    package.Reads x policy directory := by
  unfold validateAcceptedPackage at h
  simp only [bind_eq_ok, exists_unit, rejectIf_eq_ok, pure_eq_ok, Except.ok.injEq] at h
  obtain ⟨contents, hcontents, -, rfl⟩ := h
  have hnone : contents.acceptance = none := by
    unfold validatePackageContents at hcontents
    simp only [bind_eq_ok, exists_unit, rejectIf_eq_ok, ofOption_eq_ok, mapError_eq_ok, pure_eq_ok,
      Except.ok.injEq] at hcontents
    obtain ⟨-, -, -, request, -, -, totals, -, -, -, canonical, -, rfl⟩ := hcontents
    rfl
  rw [ValidatedPackage.Reads, hcontents, ← hnone]

theorem validateReference_of_mem {request : ChangeRequest} {payload : List PayloadFile}
    {operation : Operation} (h : validatePayloadReferences policy request payload = .ok ())
    (hmem : operation ∈ request.operations) :
    ∃ before after, validateReference policy payload before operation = .ok after := by
  obtain ⟨total, htotal, -⟩ := bind_eq_ok.1 h
  obtain ⟨before, after, hsplit⟩ := List.append_of_mem hmem
  rw [hsplit, foldlM_append_eq_ok] at htotal
  obtain ⟨middle, -, hrest⟩ := htotal
  obtain ⟨next, hnext, -⟩ := foldlM_cons_eq_ok.1 hrest
  exact ⟨middle, next, hnext⟩

/-- Attachments have an allowed name. -/
theorem ValidatedPackage.Reads.attachment_allowed (h : package.Reads x policy directory)
    {documentId : DocumentId} {source : PayloadPath} {name : AttachmentName}
    (hmem : .addAttachment documentId source name ∈ package.request.operations) :
    policy.allowsAttachmentName name.value := by
  obtain ⟨before, after, hreference⟩ := validateReference_of_mem h.checks.1 hmem
  unfold validateReference at hreference
  simp only [bind_eq_ok, exists_unit] at hreference
  obtain ⟨hname, -⟩ := hreference
  simp only [validateReferenceName] at hname
  split at hname
  · assumption
  · cases hname

/-- Every payload file an operation refers to is there. -/
theorem ValidatedPackage.Reads.payload_present (h : package.Reads x policy directory)
    {operation : Operation} (hmem : operation ∈ package.request.operations)
    {source : PayloadPath} (hsource : operation.payloadSource = some source) :
    ∃ file, directory.payload.find? (·.path == source) = some file := by
  obtain ⟨before, after, hreference⟩ := validateReference_of_mem h.checks.1 hmem
  unfold validateReference at hreference
  simp only [hsource, bind_eq_ok, exists_unit, ofOption_eq_ok] at hreference
  obtain ⟨-, file, hfile, -⟩ := hreference
  exact ⟨file, hfile⟩

/-- The Markdown of a created or updated document carries its identity. -/
theorem ValidatedPackage.Reads.written_metadata (h : package.Reads x policy directory)
    {operation : Operation} (hmem : operation ∈ package.request.operations)
    {documentId : DocumentId} {content : PayloadPath} {updatedRequired : Bool}
    (hwritten : operation.writtenDocument = some (documentId, content, updatedRequired))
    {bytes : Bytes} (hbytes : directory.payloadAt content = some bytes) :
    ∃ metadata, decodeDocumentMetadata x bytes policy.limits.maximumFrontMatterBytes =
        .ok metadata ∧ metadata.documentId = documentId := by
  have hdocument := forM_eq_ok.1 h.checks.2.1 operation hmem
  simp only [hwritten, bind_eq_ok] at hdocument
  obtain ⟨metadata, hparse, hvalid⟩ := hdocument
  unfold parseDocument at hparse
  simp only [bind_eq_ok, exists_unit, ofOption_eq_ok, mapError_eq_ok, pure_eq_ok,
    Except.ok.injEq] at hparse
  obtain ⟨file, hfile, decoded, hdecoded, -, -, -, -, -, rfl⟩ := hparse
  simp only [PackageDirectory.payloadAt, hfile, Option.map_some, Option.some.injEq] at hbytes
  subst hbytes
  refine ⟨decoded, hdecoded, ?_⟩
  unfold validateOperationMetadata at hvalid
  split at hvalid
  · cases hvalid
  · rename_i hid
    exact not_not.1 hid

end Guarantees

end AgentKnowledge
