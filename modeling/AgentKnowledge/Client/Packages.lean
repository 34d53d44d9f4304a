import AgentKnowledge.Core.Revision
import AgentKnowledge.Gateway.Inspect
import AgentKnowledge.Queue.Digest
import AgentKnowledge.Queue.Records
import AgentKnowledge.Queue.PayloadTree
import AgentKnowledge.Repository.Layout

/-!
Request packages of the MCP tools (`crates/client/src/mcp_create.rs`, `mcp_archive.rs`,
`mcp_package.rs`).

A tool call becomes a change request and at most one payload file. `PreparedPackage.new` repeats
the limits of the package policy, so that what it lets through is a package the queue accepts
(`PreparedPackage.accepted`). A created document is written between two delimiter lines with the
body as it was given after them; `encodeMarkdown_spec` says that both are read back.

Identifiers and times that the caller left out are generated. The generated values enter as
`Fresh`.
-/

namespace AgentKnowledge.Client

open Results FileTree

/-! ### Libraries -/

/-- What the tools take from other libraries besides what the queue takes. -/
structure McpExternals extends QueueExternals where
  /-- `serde_json::to_vec_pretty`. -/
  encodePretty : ChangeRequest → Option Bytes
  parseUlid : String → Option Ulid
  parseTime : String → Option OffsetDateTime

/-- The encoders are inverted by the decoders, and the two forms of JSON encode the same requests. -/
structure McpExternals.Lawful (x : McpExternals) : Prop where
  yaml : x.YamlReadable
  decode_pretty : ∀ request bytes, x.encodePretty request = some bytes →
    x.decodeRequest bytes = some request
  encode_of_pretty : ∀ request, (x.encodePretty request).isSome → (x.encodeRequest request).isSome

/-- Values generated during a call. -/
structure Fresh where
  requestId : RequestId
  documentId : DocumentId
  now : OffsetDateTime

/-- Why a call fails: a text of its own, or the text of a validation failure. -/
inductive PrepareError where
  | message (text : String)
  | request (source : RequestValidationError)
  | document (source : DocumentValidationError)
deriving DecidableEq

/-- The canonical text of an identifier (`from_str` of the identifier types). -/
def parseId (x : McpExternals) (field : String) (text : String) : Except PrepareError Ulid := do
  let ulid ← ofOption (x.parseUlid text) (.message (field ++ " must be a canonical ULID"))
  rejectIf (ulid.toText ≠ text.toList) (.message (field ++ " must be a canonical ULID"))
  pure ulid

def parseCreatedAt (x : McpExternals) (text : String) : Except PrepareError OffsetDateTime :=
  ofOption (x.parseTime text) (.message "created_at must be an RFC 3339 timestamp")

/-! ### Prepared packages -/

def newPayloadFile (path : PayloadPath) (contents : Bytes) : Except PrepareError PayloadFile := do
  rejectIf ('/' ∈ path.value.toList)
    (.message "structured MCP payload paths must be single file names")
  pure ⟨path, contents⟩

structure PreparedPackage where
  requestJson : Bytes
  payload : List PayloadFile
deriving DecidableEq

def enforceFileSize (name : String) (actual maximum : Nat) : Except PrepareError Unit :=
  rejectIf (maximum < actual) (.message s!"{name} exceeds {maximum} bytes")

/-- One turn of the loop over the payload. -/
def addFileBytes (limits : PackageLimits) (totalBytes : Nat) (file : PayloadFile) :
    Except PrepareError Nat := do
  enforceFileSize "payload file" file.bytes.length limits.maximumFileBytes
  rejectIf (2 ^ 64 ≤ totalBytes + file.bytes.length) (.message "request package is too large")
  pure (totalBytes + file.bytes.length)

def PreparedPackage.new (x : McpExternals) (request : ChangeRequest) (payload : List PayloadFile) :
    Except PrepareError PreparedPackage := do
  let limits := PackagePolicy.default.limits
  (request.validate limits.request).mapError .request
  let requestJson ← ofOption (x.encodePretty request)
    (.message "could not encode the change request")
  let fileCount := payload.length + 1
  rejectIf (2 ^ 64 ≤ fileCount) (.message "request package contains too many files")
  rejectIf (limits.maximumFileCount < fileCount)
    (.message s!"request package exceeds {limits.maximumFileCount} files")
  rejectIf (limits.maximumEntryCount < fileCount)
    (.message s!"request package exceeds {limits.maximumEntryCount} entries")
  enforceFileSize "change request" requestJson.length limits.maximumFileBytes
  let totalBytes ← payload.foldlM (addFileBytes limits) requestJson.length
  rejectIf (limits.maximumTotalBytes < totalBytes)
    (.message s!"request package exceeds {limits.maximumTotalBytes} bytes")
  pure ⟨requestJson, payload⟩

/-- The private temporary directory. Files are created new, neither linked nor executable. -/
def PreparedPackage.materialize (package : PreparedPackage) : Except IoError StoredPackage := do
  let payload ← package.payload.foldlM
    (fun tree file => tree.createNew file.path.components { bytes := file.bytes })
    (FileTree.ofFiles [])
  pure {
    request := some (.file { bytes := package.requestJson })
    payload := some (some (payloadNodes payload))
    digest := none
    acceptance := none
    phase := none
    result := none
    unexpected := [] }

/-! ### Creating a document -/

def documentPayloadPath : PayloadPath := ⟨"document.md", by rfl⟩

inductive CreateDocumentType where
  | index
  | log
  | experiment
  | decision
  | runbook
  | reference
deriving DecidableEq

def CreateDocumentType.into : CreateDocumentType → DocumentType
  | .index => .index
  | .log => .log
  | .experiment => .experiment
  | .decision => .decision
  | .runbook => .runbook
  | .reference => .reference

structure CreateDocumentParameters where
  title : String
  body : String
  project : Option String
  documentType : CreateDocumentType
  node : Option String
  agent : Option String
  session : Option String
  tags : List String
  requestId : Option String
  documentId : Option String
  createdAt : Option String
deriving DecidableEq

/-- The parameters that are read from texts. -/
structure CreateDocumentIntent where
  requestId : RequestId
  documentId : DocumentId
  session : Option SessionId
  project : Option ProjectId
  createdAt : OffsetDateTime

namespace CreateDocumentParameters

variable (x : McpExternals) (fresh : Fresh) (parameters : CreateDocumentParameters)

def parse : Except PrepareError CreateDocumentIntent := do
  let requestId ← parameters.requestId.mapM (parseId x "request_id")
  let documentId ← parameters.documentId.mapM (parseId x "document_id")
  let session ← parameters.session.mapM (parseId x "session")
  let project ← parameters.project.mapM fun text =>
    ofOption (ProjectId.parse text) (.message "project must be a valid project slug")
  let createdAt ← parameters.createdAt.mapM (parseCreatedAt x)
  pure {
    requestId := (requestId.map RequestId.mk).getD fresh.requestId
    documentId := (documentId.map DocumentId.mk).getD fresh.documentId
    session := session.map SessionId.mk
    project
    createdAt := createdAt.getD fresh.now }

/-- The request that is built. -/
def request (intent : CreateDocumentIntent) : ChangeRequest where
  protocolVersion := currentProtocolVersion
  requestId := intent.requestId
  title := parameters.title
  project := intent.project
  documentType := parameters.documentType.into
  node := parameters.node
  agent := parameters.agent
  session := intent.session
  createdAt := intent.createdAt
  operations := [.createDocument intent.documentId documentPayloadPath]

/-- The front matter that is built. -/
def metadata (intent : CreateDocumentIntent) : DocumentMetadata where
  schemaVersion := currentDocumentSchemaVersion
  documentId := intent.documentId
  title := parameters.title
  created := intent.createdAt
  updated := none
  node := parameters.node
  agent := parameters.agent
  session := intent.session
  requestId := intent.requestId
  tags := parameters.tags
  status := .active
  supersededBy := none

end CreateDocumentParameters

/-- Front matter and body as one Markdown text. -/
def encodeMarkdown (x : McpExternals) (limits : PackageLimits) (metadata : DocumentMetadata)
    (body : Bytes) : Except PrepareError Bytes := do
  let yaml ← ofOption (x.encodeYaml metadata) (.message "could not encode document front matter")
  let lastLine := if yaml.getLast? = some lineFeed then [] else [lineFeed]
  let frontMatterBytes := yaml.length + lastLine.length
  rejectIf (2 ^ 64 ≤ frontMatterBytes) (.message "document front matter is too large")
  rejectIf (limits.maximumFrontMatterBytes < frontMatterBytes)
    (.message s!"document front matter exceeds {limits.maximumFrontMatterBytes} bytes")
  rejectIf (2 ^ 64 ≤ frontMatterBytes + body.length + 9) (.message "document is too large")
  pure (Bytes.ascii "---\n" ++ yaml ++ lastLine ++ Bytes.ascii "---\n\n" ++ body)

def CreateDocumentParameters.prepare (x : McpExternals) (fresh : Fresh)
    (parameters : CreateDocumentParameters) : Except PrepareError PreparedPackage := do
  let limits := PackagePolicy.default.limits
  let intent ← parameters.parse x fresh
  let request := parameters.request intent
  (request.validate limits.request).mapError .request
  let metadata := parameters.metadata intent
  (metadata.validate parameters.documentType.into limits.document).mapError .document
  let markdown ← encodeMarkdown x limits metadata (utf8Bytes parameters.body)
  let file ← newPayloadFile documentPayloadPath markdown
  PreparedPackage.new x request [file]

/-! ### Archiving a document -/

structure ArchiveDocumentParameters where
  documentId : String
  expectedRevision : String
  requestId : Option String
  createdAt : Option String
deriving DecidableEq

structure ArchiveDocumentIntent where
  documentId : DocumentId
  expectedRevision : Revision
  requestId : RequestId
  createdAt : OffsetDateTime

def ArchiveDocumentParameters.parse (x : McpExternals) (fresh : Fresh)
    (parameters : ArchiveDocumentParameters) : Except PrepareError ArchiveDocumentIntent := do
  let documentId ← parseId x "document_id" parameters.documentId
  let expectedRevision ← ofOption (Revision.parse (utf8Bytes parameters.expectedRevision))
    (.message "expected_revision must be a canonical SHA-256 revision")
  let requestId ← parameters.requestId.mapM (parseId x "request_id")
  let createdAt ← parameters.createdAt.mapM (parseCreatedAt x)
  pure {
    documentId := ⟨documentId⟩
    expectedRevision
    requestId := (requestId.map RequestId.mk).getD fresh.requestId
    createdAt := createdAt.getD fresh.now }

/-- The request that is built. -/
def ArchiveDocumentIntent.request (intent : ArchiveDocumentIntent) (summary : DocumentSummary) :
    ChangeRequest where
  protocolVersion := currentProtocolVersion
  requestId := intent.requestId
  title := "Archive document " ++ String.ofList intent.documentId.toText
  project := summary.project
  documentType := summary.documentType
  node := none
  agent := none
  session := none
  createdAt := intent.createdAt
  operations := [.archiveDocument intent.documentId intent.expectedRevision]

def ArchiveDocumentIntent.prepare (x : McpExternals) (intent : ArchiveDocumentIntent)
    (summary : DocumentSummary) : Except PrepareError PreparedPackage := do
  rejectIf (summary.revision ≠ intent.expectedRevision)
    (.message "expected_revision does not match the committed document revision")
  rejectIf summary.archived (.message "document is already archived")
  rejectIf (summary.documentType = .log ∨ summary.documentType = .index)
    (.message "logs and index documents cannot be archived")
  rejectIf (summary.metadata.status ≠ .active) (.message "only active documents can be archived")
  PreparedPackage.new x (intent.request summary) []

/-! ### The written directory -/

/-- A request file and the entries of `payload/`, as the queue finds them. -/
def unaccepted (requestJson : Bytes) (payload : PayloadNodes) : StoredPackage where
  request := some (.file { bytes := requestJson })
  payload := some (some payload)
  digest := none
  acceptance := none
  phase := none
  result := none
  unexpected := []

/-- The entries of `payload/` with one file at the top. -/
def oneFile (name : String) (bytes : Bytes) : PayloadNodes :=
  .cons (some name) (.file { bytes }) .nil

section Directory

theorem node_ofFiles_nil (name : String) :
    (FileTree.ofFiles [] : FileTree StoredFile).node [name] = none := by
  rw [node_ofFiles]
  rfl

theorem materialize_nil (requestJson : Bytes) :
    PreparedPackage.materialize ⟨requestJson, []⟩ = .ok (unaccepted requestJson .nil) := by
  rfl

theorem payloadNodes_createNew {tree : FileTree StoredFile} {name : String} {bytes : Bytes}
    (h : (FileTree.ofFiles []).createNew [name] { bytes } = .ok tree) :
    payloadNodes tree = oneFile name bytes := by
  obtain ⟨-, -, hnode⟩ := createNew_eq_ok_iff.1 h
  have hnames : tree.childNames [] = [name] := by
    refine List.perm_singleton.1 ((List.perm_ext_iff_of_nodup (tree.nodup_childNames [])
      (List.nodup_singleton name)).2 fun other => ?_)
    rw [mem_childNames, List.nil_append, hnode, List.mem_singleton]
    by_cases hname : other = name <;> simp [hname, node_ofFiles_nil]
  have hfile : payloadNode tree tree.height [name] = .file { bytes } := by
    rw [FileTree.height, payloadNode, hnode, if_pos rfl]
  rw [payloadNodes, hnames, PayloadNodes.ofNames, hfile]
  rfl

theorem materialize_singleton {requestJson : Bytes} {file : PayloadFile}
    (hpath : file.path.components = [file.path.value]) :
    PreparedPackage.materialize ⟨requestJson, [file]⟩ =
      .ok (unaccepted requestJson (oneFile file.path.value file.bytes)) := by
  obtain ⟨tree, htree⟩ : ∃ tree, (FileTree.ofFiles []).createNew [file.path.value]
      ({ bytes := file.bytes } : StoredFile) = .ok tree := by
    rw [FileTree.createNew, dif_pos (node_ofFiles_nil _), dif_pos (by rfl)]
    exact ⟨_, rfl⟩
  rw [PreparedPackage.materialize, List.foldlM_cons, hpath, htree]
  simp only [ok_bind, List.foldlM_nil, pure_bind, payloadNodes_createNew htree]
  rfl

variable {limits : PackageLimits} {requestBytes : Nat}

/-- A payload that fits is scanned to its files. -/
theorem scanPayloadDirectory_of_fits (hwords : limits.InWords) {nodes : PayloadNodes}
    (hfits : PayloadFits limits requestBytes nodes.scanned) :
    (scanPayloadDirectory limits nodes requestBytes).result =
      .ok (sortFiles (nodes.levelFiles [] ++ nodes.filesBelow [])) := by
  obtain ⟨payload, hpayload⟩ := (scanPayloadDirectory_isOk_iff hwords
    (Nat.le_of_add_right_le hfits.total) (Nat.le_of_add_right_le hfits.files)
    (Nat.le_of_add_right_le hfits.entryCount)).2 hfits
  rw [hpayload, (scanPayloadDirectory_eq_ok hpayload).1]

theorem scanPayloadDirectory_nil (hwords : limits.InWords)
    (htotal : requestBytes ≤ limits.maximumTotalBytes) (hfiles : 1 ≤ limits.maximumFileCount)
    (hentries : 1 ≤ limits.maximumEntryCount) :
    (scanPayloadDirectory limits .nil requestBytes).result = .ok [] := by
  refine scanPayloadDirectory_of_fits hwords ?_
  constructor <;> simp [PayloadNodes.scanned, PayloadNodes.level, PayloadNodes.nested, htotal,
    hfiles, hentries]

theorem scanPayloadDirectory_oneFile (hwords : limits.InWords) {path : PayloadPath} {bytes : Bytes}
    (hpath : path.components = [path.value]) (hcomponents : 1 ≤ limits.maximumPathComponents)
    (hfile : bytes.length ≤ limits.maximumFileBytes)
    (htotal : requestBytes + bytes.length ≤ limits.maximumTotalBytes)
    (hfiles : 2 ≤ limits.maximumFileCount) (hentries : 2 ≤ limits.maximumEntryCount) :
    (scanPayloadDirectory limits (oneFile path.value bytes) requestBytes).result =
      .ok [⟨path, bytes⟩] := by
  have hjoin : joinPath [path.value] = path.value := by
    rw [← hpath, path.joinPath_components]
  have hscanned : (oneFile path.value bytes).scanned =
      [⟨[], some path.value, .file { bytes }⟩] := rfl
  have hfits : PayloadFits limits requestBytes (oneFile path.value bytes).scanned := by
    rw [hscanned]
    constructor
    · have hvalid := path.valid
      have hlength : (splitSlash path.value).length ≤ limits.maximumPathComponents := by
        rw [← PayloadPath.components, hpath]
        exact hcomponents
      simpa [ScannedEntry.Fits, ScannedEntry.components, hjoin] using ⟨hvalid, hlength, hfile⟩
    · simpa [ScannedEntry.bytes] using htotal
    · simpa [ScannedEntry.isFile] using hfiles
    · simp [ScannedEntry.isDirectory]
    · simpa using hentries
    · simp [ScannedEntry.isDirectory]
  have hread : payloadFile [path.value] { bytes } = [⟨path, bytes⟩] := by
    rw [payloadFile, hjoin, parsePayloadPath_eq_ok.2 rfl]
  rw [scanPayloadDirectory_of_fits hwords hfits, oneFile]
  simp [PayloadNodes.levelFiles, PayloadNodes.filesBelow, hread, sortFiles]

end Directory

/-! ### Acceptance -/

section Accepted

theorem result_readDocuments (x : Externals) (limits : PackageLimits) (request : ChangeRequest)
    (payload : List PayloadFile) :
    (readDocuments x limits request payload).result = validateDocuments x limits request payload := by
  rw [readDocuments, Reading.result_forM, validateDocuments]
  congr 1
  funext operation
  cases operation.writtenDocument <;> simp

theorem result_readDigest (x : Externals) (canonical : Bytes) (payload : List PayloadFile) :
    (readDigest x canonical payload).result = .ok (calculateDigest x canonical payload) := by
  have hreads : payload.forM (fun _ => Except.ok ()) =
      (.ok () : Except PackageValidationError Unit) := forM_eq_ok.2 fun _ _ => rfl
  simp only [readDigest, Reading.result_bind, Reading.result_forM, Reading.result_call, ok_bind,
    hreads, Reading.result_pure]

/-- A directory whose parts pass their checks is accepted. -/
theorem readIncomingPackage_of_checks {x : QueueExternals} {policy : PackagePolicy}
    {requestJson canonical : Bytes} {nodes : PayloadNodes} {request : ChangeRequest}
    {payload : List PayloadFile} (hlength : requestJson.length ≤ policy.limits.maximumFileBytes)
    (htotal : requestJson.length ≤ policy.limits.maximumTotalBytes)
    (hcounts : 1 ≤ policy.limits.maximumFileCount ∧ 1 ≤ policy.limits.maximumEntryCount)
    (hdecode : x.decodeRequest requestJson = some request)
    (hvalid : request.validate policy.limits.request = .ok ())
    (hscan : (scanPayloadDirectory policy.limits nodes requestJson.length).result = .ok payload)
    (hreferences : validatePayloadReferences policy request payload = .ok ())
    (hdocuments : validateDocuments x.toExternals policy.limits request payload = .ok ())
    (hcanonical : x.encodeRequest request = some canonical) :
    (readIncomingPackage x policy (unaccepted requestJson nodes)).result = .ok {
      request
      digest := calculateDigest x.toExternals canonical payload
      payload := payload.map (PayloadFile.metadata x.toExternals)
      acceptance := none } := by
  have hroot : (validateIncomingRoot (unaccepted requestJson nodes)).result =
      .ok ({ bytes := requestJson }, nodes) := rfl
  have hread : (readLimitedFile .requestFile { bytes := requestJson }
      policy.limits.maximumFileBytes "request.json").result = .ok requestJson :=
    readLimitedFile_eq_ok.2 ⟨hlength, rfl⟩
  have hnone : rejectIf (policy.limits.maximumEntryCount < 1)
      (PackageValidationError.limitExceeded .entryCount policy.limits.maximumEntryCount 1) =
        .ok () := rejectIf_eq_ok.2 (Nat.not_lt.2 hcounts.2)
  simp only [readIncomingPackage, readPackageContents, Reading.result_bind, Reading.result_lift,
    Reading.result_mapError, Reading.result_pure, hroot, hread, ok_bind,
    enforceTotals_eq_ok.2 ⟨htotal, hcounts.1⟩, hnone, decodeRequest, hdecode, ofOption, hvalid,
    Except.mapError, hscan, hreferences, result_readDocuments, hdocuments, hcanonical,
    result_readDigest]

/-- What `PreparedPackage.new` has checked. -/
theorem PreparedPackage.new_eq_ok {x : McpExternals} {request : ChangeRequest}
    {payload : List PayloadFile} {package : PreparedPackage}
    (h : PreparedPackage.new x request payload = .ok package) :
    request.validate PackagePolicy.default.limits.request = .ok () ∧
      x.encodePretty request = some package.requestJson ∧ package.payload = payload ∧
      package.requestJson.length ≤ PackagePolicy.default.limits.maximumFileBytes ∧
      (∀ file ∈ payload, file.bytes.length ≤ PackagePolicy.default.limits.maximumFileBytes) ∧
      package.requestJson.length + (payload.map fun file => file.bytes.length).sum ≤
        PackagePolicy.default.limits.maximumTotalBytes := by
  simp only [PreparedPackage.new, bind_eq_ok, exists_unit, mapError_eq_ok, ofOption_eq_ok,
    enforceFileSize, rejectIf_eq_ok, Nat.not_lt, pure_eq_ok, Except.ok.injEq] at h
  obtain ⟨hvalid, requestJson, hjson, -, -, -, hrequest, total, hfold, htotal, rfl⟩ := h
  have hadded : ∀ (files : List PayloadFile) (start : Nat),
      files.foldlM (addFileBytes PackagePolicy.default.limits) start = .ok total →
        (∀ file ∈ files, file.bytes.length ≤ PackagePolicy.default.limits.maximumFileBytes) ∧
          total = start + (files.map fun file => file.bytes.length).sum := by
    intro files
    induction files with
    | nil =>
        intro start h
        simpa [eq_comm] using h
    | cons file files ih =>
        intro start h
        simp only [foldlM_cons_eq_ok, addFileBytes, bind_eq_ok, exists_unit, enforceFileSize,
          rejectIf_eq_ok, Nat.not_lt, pure_eq_ok, Except.ok.injEq] at h
        obtain ⟨next, ⟨hfile, -, rfl⟩, hrest⟩ := h
        obtain ⟨hfiles, rfl⟩ := ih _ hrest
        refine ⟨List.forall_mem_cons.2 ⟨hfile, hfiles⟩, ?_⟩
        rw [List.map_cons, List.sum_cons, Nat.add_assoc]
  obtain ⟨hfiles, rfl⟩ := hadded payload _ hfold
  exact ⟨hvalid, hjson, rfl, hrequest, hfiles, htotal⟩

theorem defaultLimits_inWords : PackagePolicy.default.limits.InWords := by
  constructor <;> decide

variable {x : McpExternals} (hx : x.Lawful) {request : ChangeRequest}
include hx

/-- A prepared package is accepted if its payload, once written, is scanned to the files it was
prepared with and these are what the operations need. -/
theorem PreparedPackage.accepted {package : PreparedPackage} {payload : List PayloadFile}
    {nodes : PayloadNodes} (hnew : PreparedPackage.new x request payload = .ok package)
    (hwrite : ∀ requestJson, PreparedPackage.materialize ⟨requestJson, payload⟩ =
      .ok (unaccepted requestJson nodes))
    (hscan : (scanPayloadDirectory PackagePolicy.default.limits nodes
      package.requestJson.length).result = .ok payload)
    (hreferences : validatePayloadReferences .default request payload = .ok ())
    (hdocuments : validateDocuments x.toExternals PackagePolicy.default.limits request payload =
      .ok ()) :
    ∃ validated, package.materialize = .ok (unaccepted package.requestJson nodes) ∧
      (readIncomingPackage x.toQueueExternals .default
        (unaccepted package.requestJson nodes)).result = .ok validated ∧
      validated.request = request := by
  obtain ⟨hvalid, hjson, hpayload, hlength, -, htotal⟩ := PreparedPackage.new_eq_ok hnew
  obtain ⟨canonical, hcanonical⟩ := Option.isSome_iff_exists.1
    (hx.encode_of_pretty request (by rw [hjson]; rfl))
  refine ⟨_, ?_, readIncomingPackage_of_checks hlength (Nat.le_of_add_right_le htotal) (by decide)
    (hx.decode_pretty request _ hjson) hvalid hscan hreferences hdocuments hcanonical, rfl⟩
  rw [← hwrite, ← hpayload]

/-- The Markdown that is written is read back. -/
theorem encodeMarkdown_spec {limits : PackageLimits} {metadata : DocumentMetadata}
    {body markdown : Bytes} (hbody : Bytes.validUtf8 body)
    (h : encodeMarkdown x limits metadata body = .ok markdown) :
    decodeDocumentMetadata x.toExternals markdown limits.maximumFrontMatterBytes = .ok metadata ∧
      markdownBody markdown = .ok (lineFeed :: body) := by
  simp only [encodeMarkdown, bind_eq_ok, exists_unit, ofOption_eq_ok, rejectIf_eq_ok, Nat.not_lt,
    pure_eq_ok, Except.ok.injEq] at h
  obtain ⟨yaml, hyaml, -, hlength, -, rfl⟩ := h
  have hterminated : yaml ++ (if yaml.getLast? = some lineFeed then [] else [lineFeed]) =
      terminated yaml := by
    unfold terminated
    split <;> simp
  have hwritten : Bytes.ascii "---\n" ++ yaml ++
      (if yaml.getLast? = some lineFeed then [] else [lineFeed]) ++ Bytes.ascii "---\n\n" ++ body =
        writtenMarkdown yaml (lineFeed :: body) := by
    rw [List.append_assoc (Bytes.ascii "---\n") yaml, hterminated, writtenMarkdown,
      List.append_assoc _ (Bytes.ascii "---\n\n"), List.append_assoc _ (Bytes.ascii "---\n")]
    rfl
  have hutf : Bytes.validUtf8 (lineFeed :: body) :=
    (Bytes.validUtf8_append (a := [lineFeed]) (by decide)).trans hbody
  rw [← List.length_append, hterminated] at hlength
  rw [hwritten]
  exact ⟨decodeDocumentMetadata_of_written hx.yaml hyaml hutf hlength,
    markdownBody_written hx.yaml hyaml hutf⟩

end Accepted

/-! ### The tools -/

section Tools

variable {x : McpExternals} {fresh : Fresh}

theorem documentPayloadPath_components :
    documentPayloadPath.components = [documentPayloadPath.value] := by
  decide +kernel

/-- The document of a create request carries what the request says. -/
theorem validateDocuments_create {parameters : CreateDocumentParameters}
    {intent : CreateDocumentIntent} {markdown : Bytes}
    (hvalid : (parameters.metadata intent).validate parameters.documentType.into
      PackagePolicy.default.limits.document = .ok ())
    (hdecode : decodeDocumentMetadata x.toExternals markdown
      PackagePolicy.default.limits.maximumFrontMatterBytes = .ok (parameters.metadata intent)) :
    validateDocuments x.toExternals PackagePolicy.default.limits (parameters.request intent)
      [⟨documentPayloadPath, markdown⟩] = .ok () := by
  have hoptional : ∀ (field : String) (value : Option String),
      validateOptionalRequestMetadata documentPayloadPath field value value = .ok () := by
    rintro field (_ | value) <;> simp [validateOptionalRequestMetadata]
  have hparse : parseDocument x.toExternals PackagePolicy.default.limits
      (parameters.request intent) [⟨documentPayloadPath, markdown⟩] documentPayloadPath =
        .ok (parameters.metadata intent) := by
    simp only [parseDocument, bind_eq_ok, exists_unit, ofOption_eq_ok, mapError_eq_ok,
      rejectIf_eq_ok, pure_eq_ok]
    refine ⟨⟨documentPayloadPath, markdown⟩, by simp, _, hdecode, hvalid, ?_, hoptional _ _,
      hoptional _ _, ?_, rfl⟩ <;>
      simp [CreateDocumentParameters.metadata, CreateDocumentParameters.request]
  refine forM_eq_ok.2 fun operation hoperation => ?_
  rw [List.mem_singleton.1 hoperation]
  simp only [Operation.writtenDocument, hparse, ok_bind]
  simp [validateOperationMetadata, CreateDocumentParameters.metadata]

theorem validatePayloadReferences_create {parameters : CreateDocumentParameters}
    {intent : CreateDocumentIntent} {markdown : Bytes}
    (hlength : markdown.length ≤ PackagePolicy.default.limits.maximumTotalBytes) :
    validatePayloadReferences .default (parameters.request intent)
      [⟨documentPayloadPath, markdown⟩] = .ok () := by
  have hword : PackagePolicy.default.limits.maximumTotalBytes < 2 ^ 64 := by decide
  have hname : ∀ documentId, validateReferenceName .default
      (.createDocument documentId documentPayloadPath) = .ok () := by
    intro documentId
    rw [validateReferenceName, if_neg (by decide +kernel)]
  have hreference : validateReference .default [⟨documentPayloadPath, markdown⟩] 0
      (.createDocument intent.documentId documentPayloadPath) = .ok markdown.length := by
    simp only [validateReference, hname, ok_bind, Operation.payloadSource, bind_eq_ok, exists_unit,
      ofOption_eq_ok, rejectIf_eq_ok, pure_eq_ok, Except.ok.injEq]
    exact ⟨⟨documentPayloadPath, markdown⟩, by simp, by simp; omega, by simpa using hlength, by simp⟩
  simp [validatePayloadReferences, CreateDocumentParameters.request, hreference, ok_bind,
    Operation.payloadSource]

end Tools

/-- What the tools write is accepted, and read back as what they built. -/
theorem mcp_packages_accepted (x : McpExternals) (hx : x.Lawful) (fresh : Fresh) :
    (∀ (parameters : CreateDocumentParameters) (package : PreparedPackage),
      parameters.prepare x fresh = .ok package →
      ∃ intent, parameters.parse x fresh = .ok intent ∧ ∃ directory markdown validated,
        package.materialize = .ok directory ∧
        (readIncomingPackage x.toQueueExternals .default directory).result = .ok validated ∧
        validated.request = parameters.request intent ∧
        directory.payload = some (some (oneFile "document.md" markdown)) ∧
        decodeDocumentMetadata x.toExternals markdown
          PackagePolicy.default.limits.maximumFrontMatterBytes = .ok (parameters.metadata intent) ∧
        markdownBody markdown = .ok (Bytes.ascii "\n" ++ utf8Bytes parameters.body)) ∧
    ∀ (parameters : ArchiveDocumentParameters) (summary : DocumentSummary)
      (intent : ArchiveDocumentIntent) (package : PreparedPackage),
      parameters.parse x fresh = .ok intent → intent.prepare x summary = .ok package →
      ∃ directory validated, package.materialize = .ok directory ∧
        (readIncomingPackage x.toQueueExternals .default directory).result = .ok validated ∧
        validated.request = intent.request summary := by
  constructor
  · intro parameters package h
    simp only [CreateDocumentParameters.prepare, bind_eq_ok, exists_unit, mapError_eq_ok] at h
    obtain ⟨intent, hintent, -, hvalid, markdown, hmarkdown, file, hfile, hnew⟩ := h
    simp only [newPayloadFile, bind_eq_ok, exists_unit, pure_eq_ok, Except.ok.injEq] at hfile
    obtain ⟨-, rfl⟩ := hfile
    obtain ⟨hdecode, hbody⟩ := encodeMarkdown_spec hx (Bytes.validUtf8_toUTF8 _) hmarkdown
    obtain ⟨-, -, -, -, hlength, htotal⟩ := PreparedPackage.new_eq_ok hnew
    rw [List.map_singleton, List.sum_singleton] at htotal
    have hscan := scanPayloadDirectory_oneFile defaultLimits_inWords
      documentPayloadPath_components (by decide) (hlength _ (by simp)) htotal (by decide)
      (by decide)
    obtain ⟨validated, hwrite, hread, hrequest⟩ := PreparedPackage.accepted hx hnew
      (fun _ => materialize_singleton documentPayloadPath_components) hscan
      (validatePayloadReferences_create (Nat.le_of_add_left_le htotal))
      (validateDocuments_create hvalid hdecode)
    exact ⟨intent, hintent, _, markdown, validated, hwrite, hread, hrequest, rfl, hdecode, hbody⟩
  · intro parameters summary intent package _ h
    simp only [ArchiveDocumentIntent.prepare, bind_eq_ok, exists_unit] at h
    obtain ⟨-, -, -, -, hnew⟩ := h
    obtain ⟨-, -, -, -, -, htotal⟩ := PreparedPackage.new_eq_ok hnew
    have hscan := scanPayloadDirectory_nil defaultLimits_inWords htotal (by decide) (by decide)
    obtain ⟨validated, hwrite, hread, hrequest⟩ := PreparedPackage.accepted hx hnew materialize_nil
      hscan rfl rfl
    exact ⟨_, validated, hwrite, hread, hrequest⟩

namespace PackagesSample

def fresh : Fresh := ⟨QueueSample.requestId 1, QueueSample.document 2, QueueSample.now⟩

/-- The body starts like a delimiter, has Windows line ends and no last line feed. -/
def parameters : CreateDocumentParameters where
  title := "note"
  body := "---\r\nx\r\n---"
  project := none
  documentType := .decision
  node := none
  agent := none
  session := none
  tags := ["a"]
  requestId := none
  documentId := none
  createdAt := none

def intent : CreateDocumentIntent := ⟨fresh.requestId, fresh.documentId, none, none, fresh.now⟩

def documents : List (Bytes × DocumentMetadata) :=
  [([97], parameters.metadata intent), ([97, lineFeed], parameters.metadata intent)]

def requests : List (Bytes × ChangeRequest) := [([98], parameters.request intent)]

def externals : McpExternals where
  toQueueExternals := .ofTables documents requests
  encodePretty request := (requests.find? fun entry => entry.2 = request).map Prod.fst
  parseUlid _ := none
  parseTime _ := none

theorem externals_lawful : externals.Lawful where
  yaml := {
    toYamlRoundTrips := Externals.ofTables_roundTrip (by decide +kernel)
    encoded_utf8 := fun _ _ hencode => by
      have htexts : ∀ entry ∈ documents, Bytes.validUtf8 entry.1 := by decide +kernel
      exact htexts _ (Externals.mem_of_encodeYaml hencode)
    encoded_budget := fun _ _ _ _ _ => rfl }
  decode_pretty request bytes h := by
    obtain ⟨⟨text, decoded⟩, hfind, rfl⟩ := Option.map_eq_some_iff.1 h
    obtain rfl : decoded = request := by simpa using List.find?_some hfind
    obtain ⟨rfl, rfl⟩ := Prod.mk.inj (List.mem_singleton.1 (List.mem_of_find?_eq_some hfind))
    rfl
  encode_of_pretty _ h := h

/-- The body is found again after the delimiters that were written. -/
theorem parameters_read_back : ∃ package directory validated,
    parameters.prepare externals fresh = .ok package ∧ package.materialize = .ok directory ∧
      (readIncomingPackage externals.toQueueExternals .default directory).result = .ok validated ∧
      validated.request = parameters.request intent := by
  obtain ⟨package, hpackage⟩ : ∃ package, parameters.prepare externals fresh = .ok package :=
    exists_eq_ok_of_isOk (by decide +kernel)
  obtain ⟨found, hfound, directory, markdown, validated, hwrite, hread, hrequest, -⟩ :=
    (mcp_packages_accepted externals externals_lawful fresh).1 parameters package hpackage
  obtain rfl : intent = found := Except.ok.inj hfound
  exact ⟨package, directory, validated, hpackage, hwrite, hread, hrequest⟩

end PackagesSample

end AgentKnowledge.Client
