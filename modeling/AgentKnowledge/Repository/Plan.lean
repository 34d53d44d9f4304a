import AgentKnowledge.Lib.Edits
import AgentKnowledge.Repository.Index

/-!
Applying one request to a content tree (`crates/repository/src/apply.rs`).

`buildPlan` checks every operation of a request against the index of the tree and
lists the mutations that carry it out. It does not touch the tree: what earlier
operations will have done is remembered in virtual documents and in a map of
occupied paths. `executePlan` then runs the mutations. The two meet in
`applyRequestWithPolicy`, which indexes the tree before and after.

This module is the translation only; each step of the planner gets one lemma that
says when it succeeds and with which state (`planCreate_eq_ok` and the others).
-/

namespace AgentKnowledge

open Results

/-- One rename performed on the tree. -/
structure AppliedMove where
  source : RelPath
  destination : RelPath
deriving DecidableEq, Repr

/-- Result of applying one complete request to an isolated content tree. -/
structure ApplyOutcome where
  moves : List AppliedMove
deriving DecidableEq, Repr

/-- What the planner knows about a document after the operations so far. -/
structure VirtualDocument where
  relativePath : RelPath
  canonicalPath : RelPath
  documentType : DocumentType
  project : Option ProjectId
  created : OffsetDateTime
  updated : Option OffsetDateTime
  archived : Bool
  status : DocumentStatus
  revision : Revision
  markdown : Option Bytes
deriving DecidableEq

inductive PlannedMutation where
  | writeNew (relativePath : RelPath) (bytes : Bytes)
  | replace (relativePath : RelPath) (bytes : Bytes)
  | move (source destination : RelPath)
deriving DecidableEq

/-- A deterministic request-application or transient filesystem failure. -/
inductive ApplyError where
  | requestCreatedAfterAcceptance
  | contentIndex (source : ContentIndexError)
  | resultingContent (source : ContentIndexError)
  | documentNotFound (documentId : DocumentId)
  | documentIdConflict (documentId : DocumentId)
  | revisionConflict (documentId : DocumentId) (expected actual : Revision)
  | operationForbidden (documentId : DocumentId) (detail : String)
  | destinationExists (path : RelPath)
  | planningBytesExceeded (maximum : Nat)
  | invalidPayloadDocument (path : PayloadPath) (source : DocumentParseError)
  | invalidPayloadMetadata (path : PayloadPath) (source : DocumentValidationError)
  | generatedDocument (source : DocumentParseError)
  | claimPackageChanged
  | contentChangedDuringApply
  | metadataEncoding
  | packageValidation (source : PackageValidationError)
  | io (source : FileTree.IoError)
deriving DecidableEq

/-- The code under which a failure is reported to the client; without one the
failure is not the request's own and aborts the batch. -/
def ApplyError.requestErrorCode : ApplyError → Option ErrorCode
  | .requestCreatedAfterAcceptance => some .invalidRequest
  | .documentNotFound _ => some .documentNotFound
  | .documentIdConflict _ => some .documentIdConflict
  | .revisionConflict .. => some .revisionConflict
  | .operationForbidden .. | .destinationExists _ => some .operationForbidden
  | .planningBytesExceeded _ => some .limitExceeded
  | .resultingContent .io => none
  | .resultingContent _ => some .contentValidationFailed
  | .invalidPayloadDocument .. | .invalidPayloadMetadata .. => some .invalidFrontMatter
  | .generatedDocument (.frontMatterTooLarge ..) => some .limitExceeded
  | .contentIndex _ | .claimPackageChanged | .contentChangedDuringApply | .generatedDocument _
  | .metadataEncoding | .packageValidation _ | .io _ => none

/-! ### Occupied paths -/

/-- What the planner knows about paths: looked up before, or changed by the plan. -/
abbrev VirtualOccupancy := RelPath → Option Bool

namespace VirtualOccupancy

def insert (entries : VirtualOccupancy) (path : RelPath) (occupied : Bool) : VirtualOccupancy :=
  fun p => if p = path then some occupied else entries p

def isOccupied (tree : ContentTree) (entries : VirtualOccupancy) (path : RelPath) :
    Except ApplyError (Bool × VirtualOccupancy) :=
  match entries path with
  | some occupied => .ok (occupied, entries)
  | none =>
      match tree.lookup path with
      | .ok _ => .ok (true, entries.insert path true)
      | .error .notFound => .ok (false, entries.insert path false)
      | .error error => .error (.io error)

def reserve (tree : ContentTree) (entries : VirtualOccupancy) (path : RelPath) :
    Except ApplyError VirtualOccupancy := do
  let (occupied, entries) ← isOccupied tree entries path
  rejectIf occupied (.destinationExists path)
  pure (entries.insert path true)

def movePath (tree : ContentTree) (entries : VirtualOccupancy) (source destination : RelPath) :
    Except ApplyError VirtualOccupancy := do
  rejectIf (source = destination) (.destinationExists destination)
  let entries ← reserve tree entries destination
  pure (entries.insert source false)

end VirtualOccupancy

/-! ### Paths -/

def createDocumentPath (project : Option ProjectId) (documentType : DocumentType)
    (created : OffsetDateTime) (documentId : DocumentId) : RelPath :=
  if documentType = .index then
    match project with
    | none => ["index.md"]
    | some project => ["projects", project.value, "index.md"]
  else
    let category := categoryName documentType
    let root := match project with
      | none => ["inbox", category]
      | some project => ["projects", project.value, category]
    if documentType = .log then
      root ++ [fourDigits created.year, twoDigits created.month, twoDigits created.day,
        String.ofList (padded 2 created.hour ++ padded 2 created.minute ++
          padded 2 created.second ++ ['-'] ++ documentId.toText), "index.md"]
    else
      root ++ [String.ofList (padded 4 created.year ++ ['-'] ++ padded 2 created.month ++ ['-'] ++
        padded 2 created.day ++ ['-'] ++ documentId.toText), "index.md"]

def archiveDocumentPath (document : VirtualDocument) (documentId : DocumentId) : RelPath :=
  let category := categoryName document.documentType
  let bundle := (document.relativePath.dropLast.getLast?).getD (String.ofList documentId.toText)
  match document.project with
  | some project => ["projects", project.value, "archive", category, bundle, "index.md"]
  | none => ["archive", category, bundle, "index.md"]

/-- What a move of a document carries along: its bundle directory, or the file of
an index document. -/
def bundlePath (documentPath : RelPath) (documentType : DocumentType) : RelPath :=
  if documentType = .index then documentPath else documentPath.dropLast

/-! ### The planner -/

/-- The arguments of `build_plan`; `packageRoot` is the directory the payload is
read from. -/
structure PlanInput where
  x : Externals
  tree : ContentTree
  packageRoot : PackageDirectory
  package : ValidatedPackage
  index : ContentIndex
  policy : ContentPolicy
  maximumPlannedBytes : Nat

/-- The planner's running state. -/
structure PlanState where
  plan : List PlannedMutation := []
  documents : DocumentId → Option VirtualDocument := fun _ => none
  occupancy : VirtualOccupancy := fun _ => none
  plannedBytes : Nat := 0

def PlanState.setDocument (state : PlanState) (documentId : DocumentId)
    (document : VirtualDocument) : PlanState :=
  { state with documents := fun d => if d = documentId then some document else state.documents d }

def PlanState.push (state : PlanState) (mutations : List PlannedMutation) : PlanState :=
  { state with plan := state.plan ++ mutations }

namespace PlanInput

variable (input : PlanInput)

def request : ChangeRequest := input.package.request

/-- When the request counts as made. -/
def operationTime : OffsetDateTime :=
  match input.package.acceptance with
  | some acceptance => acceptance.acceptedAt
  | none => input.request.createdAt

def recordDocument (record : DocumentRecord) : VirtualDocument where
  relativePath := record.relativePath
  canonicalPath := record.relativePath
  documentType := record.location.documentType
  project := record.location.project
  created := record.metadata.created
  updated := record.metadata.updated
  archived := record.location.archived
  status := record.metadata.status
  revision := record.revision
  markdown := none

def resolveDocument (state : PlanState) (documentId : DocumentId) :
    Except ApplyError VirtualDocument :=
  match state.documents documentId with
  | some document => .ok document
  | none => do
      let record ← ofOption (input.index.get documentId) (.documentNotFound documentId)
      pure (recordDocument record)

def reservePlannedBytes (total additional maximum : Nat) : Except ApplyError Nat := do
  rejectIf (2 ^ 64 ≤ total + additional) (.planningBytesExceeded maximum)
  rejectIf (maximum < total + additional) (.planningBytesExceeded maximum)
  pure (total + additional)

def readCanonicalMarkdown (path : RelPath) (maximumBytes : Nat) (expectedRevision : Revision) :
    Except ApplyError Bytes :=
  match input.tree.lookup path with
  | .error error => .error (.io error)
  | .ok .dir => .error (.io .isADirectory)
  | .ok (.file leaf) => do
      rejectIf (maximumBytes < leaf.bytes.length ∨ input.x.digest leaf.bytes ≠ expectedRevision)
        .contentChangedDuringApply
      pure leaf.bytes

def requireRevision (document : VirtualDocument) (documentId : DocumentId) (expected : Revision) :
    Except ApplyError Unit :=
  rejectIf (document.revision ≠ expected)
    (.revisionConflict documentId expected document.revision)

def requireClassification (document : VirtualDocument) (documentId : DocumentId) :
    Except ApplyError Unit :=
  rejectIf (document.documentType ≠ input.request.documentType ∨
      document.project ≠ input.request.project)
    (.operationForbidden documentId "request classification differs from canonical content")

def requireAccessible (document : VirtualDocument) (documentId : DocumentId) :
    Except ApplyError Unit := do
  rejectIf document.archived
    (.operationForbidden documentId "archived documents cannot be modified")
  input.requireClassification document documentId

def requireMutable (document : VirtualDocument) (documentId : DocumentId) :
    Except ApplyError Unit := do
  input.requireAccessible document documentId
  rejectIf (document.documentType = .log) (.operationForbidden documentId "logs are append-only")
  rejectIf (document.status ≠ .active)
    (.operationForbidden documentId "only active documents are mutable")

def requireMovable (document : VirtualDocument) (documentId : DocumentId) :
    Except ApplyError Unit := do
  rejectIf document.archived (.operationForbidden documentId "document is already archived")
  rejectIf (document.documentType = .log ∨ document.documentType = .index)
    (.operationForbidden documentId "logs and index documents cannot be moved or archived")
  rejectIf (document.status ≠ .active)
    (.operationForbidden documentId "only active documents can be moved or archived")

def payloadMetadata (path : PayloadPath) : Except ApplyError PayloadMetadata :=
  ofOption (input.package.payload.find? (·.path == path)) .claimPackageChanged

def payloadByteLength (path : PayloadPath) : Except ApplyError Nat := do
  let metadata ← input.payloadMetadata path
  pure metadata.byteLength

def readPayload (path : PayloadPath) : Except ApplyError Bytes := do
  let metadata ← input.payloadMetadata path
  let file ← ofOption (input.packageRoot.payload.find? (·.path == path)) (.io .notFound)
  rejectIf (file.bytes.length ≠ metadata.byteLength ∨
    input.x.digest file.bytes ≠ metadata.revision) .claimPackageChanged
  pure file.bytes

def decodePayloadMetadata (bytes : Bytes) (path : PayloadPath) :
    Except ApplyError DocumentMetadata := do
  let metadata ← (decodeDocumentMetadata input.x bytes
    input.policy.maximumFrontMatterBytes).mapError (ApplyError.invalidPayloadDocument path)
  (metadata.validateCommon input.policy.document).mapError (ApplyError.invalidPayloadMetadata path)
  pure metadata

/-- Reserve the bytes of a payload file, then read it. -/
def takePayload (plannedBytes : Nat) (path : PayloadPath) : Except ApplyError (Bytes × Nat) := do
  let length ← input.payloadByteLength path
  let plannedBytes ← reservePlannedBytes plannedBytes length input.maximumPlannedBytes
  let bytes ← input.readPayload path
  pure (bytes, plannedBytes)

/-- The virtual document of a create operation. -/
def createdDocument (documentId : DocumentId) (metadata : DocumentMetadata) (bytes : Bytes) :
    VirtualDocument :=
  let path := createDocumentPath input.request.project input.request.documentType
    metadata.created documentId
  { relativePath := path
    canonicalPath := path
    documentType := input.request.documentType
    project := input.request.project
    created := metadata.created
    updated := metadata.updated
    archived := false
    status := metadata.status
    revision := input.x.digest bytes
    markdown := some bytes }

def updatedDocument (document : VirtualDocument) (metadata : DocumentMetadata) (bytes : Bytes) :
    VirtualDocument :=
  { document with
    status := metadata.status
    updated := metadata.updated
    revision := input.x.digest bytes
    markdown := some bytes }

def movedDocument (document : VirtualDocument) (documentId : DocumentId)
    (project : Option ProjectId) (documentType : DocumentType) : VirtualDocument :=
  { document with
    relativePath := createDocumentPath project documentType document.created documentId
    documentType
    project }

def archivedDocument (document : VirtualDocument) (documentId : DocumentId) (bytes : Bytes) :
    VirtualDocument :=
  { document with
    relativePath := archiveDocumentPath document documentId
    archived := true
    status := .archived
    updated := some input.operationTime
    revision := input.x.digest bytes
    markdown := none }

def planCreate (state : PlanState) (documentId : DocumentId) (content : PayloadPath) :
    Except ApplyError PlanState := do
  rejectIf ((state.documents documentId).isSome ∨ (input.index.get documentId).isSome)
    (.documentIdConflict documentId)
  let (bytes, plannedBytes) ← input.takePayload state.plannedBytes content
  let metadata ← input.decodePayloadMetadata bytes content
  rejectIf (input.operationTime.instant < metadata.created.instant ∨
      ∃ updated ∈ metadata.updated, input.operationTime.instant < updated.instant)
    (.operationForbidden documentId "document timestamps cannot follow request acceptance")
  rejectIf (metadata.status = .archived)
    (.operationForbidden documentId "documents cannot be created with archived status")
  let document := input.createdDocument documentId metadata bytes
  let occupancy ← state.occupancy.reserve input.tree
    (bundlePath document.relativePath input.request.documentType)
  pure (({ state with occupancy, plannedBytes }.push
    [.writeNew document.relativePath bytes]).setDocument documentId document)

def planUpdate (state : PlanState) (documentId : DocumentId) (expectedRevision : Revision)
    (content : PayloadPath) : Except ApplyError PlanState := do
  let document ← input.resolveDocument state documentId
  requireRevision document documentId expectedRevision
  input.requireMutable document documentId
  let (bytes, plannedBytes) ← input.takePayload state.plannedBytes content
  let metadata ← input.decodePayloadMetadata bytes content
  rejectIf (metadata.created.instant ≠ document.created.instant)
    (.operationForbidden documentId "document creation time is immutable")
  rejectIf (metadata.status = .archived)
    (.operationForbidden documentId "archive status requires an archive operation")
  let previousUpdate := document.updated.getD document.created
  let updated ← ofOption metadata.updated
    (.operationForbidden documentId "updated documents require an update time")
  rejectIf (input.operationTime.instant < updated.instant)
    (.operationForbidden documentId "document update time cannot follow request acceptance")
  rejectIf (updated.instant ≤ previousUpdate.instant)
    (.operationForbidden documentId "document update time must increase")
  pure (({ state with plannedBytes }.push [.replace document.relativePath bytes]).setDocument
    documentId (input.updatedDocument document metadata bytes))

def planMove (state : PlanState) (documentId : DocumentId) (expectedRevision : Revision)
    (project : Option ProjectId) (documentType : DocumentType) :
    Except ApplyError PlanState := do
  rejectIf (documentType ≠ input.request.documentType ∨ project ≠ input.request.project)
    (.operationForbidden documentId "move destination differs from request classification")
  rejectIf (documentType = .log ∨ documentType = .index)
    (.operationForbidden documentId "documents cannot be moved into log or index classification")
  let document ← input.resolveDocument state documentId
  requireRevision document documentId expectedRevision
  requireMovable document documentId
  let destination := createDocumentPath project documentType document.created documentId
  let sourceBundle := bundlePath document.relativePath document.documentType
  let destinationBundle := bundlePath destination documentType
  let occupancy ← state.occupancy.movePath input.tree sourceBundle destinationBundle
  pure (({ state with occupancy }.push [.move sourceBundle destinationBundle]).setDocument
    documentId (movedDocument document documentId project documentType))

/-- The Markdown of a document as the operations so far leave it. -/
def loadMarkdown (document : VirtualDocument) : Except ApplyError Bytes :=
  match document.markdown with
  | some bytes => .ok bytes
  | none => input.readCanonicalMarkdown document.canonicalPath input.policy.maximumMarkdownBytes
      document.revision

/-- The loop of the planner's `markdown_body`: where the first delimiter line ends. -/
def bodyOffset (offset : Nat) : List Bytes → Option Nat
  | [] => none
  | line :: rest =>
      if lineContent line = Bytes.ascii "---" then some (offset + line.length)
      else bodyOffset (offset + line.length) rest

def openingLength (markdown : Bytes) : Option Nat :=
  if Bytes.ascii "---\r\n" <+: markdown then some 5
  else if Bytes.ascii "---\n" <+: markdown then some 4
  else none

/-- The planner's own `markdown_body`, beside the one of the core crate. -/
def markdownBody (markdown : Bytes) : Option Bytes :=
  if ¬ Bytes.validUtf8 markdown then none
  else
    match openingLength markdown with
    | none => none
    | some length =>
        let remainder := markdown.drop length
        (bodyOffset 0 (Text.splitInclusive lineFeed remainder)).map remainder.drop

/-- Rewrite the front matter of a document for the archive. -/
def archivedMarkdown (bytes : Bytes) (plannedBytes : Nat) : Except ApplyError (Bytes × Nat) := do
  let policy := input.policy
  rejectIf (policy.maximumMarkdownBytes < bytes.length) .contentChangedDuringApply
  let metadata ← (decodeDocumentMetadata input.x bytes policy.maximumFrontMatterBytes).mapError
    fun _ => ApplyError.contentChangedDuringApply
  rejectIf (input.operationTime.instant ≤ metadata.effectiveTime.instant)
    (.operationForbidden metadata.documentId
      "archive time must follow the previous document update")
  let body ← ofOption (markdownBody bytes) .contentChangedDuringApply
  let yaml ← ofOption (input.x.encodeYaml { metadata with
      updated := some input.operationTime
      requestId := input.request.requestId
      status := .archived }) .metadataEncoding
  let frontMatter := terminated yaml
  rejectIf (policy.maximumFrontMatterBytes < frontMatter.length)
    (.generatedDocument (.frontMatterTooLarge policy.maximumFrontMatterBytes frontMatter.length))
  let length := frontMatter.length + body.length + 8
  rejectIf (policy.maximumMarkdownBytes < length)
    (.planningBytesExceeded policy.maximumMarkdownBytes)
  let plannedBytes ← reservePlannedBytes plannedBytes length input.maximumPlannedBytes
  pure (Bytes.ascii "---\n" ++ frontMatter ++ Bytes.ascii "---\n" ++ body, plannedBytes)

def planArchive (state : PlanState) (documentId : DocumentId) (expectedRevision : Revision) :
    Except ApplyError PlanState := do
  let document ← input.resolveDocument state documentId
  requireRevision document documentId expectedRevision
  input.requireClassification document documentId
  requireMovable document documentId
  let destination := archiveDocumentPath document documentId
  let destinationBundle := bundlePath destination document.documentType
  let sourceBundle := bundlePath document.relativePath document.documentType
  let occupancy ← state.occupancy.movePath input.tree sourceBundle destinationBundle
  let markdown ← input.loadMarkdown document
  let (archived, plannedBytes) ← input.archivedMarkdown markdown state.plannedBytes
  let _ ← (decodeDocumentMetadata input.x archived
    input.policy.maximumFrontMatterBytes).mapError ApplyError.generatedDocument
  pure (({ state with occupancy, plannedBytes }.push
      [.replace document.relativePath archived, .move sourceBundle destinationBundle]).setDocument
    documentId (input.archivedDocument document documentId archived))

def planAttachment (state : PlanState) (documentId : DocumentId) (source : PayloadPath)
    (name : AttachmentName) : Except ApplyError PlanState := do
  let document ← input.resolveDocument state documentId
  input.requireAccessible document documentId
  rejectIf (document.status ≠ .active)
    (.operationForbidden documentId "attachments require an active document")
  let path := document.relativePath.dropLast ++ [name.value]
  let occupancy ← state.occupancy.reserve input.tree path
  let (bytes, plannedBytes) ← input.takePayload state.plannedBytes source
  pure (({ state with occupancy, plannedBytes }.push [.writeNew path bytes]).setDocument
    documentId document)

def planOperation (state : PlanState) : Operation → Except ApplyError PlanState
  | .createDocument documentId content => input.planCreate state documentId content
  | .updateDocument documentId expectedRevision content =>
      input.planUpdate state documentId expectedRevision content
  | .moveDocument documentId expectedRevision project documentType =>
      input.planMove state documentId expectedRevision project documentType
  | .archiveDocument documentId expectedRevision =>
      input.planArchive state documentId expectedRevision
  | .addAttachment documentId source name => input.planAttachment state documentId source name

def planOperations (operations : List Operation) (state : PlanState) :
    Except ApplyError PlanState :=
  operations.foldlM input.planOperation state

def buildPlan : Except ApplyError (List PlannedMutation) := do
  rejectIf (input.operationTime.instant < input.request.createdAt.instant)
    .requestCreatedAfterAcceptance
  let state ← input.planOperations input.request.operations {}
  pure state.plan

end PlanInput

/-! ### Execution -/

/-- The calls a mutation stands for: `create_parent` and `create_new`, `fs::write`,
or `create_parent` and `rename`. -/
def PlannedMutation.edit : PlannedMutation → FileTree.Edit ContentLeaf
  | .writeNew path bytes => .create path ⟨bytes, .plain⟩
  -- Writing keeps the mode of an existing file.
  | .replace path bytes => .rewrite path fun old => ⟨bytes, (old.map ContentLeaf.kind).getD .plain⟩
  | .move source destination => .move source destination

/-- Run one mutation on the tree. -/
def PlannedMutation.run (tree : ContentTree) (mutation : PlannedMutation) :
    Except FileTree.IoError ContentTree :=
  mutation.edit.run tree

def PlannedMutation.appliedMove : PlannedMutation → Option AppliedMove
  | .move source destination => some ⟨source, destination⟩
  | .writeNew .. | .replace .. => none

/-- Run the mutations of a plan in order; the moves made are returned with the tree. -/
def executePlan (tree : ContentTree) (plan : List PlannedMutation) :
    Except ApplyError (ContentTree × List AppliedMove) := do
  let tree ← (plan.foldlM PlannedMutation.run tree).mapError ApplyError.io
  pure (tree, plan.filterMap PlannedMutation.appliedMove)

def applyRequestWithPolicy (x : Externals) (policy : ContentPolicy)
    (packagePolicy : PackagePolicy) (tree : ContentTree) (packageRoot : PackageDirectory)
    (package : ValidatedPackage) : Except ApplyError (ContentTree × ApplyOutcome) := do
  let index ← (ContentIndex.build x policy packagePolicy tree).mapError ApplyError.contentIndex
  let plan ← PlanInput.buildPlan {
    x, tree, packageRoot, package, index, policy
    maximumPlannedBytes := packagePolicy.limits.maximumTotalBytes }
  let (tree, moves) ← executePlan tree plan
  let _ ← (ContentIndex.build x policy packagePolicy tree).mapError ApplyError.resultingContent
  pure (tree, ⟨moves⟩)

/-- Apply one Worker-owned request package to an isolated content tree. -/
def applyClaimed (x : Externals) (policy : ContentPolicy) (packagePolicy : PackagePolicy)
    (tree : ContentTree) (claim : ClaimedPackage) :
    Except ApplyError (ContentTree × ApplyOutcome) := do
  let revalidated ← (validateAcceptedPackage x packagePolicy claim.packageRoot).mapError
    ApplyError.packageValidation
  rejectIf (revalidated ≠ claim.package) .claimPackageChanged
  applyRequestWithPolicy x policy packagePolicy tree claim.packageRoot revalidated

/-! ### When the steps of the planner succeed -/

/-- Whether the planner takes a path for occupied. -/
def PlanState.occupied (tree : ContentTree) (state : PlanState) (path : RelPath) : Bool :=
  (state.occupancy path).getD (tree.node path).isSome

namespace VirtualOccupancy

variable {tree : ContentTree} {entries entries' : VirtualOccupancy}

/-- A looked-up path is remembered as what it is. -/
theorem isOccupied_eq_ok {path : RelPath} {occupied : Bool}
    (h : isOccupied tree entries path = .ok (occupied, entries')) :
    occupied = (entries path).getD (tree.node path).isSome ∧
      ∀ q, (entries' q).getD (tree.node q).isSome = (entries q).getD (tree.node q).isSome := by
  unfold isOccupied FileTree.lookup at h
  cases hentry : entries path with
  | some known =>
      simp only [hentry, Except.ok.injEq, Prod.mk.injEq] at h
      obtain ⟨rfl, rfl⟩ := h
      simp
  | none =>
      have hcache : ∀ q, ((entries.insert path (tree.node path).isSome) q).getD
          (tree.node q).isSome = (entries q).getD (tree.node q).isSome := by
        intro q
        by_cases hq : q = path
        · simp [insert, hq, hentry]
        · simp [insert, hq]
      cases hnode : tree.node path with
      | some node =>
          simp only [hentry, hnode, Except.ok.injEq, Prod.mk.injEq] at h
          obtain ⟨rfl, rfl⟩ := h
          simpa [hnode] using hcache
      | none =>
          by_cases hfile : tree.fileOnPath path
          · simp [hentry, hnode, hfile] at h
          · simp only [hentry, hnode, hfile, Bool.false_eq_true, if_false, Except.ok.injEq,
              Prod.mk.injEq] at h
            obtain ⟨rfl, rfl⟩ := h
            simpa [hnode] using hcache

theorem reserve_eq_ok {path : RelPath} (h : reserve tree entries path = .ok entries') :
    (entries path).getD (tree.node path).isSome = false ∧
      ∀ q, (entries' q).getD (tree.node q).isSome =
        (decide (q = path) || (entries q).getD (tree.node q).isSome) := by
  unfold reserve at h
  simp only [bind_eq_ok, exists_unit, Prod.exists, rejectIf_eq_ok, pure_eq_ok,
    Except.ok.injEq] at h
  obtain ⟨occupied, looked, hlooked, hfree, rfl⟩ := h
  obtain ⟨hoccupied, hsame⟩ := isOccupied_eq_ok hlooked
  refine ⟨by simpa [hoccupied] using hfree, ?_⟩
  intro q
  by_cases hq : q = path
  · simp [insert, hq]
  · simp [insert, hq, hsame]

theorem movePath_eq_ok {source destination : RelPath}
    (h : movePath tree entries source destination = .ok entries') :
    source ≠ destination ∧ (entries destination).getD (tree.node destination).isSome = false ∧
      ∀ q, (entries' q).getD (tree.node q).isSome =
        (decide (q ≠ source) &&
          (decide (q = destination) || (entries q).getD (tree.node q).isSome)) := by
  unfold movePath at h
  simp only [bind_eq_ok, exists_unit, rejectIf_eq_ok, pure_eq_ok, Except.ok.injEq] at h
  obtain ⟨hne, reserved, hreserved, rfl⟩ := h
  obtain ⟨hfree, hothers⟩ := reserve_eq_ok hreserved
  refine ⟨hne, hfree, ?_⟩
  intro q
  by_cases hq : q = source
  · simp [insert, hq]
  · simp [insert, hq, hothers]

end VirtualOccupancy

def VirtualDocument.location (document : VirtualDocument) : DocumentLocation :=
  ⟨document.documentType, document.project, document.archived⟩

/-- The directory of a document. -/
def VirtualDocument.directory (document : VirtualDocument) : RelPath :=
  document.relativePath.dropLast

def VirtualDocument.effectiveTime (document : VirtualDocument) : OffsetDateTime :=
  document.updated.getD document.created

namespace PlanInput

variable (input : PlanInput)

/-- What the planner knows about a document: what it remembers, or the index record. -/
def document (state : PlanState) (documentId : DocumentId) : Option VirtualDocument :=
  (state.documents documentId).orElse fun _ => (input.index.get documentId).map recordDocument

/-- The classification of the request. -/
def Classified (document : VirtualDocument) : Prop :=
  document.documentType = input.request.documentType ∧ document.project = input.request.project

variable {input}

theorem resolveDocument_eq_ok {state : PlanState} {documentId : DocumentId}
    {document : VirtualDocument} :
    input.resolveDocument state documentId = .ok document ↔
      input.document state documentId = some document := by
  unfold resolveDocument PlanInput.document
  cases state.documents documentId <;> simp [bind_eq_ok]

theorem takePayload_eq_ok {plannedBytes plannedBytes' : Nat} {path : PayloadPath} {bytes : Bytes}
    (h : input.takePayload plannedBytes path = .ok (bytes, plannedBytes')) :
    input.packageRoot.payloadAt path = some bytes := by
  unfold takePayload readPayload at h
  simp only [bind_eq_ok, exists_unit, ofOption_eq_ok, rejectIf_eq_ok, pure_eq_ok, Except.ok.injEq,
    Prod.mk.injEq] at h
  obtain ⟨-, -, planned, -, read, ⟨metadata, -, file, hfile, -, rfl⟩, rfl, rfl⟩ := h
  simp [PackageDirectory.payloadAt, hfile]

theorem decodePayloadMetadata_eq_ok {bytes : Bytes} {path : PayloadPath}
    {metadata : DocumentMetadata} (h : input.decodePayloadMetadata bytes path = .ok metadata) :
    decodeDocumentMetadata input.x bytes input.policy.maximumFrontMatterBytes = .ok metadata := by
  unfold decodePayloadMetadata at h
  simp only [bind_eq_ok, exists_unit, mapError_eq_ok, pure_eq_ok, Except.ok.injEq] at h
  obtain ⟨decoded, hdecoded, -, rfl⟩ := h
  exact hdecoded

/-- What the archive writes is read back as the old metadata with a new status, a
later time and the request that archived it. -/
theorem archivedMarkdown_metadata (hx : input.x.YamlRoundTrips) {bytes archived : Bytes}
    {plannedBytes plannedBytes' : Nat}
    (h : input.archivedMarkdown bytes plannedBytes = .ok (archived, plannedBytes'))
    {metadata : DocumentMetadata}
    (hdecode : decodeDocumentMetadata input.x archived input.policy.maximumFrontMatterBytes =
      .ok metadata) :
    ∃ old, decodeDocumentMetadata input.x bytes input.policy.maximumFrontMatterBytes = .ok old ∧
      old.effectiveTime.instant < input.operationTime.instant ∧
      metadata = { old with
        updated := some input.operationTime
        requestId := input.request.requestId
        status := .archived } := by
  unfold archivedMarkdown at h
  simp only [bind_eq_ok, exists_unit, mapError_eq_ok, ofOption_eq_ok, rejectIf_eq_ok, pure_eq_ok,
    Except.ok.injEq, Prod.mk.injEq, not_le] at h
  obtain ⟨-, old, hold, htime, body, -, yaml, hyaml, -, -, planned, -, rfl, -⟩ := h
  exact ⟨old, hold, htime, decodeDocumentMetadata_written hx hyaml hdecode⟩

theorem requireRevision_eq_ok {document : VirtualDocument} {documentId : DocumentId}
    {expected : Revision} :
    requireRevision document documentId expected = .ok () ↔ document.revision = expected := by
  simp [requireRevision]

theorem requireClassification_eq_ok {document : VirtualDocument} {documentId : DocumentId} :
    input.requireClassification document documentId = .ok () ↔ input.Classified document := by
  simp [requireClassification, Classified]

theorem requireAccessible_eq_ok {document : VirtualDocument} {documentId : DocumentId} :
    input.requireAccessible document documentId = .ok () ↔
      document.archived = false ∧ input.Classified document := by
  simp [requireAccessible, bind_eq_ok, requireClassification_eq_ok]

theorem requireMutable_eq_ok {document : VirtualDocument} {documentId : DocumentId} :
    input.requireMutable document documentId = .ok () ↔
      document.archived = false ∧ input.Classified document ∧ document.documentType ≠ .log ∧
        document.status = .active := by
  simp [requireMutable, bind_eq_ok, exists_unit, requireAccessible_eq_ok, and_assoc]

theorem requireMovable_eq_ok {document : VirtualDocument} {documentId : DocumentId} :
    requireMovable document documentId = .ok () ↔
      document.archived = false ∧ document.documentType ≠ .log ∧ document.documentType ≠ .index ∧
        document.status = .active := by
  simp [requireMovable, bind_eq_ok, and_assoc]

/-- What a successful operation leaves besides the occupied paths. -/
structure Progress (state state' : PlanState) (documentId : DocumentId)
    (document : VirtualDocument) (mutations : List PlannedMutation) : Prop where
  plan : state'.plan = state.plan ++ mutations
  documents : ∀ d, state'.documents d =
    if d = documentId then some document else state.documents d

/-- One operation that passed the planner: what was checked and what was planned. -/
inductive Step (input : PlanInput) (state state' : PlanState) : Operation → Prop
  | create {documentId : DocumentId} {content : PayloadPath} {bytes : Bytes}
      {metadata : DocumentMetadata}
      (absent : input.document state documentId = none)
      (payload : input.packageRoot.payloadAt content = some bytes)
      (decoded : decodeDocumentMetadata input.x bytes input.policy.maximumFrontMatterBytes =
        .ok metadata)
      (notArchived : metadata.status ≠ .archived)
      (free : state.occupied input.tree (bundlePath
        (input.createdDocument documentId metadata bytes).relativePath
        input.request.documentType) = false)
      (progress : Progress state state' documentId
        (input.createdDocument documentId metadata bytes)
        [.writeNew (input.createdDocument documentId metadata bytes).relativePath bytes])
      (occupied : ∀ q, state'.occupied input.tree q =
        (decide (q = bundlePath (input.createdDocument documentId metadata bytes).relativePath
          input.request.documentType) || state.occupied input.tree q)) :
      Step input state state' (.createDocument documentId content)
  | update {documentId : DocumentId} {expectedRevision : Revision} {content : PayloadPath}
      {document : VirtualDocument} {bytes : Bytes} {metadata : DocumentMetadata}
      {updated : OffsetDateTime}
      (found : input.document state documentId = some document)
      (revision : document.revision = expectedRevision)
      (live : document.archived = false) (classified : input.Classified document)
      (notLog : document.documentType ≠ .log) (active : document.status = .active)
      (payload : input.packageRoot.payloadAt content = some bytes)
      (decoded : decodeDocumentMetadata input.x bytes input.policy.maximumFrontMatterBytes =
        .ok metadata)
      (created : metadata.created.instant = document.created.instant)
      (notArchived : metadata.status ≠ .archived)
      (hasUpdate : metadata.updated = some updated)
      (increases : document.effectiveTime.instant < updated.instant)
      (progress : Progress state state' documentId (input.updatedDocument document metadata bytes)
        [.replace document.relativePath bytes])
      (occupied : ∀ q, state'.occupied input.tree q = state.occupied input.tree q) :
      Step input state state' (.updateDocument documentId expectedRevision content)
  | move {documentId : DocumentId} {expectedRevision : Revision} {document : VirtualDocument}
      (found : input.document state documentId = some document)
      (revision : document.revision = expectedRevision)
      (live : document.archived = false)
      (notLog : document.documentType ≠ .log) (notIndex : document.documentType ≠ .index)
      (active : document.status = .active)
      (toLog : input.request.documentType ≠ .log) (toIndex : input.request.documentType ≠ .index)
      (moves : document.directory ≠ (movedDocument document documentId input.request.project
        input.request.documentType).directory)
      (free : state.occupied input.tree (movedDocument document documentId input.request.project
        input.request.documentType).directory = false)
      (progress : Progress state state' documentId
        (movedDocument document documentId input.request.project input.request.documentType)
        [.move document.directory (movedDocument document documentId input.request.project
          input.request.documentType).directory])
      (occupied : ∀ q, state'.occupied input.tree q =
        (decide (q ≠ document.directory) &&
          (decide (q = (movedDocument document documentId input.request.project
            input.request.documentType).directory) || state.occupied input.tree q))) :
      Step input state state' (.moveDocument documentId expectedRevision input.request.project
        input.request.documentType)
  | archive {documentId : DocumentId} {expectedRevision : Revision} {document : VirtualDocument}
      {markdown archived : Bytes} {metadata : DocumentMetadata} {plannedBytes : Nat}
      (found : input.document state documentId = some document)
      (revision : document.revision = expectedRevision)
      (live : document.archived = false) (classified : input.Classified document)
      (notLog : document.documentType ≠ .log) (notIndex : document.documentType ≠ .index)
      (active : document.status = .active)
      (loaded : input.loadMarkdown document = .ok markdown)
      (rewritten : input.archivedMarkdown markdown state.plannedBytes =
        .ok (archived, plannedBytes))
      (decoded : decodeDocumentMetadata input.x archived input.policy.maximumFrontMatterBytes =
        .ok metadata)
      (moves : document.directory ≠ (input.archivedDocument document documentId archived).directory)
      (free : state.occupied input.tree
        (input.archivedDocument document documentId archived).directory = false)
      (progress : Progress state state' documentId
        (input.archivedDocument document documentId archived)
        [.replace document.relativePath archived,
          .move document.directory (input.archivedDocument document documentId archived).directory])
      (occupied : ∀ q, state'.occupied input.tree q =
        (decide (q ≠ document.directory) &&
          (decide (q = (input.archivedDocument document documentId archived).directory) ||
            state.occupied input.tree q))) :
      Step input state state' (.archiveDocument documentId expectedRevision)
  | attach {documentId : DocumentId} {source : PayloadPath} {name : AttachmentName}
      {document : VirtualDocument} {bytes : Bytes}
      (found : input.document state documentId = some document)
      (live : document.archived = false) (classified : input.Classified document)
      (active : document.status = .active)
      (payload : input.packageRoot.payloadAt source = some bytes)
      (free : state.occupied input.tree (document.directory ++ [name.value]) = false)
      (progress : Progress state state' documentId document
        [.writeNew (document.directory ++ [name.value]) bytes])
      (occupied : ∀ q, state'.occupied input.tree q =
        (decide (q = document.directory ++ [name.value]) || state.occupied input.tree q)) :
      Step input state state' (.addAttachment documentId source name)

theorem progress_of_push {state : PlanState} {occupancy : VirtualOccupancy} {plannedBytes : Nat}
    {documentId : DocumentId} {document : VirtualDocument} {mutations : List PlannedMutation} :
    Progress state (({ state with occupancy, plannedBytes }.push mutations).setDocument
      documentId document) documentId document mutations :=
  ⟨rfl, fun _ => rfl⟩

theorem planCreate_step {state state' : PlanState} {documentId : DocumentId}
    {content : PayloadPath} (h : input.planCreate state documentId content = .ok state') :
    Step input state state' (.createDocument documentId content) := by
  unfold planCreate at h
  simp only [bind_eq_ok, exists_unit, Prod.exists, rejectIf_eq_ok, pure_eq_ok,
    Except.ok.injEq] at h
  obtain ⟨habsent, bytes, plannedBytes, hpayload, metadata, hmetadata, -, hstatus, occupancy,
    hreserve, rfl⟩ := h
  obtain ⟨hfree, hoccupied⟩ := VirtualOccupancy.reserve_eq_ok hreserve
  have hdocument : input.document state documentId = none := by
    rw [not_or] at habsent
    simp only [Option.not_isSome_iff_eq_none] at habsent
    simp [document, habsent.1, habsent.2]
  exact .create hdocument (takePayload_eq_ok hpayload) (decodePayloadMetadata_eq_ok hmetadata)
    hstatus hfree progress_of_push hoccupied

theorem planUpdate_step {state state' : PlanState} {documentId : DocumentId}
    {expectedRevision : Revision} {content : PayloadPath}
    (h : input.planUpdate state documentId expectedRevision content = .ok state') :
    Step input state state' (.updateDocument documentId expectedRevision content) := by
  unfold planUpdate at h
  simp only [bind_eq_ok, exists_unit, Prod.exists, rejectIf_eq_ok, ofOption_eq_ok, pure_eq_ok,
    Except.ok.injEq, resolveDocument_eq_ok, requireRevision_eq_ok, requireMutable_eq_ok, ne_eq,
    not_not, not_le] at h
  obtain ⟨document, hfound, hrevision, ⟨hlive, hclassified, hlog, hactive⟩, bytes, plannedBytes,
    hpayload, metadata, hmetadata, hcreated, hstatus, updated, hupdated, -, hincreases, rfl⟩ := h
  exact .update hfound hrevision hlive hclassified hlog hactive (takePayload_eq_ok hpayload)
    (decodePayloadMetadata_eq_ok hmetadata) hcreated hstatus hupdated hincreases
    progress_of_push fun _ => rfl

theorem planMove_step {state state' : PlanState} {documentId : DocumentId}
    {expectedRevision : Revision} {project : Option ProjectId} {documentType : DocumentType}
    (h : input.planMove state documentId expectedRevision project documentType = .ok state') :
    Step input state state' (.moveDocument documentId expectedRevision project documentType) := by
  unfold planMove at h
  simp only [bind_eq_ok, exists_unit, rejectIf_eq_ok, pure_eq_ok, Except.ok.injEq,
    resolveDocument_eq_ok, requireRevision_eq_ok, requireMovable_eq_ok, not_or, ne_eq,
    not_not] at h
  obtain ⟨⟨rfl, rfl⟩, ⟨htoLog, htoIndex⟩, document, hfound, hrevision,
    ⟨hlive, hlog, hindex, hactive⟩, occupancy, hmove, rfl⟩ := h
  simp only [bundlePath, if_neg hindex, if_neg htoIndex] at hmove
  obtain ⟨hmoves, hfree, hoccupied⟩ := VirtualOccupancy.movePath_eq_ok hmove
  refine .move hfound hrevision hlive hlog hindex hactive htoLog htoIndex hmoves hfree ?_ hoccupied
  simp only [bundlePath, if_neg hindex, if_neg htoIndex]
  exact progress_of_push

theorem planArchive_step {state state' : PlanState} {documentId : DocumentId}
    {expectedRevision : Revision}
    (h : input.planArchive state documentId expectedRevision = .ok state') :
    Step input state state' (.archiveDocument documentId expectedRevision) := by
  unfold planArchive at h
  simp only [bind_eq_ok, exists_unit, Prod.exists, mapError_eq_ok, pure_eq_ok,
    Except.ok.injEq, resolveDocument_eq_ok, requireRevision_eq_ok, requireClassification_eq_ok,
    requireMovable_eq_ok] at h
  obtain ⟨document, hfound, hrevision, hclassified, ⟨hlive, hlog, hindex, hactive⟩, occupancy,
    hmove, markdown, hloaded, archived, plannedBytes, hrewritten, metadata, hdecoded, rfl⟩ := h
  simp only [bundlePath, if_neg hindex] at hmove
  obtain ⟨hmoves, hfree, hoccupied⟩ := VirtualOccupancy.movePath_eq_ok hmove
  refine .archive hfound hrevision hlive hclassified hlog hindex hactive hloaded hrewritten
    hdecoded hmoves hfree ?_ hoccupied
  simp only [bundlePath, if_neg hindex]
  exact progress_of_push

theorem planAttachment_step {state state' : PlanState} {documentId : DocumentId}
    {source : PayloadPath} {name : AttachmentName}
    (h : input.planAttachment state documentId source name = .ok state') :
    Step input state state' (.addAttachment documentId source name) := by
  unfold planAttachment at h
  simp only [bind_eq_ok, exists_unit, Prod.exists, rejectIf_eq_ok, pure_eq_ok, Except.ok.injEq,
    resolveDocument_eq_ok, requireAccessible_eq_ok, ne_eq, not_not] at h
  obtain ⟨document, hfound, ⟨hlive, hclassified⟩, hactive, occupancy, hreserve, bytes,
    plannedBytes, hpayload, rfl⟩ := h
  obtain ⟨hfree, hoccupied⟩ := VirtualOccupancy.reserve_eq_ok hreserve
  exact .attach hfound hlive hclassified hactive (takePayload_eq_ok hpayload) hfree
    progress_of_push hoccupied

/-- Every operation the planner accepts is one of the steps. -/
theorem planOperation_step {state state' : PlanState} {operation : Operation}
    (h : input.planOperation state operation = .ok state') : Step input state state' operation := by
  cases operation with
  | createDocument => exact planCreate_step h
  | updateDocument => exact planUpdate_step h
  | moveDocument => exact planMove_step h
  | archiveDocument => exact planArchive_step h
  | addAttachment => exact planAttachment_step h

end PlanInput

end AgentKnowledge
