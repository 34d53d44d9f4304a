import AgentKnowledge.Gateway.Diff
import AgentKnowledge.Repository.HistoryReader

/-!
Inspections (`crates/gateway/src/read/inspect.rs`, `crates/gateway/src/read/inspect/projects.rs`,
`crates/protocol/src/inspect.rs`).

Nine bounded read operations over a committed snapshot or over official history. Full-text
search is a parameter: a `SearchBackend` ranks indexed documents that the filter selects and
cuts excerpts, by laws it carries. Deadlines are left out, as they can only turn an answer
into an error.
-/

namespace AgentKnowledge

open Alignment EditGraph Results

/-- Project identifiers are ordered as texts. -/
instance : LinearOrder ProjectId := LinearOrder.lift' ProjectId.value ProjectId.value_injective

/-! ### The protocol -/

/-- Filters of a read request. -/
structure ReadFilterRequest where
  project : Option ProjectId := none
  projects : Option (List ProjectId) := none
  tag : Option String := none
  session : Option SessionId := none
  includeArchived : Bool := false
deriving DecidableEq

/-- Whether the project selection is bounded, nonempty, and unambiguous. -/
def ReadFilterRequest.validProjectSelection (filter : ReadFilterRequest) : Bool :=
  filter.projects.all fun projects =>
    filter.project.isNone && decide (1 ≤ projects.length ∧ projects.length ≤ 32) &&
      decide projects.Nodup

/-- Fields used to discover projects. -/
inductive ProjectSearchScope where
  | project
  | documents
deriving DecidableEq

/-- Read operations available through the additive inspect command. -/
inductive InspectQuery where
  | projects (query : Option String) (searchIn : ProjectSearchScope)
      (maximumResults descriptionCharacters : Nat) (includeArchived : Bool)
  | projectsWithHits (query : String) (maximumResults descriptionCharacters : Nat)
      (includeArchived : Bool) (hitsPerProject excerptCharacters : Nat)
  | searchExcerpts (query : String) (filter : ReadFilterRequest)
      (maximumResults excerptCharacters : Nat)
  | context (project : ProjectId) (query : Option String)
      (maximumDocuments maximumCharacters : Nat)
  | contextBalanced (project : ProjectId) (query : Option String)
      (maximumDocuments maximumCharacters recentDocuments : Nat)
  | history (documentId : DocumentId) (anchorCommit cursor : Option String) (maximumResults : Nat)
  | getAt (documentId : DocumentId) (commit : String)
  | diff (documentId : DocumentId) (fromCommit toCommit : String)
  | diffHunks (documentId : DocumentId) (fromCommit toCommit : String)
      (contextLines maximumHunks maximumDiffBytes : Nat)
deriving DecidableEq

/-- Request for one bounded, committed inspection. -/
structure InspectRequest where
  protocolVersion : Nat
  query : InspectQuery
deriving DecidableEq

/-- Stable committed metadata returned for one document. -/
structure DocumentSummary where
  path : RelPath
  documentType : DocumentType
  project : Option ProjectId
  archived : Bool
  revision : Revision
  metadata : DocumentMetadata
deriving DecidableEq

/-- A document with its Markdown, given by the bytes of the text. -/
structure DocumentContent where
  summary : DocumentSummary
  markdown : Bytes
deriving DecidableEq

/-- A raw, Unicode-safe excerpt of a document field. -/
structure Excerpt where
  field : String
  text : List Char
  truncated : Bool
deriving DecidableEq

/-- One ranked search hit with query-relevant excerpts. -/
structure SearchHit where
  document : DocumentSummary
  excerpts : List Excerpt
deriving DecidableEq

/-- One project derived from committed documents, including projects without an index. -/
structure ProjectSummary where
  project : ProjectId
  index : Option DocumentSummary
  description : List Char
  descriptionTruncated : Bool
  documentCount : Nat
  matchingDocuments : Option Nat
  hits : Option (List SearchHit)
  hitsTruncated : Option Bool
deriving DecidableEq

/-- Why a document was selected for a context. -/
inductive ContextReason where
  | projectIndex
  | recentObservation
  | relatedGuidance
  | queryMatch
  | projectGuidance
  | recent
deriving DecidableEq

/-- The text of a reason in a response. -/
def ContextReason.text : ContextReason → String
  | .projectIndex => "project_index"
  | .recentObservation => "recent_observation"
  | .relatedGuidance => "related_guidance"
  | .queryMatch => "query_match"
  | .projectGuidance => "project_guidance"
  | .recent => "recent"

/-- A selected context document, with its selection reason and raw Markdown body. -/
structure ContextDocument where
  document : DocumentSummary
  reason : String
  body : List Char
  truncated : Bool
deriving DecidableEq

/-- A committed change to a document's Markdown or canonical path. -/
structure HistoryEntry where
  commit : String
  document : DocumentSummary
  previousRevision : Option Revision
deriving DecidableEq

/-- One page of a document's history. -/
structure HistoryPage where
  anchorCommit : String
  entries : List HistoryEntry
  nextCursor : Option String
deriving DecidableEq

/-- Successful inspection; every selected document comes from the named commit. -/
inductive Inspection where
  | projects (commit : String) (projects : List ProjectSummary) (truncated : Bool)
  | searchExcerpts (commit : String) (hits : List SearchHit)
  | context (commit : String) (documents : List ContextDocument)
      (additional : List DocumentSummary) (truncated : Bool)
  | history (page : HistoryPage)
  | getAt (commit : String) (document : DocumentContent)
  | diff (fromCommit toCommit : String) (before after : DocumentSummary) (body : BodyDiff)
  | diffHunks (fromCommit toCommit : String) (before after : DocumentSummary) (body : BodyHunks)
deriving DecidableEq

/-- Versioned response for the inspect command. -/
structure InspectResponse where
  protocolVersion : Nat
  result : Inspection
deriving DecidableEq

/-! ### Errors, settings and parameters -/

/-- A read request the gateway refuses. -/
inductive ReadRequestError where
  | unsupportedProtocolVersion (found : Nat)
  | invalidProjectSelection
  | invalidTag
  | tagTooLong (maximum actual : Nat)
  | invalidResultLimit (maximum actual : Nat)
  | invalidInspection
  | invalidSearchQuery
  | responseTooLarge (maximum : Nat)
deriving DecidableEq

inductive GatewayError where
  | readRequest (error : ReadRequestError)
  | committedRead (error : CommittedReadError)
  | searchIndexUnavailable
deriving DecidableEq

/-- The configured bounds of reads. -/
structure GatewaySettings where
  maximumReadResults : Nat
  maximumSearchQueryCharacters : Nat
  maximumSearchMarkdownBytes : Nat
  maximumIndexEntries : Nat
  maximumIndexMarkdownBytes : Nat
  maximumResponseBytes : Nat

/-- Full-text search over a snapshot, with what is known of its answers. -/
structure SearchBackend where
  /-- The index of a commit can be opened. -/
  openIndex : String → Except GatewayError Unit
  /-- The documents that match a query, best first. -/
  rank : CommittedSnapshot → String → ReadFilter → Nat → Except GatewayError (List DocumentRecord)
  /-- Excerpts of a body, of so many characters at most. -/
  excerpts : DocumentRecord → List Char → String → Nat → Except GatewayError (List Excerpt)
  rank_distinct : ∀ {snapshot query filter maximum records},
    rank snapshot query filter maximum = .ok records →
      (records.map fun record => record.metadata.documentId).Nodup
  rank_selected : ∀ {snapshot query filter maximum records},
    rank snapshot query filter maximum = .ok records →
      ∀ record ∈ records, record ∈ snapshot.index.documents ∧ filter.matchesDocument record
  excerpts_bounded : ∀ {record body query maximum excerpts'},
    excerpts record body query maximum = .ok excerpts' →
      ∀ excerpt ∈ excerpts', excerpt.text.length ≤ maximum

/-- What an inspection reads and computes with. -/
structure ReadServices where
  settings : GatewaySettings
  store : CommittedStore
  git : GitObjects
  backend : SearchBackend
  /-- `normalize_search_text`. -/
  normalize : List Char → List Char
  /-- The length of the JSON of a response. -/
  encodedLength : InspectResponse → Nat

def currentGatewayProtocolVersion : Nat := 1

def historyScanCommits : Nat := 100

def minimumContextExcerptCharacters : Nat := 80

def committed (error : CommittedReadError) : GatewayError := .committedRead error

def invalid : GatewayError := .readRequest .invalidInspection

/-- A value between one and a maximum. -/
def bounded (value maximum : Nat) : Except GatewayError Unit :=
  rejectIf (value = 0 ∨ maximum < value) (.readRequest (.invalidResultLimit maximum value))

def validateVersion (version : Nat) : Except GatewayError Unit :=
  rejectIf (version ≠ currentGatewayProtocolVersion)
    (.readRequest (.unsupportedProtocolVersion version))

def validateFilter (filter : ReadFilterRequest) : Except GatewayError Unit := do
  rejectIf (¬ filter.validProjectSelection) (.readRequest .invalidProjectSelection)
  match filter.tag with
  | none => pure ()
  | some tag =>
      let limits : DocumentLimits := {}
      rejectIf ((Text.trim tag.toList).isEmpty ∨ tag.toList.any Text.isControl)
        (.readRequest .invalidTag)
      rejectIf (limits.maximumTagCharacters < tag.toList.length)
        (.readRequest (.tagTooLong limits.maximumTagCharacters tag.toList.length))

def repositoryFilter (filter : ReadFilterRequest) : ReadFilter where
  project := filter.project
  projects := filter.projects
  tag := filter.tag
  session := filter.session
  includeArchived := filter.includeArchived

def documentSummary (record : DocumentRecord) : DocumentSummary where
  path := record.relativePath
  documentType := record.location.documentType
  project := record.location.project
  archived := record.location.archived
  revision := record.revision
  metadata := record.metadata

/-- The body of a document as text. -/
def body (markdown : Bytes) (id : DocumentId) : Except GatewayError (List Char) :=
  match markdownBody markdown with
  | .ok bytes => .ok bytes.chars
  | .error _ => .error (committed (.invalidMarkdownEncoding id))

/-- The part between a common prefix and a common suffix of lines. -/
def bodyDiff (before after : List Char) : BodyDiff :=
  let old := Diff.linesOf before
  let new := Diff.linesOf after
  let front := agreement old new
  let back := agreement (old.drop front).reverse (new.drop front).reverse
  { fromLine := front + 1
    toLine := front + 1
    removed := (slice old front (old.length - back)).flatten
    added := (slice new front (new.length - back)).flatten }

namespace ReadServices

variable (x : Externals) (services : ReadServices)

/-- The content policy of snapshots and of history reads. -/
def policy : ContentPolicy where
  maximumEntryCount := services.settings.maximumIndexEntries
  maximumTotalMarkdownBytes := services.settings.maximumIndexMarkdownBytes

def snapshot : Except GatewayError CommittedSnapshot :=
  (services.store.snapshot x services.policy PackagePolicy.default).mapError committed

def historyReader : Except GatewayError HistoryReader :=
  (services.store.historyReader services.git services.policy).mapError committed

def validateResultLimit (maximum : Nat) : Except GatewayError Unit :=
  bounded maximum services.settings.maximumReadResults

/-- The best documents for a query, at most so many. -/
def ranked (snapshot : CommittedSnapshot) (query : String) (filter : ReadFilterRequest)
    (maximum : Nat) : Except GatewayError (List DocumentRecord) := do
  let records ← services.backend.rank snapshot query (repositoryFilter filter) maximum
  pure (records.take maximum)

/-- A document of the snapshot, on a budget of bytes shared by the reads of one request. -/
def readDocument (snapshot : CommittedSnapshot) (record : DocumentRecord) (bytes : Nat) :
    Except GatewayError (DocumentContent × Nat) := do
  let bytes := bytes + record.byteLength
  rejectIf (services.settings.maximumSearchMarkdownBytes < bytes)
    (committed (.searchMarkdownByteLimitExceeded services.settings.maximumSearchMarkdownBytes))
  let (_, markdown) ← (snapshot.get x record.metadata.documentId).mapError committed
  rejectIf (¬ Bytes.validUtf8 markdown) invalid
  pure (⟨documentSummary record, markdown⟩, bytes)

/-- Hits with excerpts for documents, in order. -/
def readHits (snapshot : CommittedSnapshot) (query : String) (characters : Nat) :
    List DocumentRecord → Nat → Except GatewayError (List SearchHit × Nat)
  | [], bytes => pure ([], bytes)
  | record :: rest, bytes => do
      let (document, bytes) ← services.readDocument x snapshot record bytes
      let text ← body document.markdown record.metadata.documentId
      let excerpts ← services.backend.excerpts record text query characters
      let (hits, bytes) ← readHits snapshot query characters rest bytes
      pure (⟨document.summary, excerpts⟩ :: hits, bytes)

/-! ### Projects -/

end ReadServices

/-- The documents of each project and its index document. -/
abbrev ProjectGroups := SortedMap ProjectId (Nat × Option DocumentRecord)

/-- One more document of a project. -/
def addToGroup (record : DocumentRecord) (entry : Option (Nat × Option DocumentRecord)) :
    Nat × Option DocumentRecord :=
  let entry := entry.getD (0, none)
  (entry.1 + 1, if record.location.documentType = .index then some record else entry.2)

def groupDocument (groups : ProjectGroups) (record : DocumentRecord) : ProjectGroups :=
  groups.upsert record.location.project (addToGroup record)

/-- The matches of each project: how many, and the best of them. -/
structure ProjectMatches where
  counts : SortedMap ProjectId Nat := .empty
  topHits : SortedMap ProjectId (List DocumentRecord) := .empty

/-- Keep a hit while there are fewer than the maximum. -/
def keepHit (maximum : Nat) (record : DocumentRecord) (hits : Option (List DocumentRecord)) :
    List DocumentRecord :=
  let hits := hits.getD []
  if hits.length < maximum then hits ++ [record] else hits

def countMatch (maximumHits : Option Nat) (found : ProjectMatches) (record : DocumentRecord) :
    ProjectMatches where
  counts := found.counts.upsert record.location.project fun count => count.getD 0 + 1
  topHits :=
    match maximumHits with
    | none => found.topHits
    | some maximum => found.topHits.upsert record.location.project (keepHit maximum record)

/-- What a listing of projects asks for. -/
structure ProjectListing where
  query : Option String
  searchIn : ProjectSearchScope
  maximum : Nat
  characters : Nat
  includeArchived : Bool
  /-- The hits of a project and the characters of their excerpts. -/
  hitOptions : Option (Nat × Nat)

/-- The order of projects in documents mode: more matches first, then by name. -/
def rankedBefore (counts : SortedMap ProjectId Nat)
    (left right : ProjectId × Nat × Option DocumentRecord) : Bool :=
  let leftCount := (counts.get left.1).getD 0
  let rightCount := (counts.get right.1).getD 0
  rightCount < leftCount || (leftCount == rightCount && left.1 ≤ right.1)

def orderGroups (searchIn : ProjectSearchScope) (counts : SortedMap ProjectId Nat)
    (groups : ProjectGroups) : List (ProjectId × Nat × Option DocumentRecord) :=
  match searchIn with
  | .project => groups.entries
  | .documents =>
      (groups.entries.filter fun group => (counts.get group.1).isSome).mergeSort
        (rankedBefore counts)

namespace ReadServices

variable (x : Externals) (services : ReadServices)

/-- The index document of a project and its body. -/
def readIndex (snapshot : CommittedSnapshot) (record : Option DocumentRecord) (bytes : Nat) :
    Except GatewayError (Option DocumentContent × List Char × Nat) :=
  match record with
  | none => pure (none, [], bytes)
  | some record => do
      let (document, bytes) ← services.readDocument x snapshot record bytes
      let raw ← body document.markdown document.summary.metadata.documentId
      pure (some document, raw, bytes)

/-- Whether a project matches the normalised query of project mode. -/
def matchesProject (query : Option (List Char)) (project : ProjectId)
    (document : Option DocumentContent) (raw : List Char) : Bool :=
  query.all fun text =>
    decide (text <:+: project.value.toList) ||
      document.any (fun found =>
        decide (text <:+: services.normalize found.summary.metadata.title.toList)) ||
      decide (text <:+: services.normalize raw)

/-- The hits of one project, if hits are asked for. A hit needs the query; a project
without hits does not. -/
def projectHits (snapshot : CommittedSnapshot) (listing : ProjectListing) (found : ProjectMatches)
    (project : ProjectId) (bytes : Nat) : Except GatewayError (Option (List SearchHit) × Nat) :=
  match listing.hitOptions, (found.topHits.get project).getD [] with
  | none, _ => pure (none, bytes)
  | some _, [] => pure (some [], bytes)
  | some (_, characters), records => do
      let query ← ofOption listing.query invalid
      let (hits, bytes) ← services.readHits x snapshot query characters records bytes
      pure (some hits, bytes)

/-- The summary of one project that matches. -/
def summarize (listing : ProjectListing) (found : ProjectMatches)
    (group : ProjectId × Nat × Option DocumentRecord) (document : Option DocumentContent)
    (raw : List Char) (hits : Option (List SearchHit)) : ProjectSummary :=
  let description := raw.take listing.characters
  let matching := found.counts.get group.1
  { project := group.1
    index := document.map DocumentContent.summary
    description
    descriptionTruncated := decide (description ≠ raw)
    documentCount := group.2.1
    matchingDocuments := matching
    hits
    hitsTruncated := hits.map fun hits => decide (hits.length < matching.getD 0) }

/-- The loop over the projects. `query` is the normalised query of project mode. -/
def collectProjects (snapshot : CommittedSnapshot) (listing : ProjectListing)
    (found : ProjectMatches) (query : Option (List Char)) :
    List (ProjectId × Nat × Option DocumentRecord) → List ProjectSummary → Nat →
      Except GatewayError (List ProjectSummary × Bool)
  | [], projects, _ => pure (projects, false)
  | group :: rest, projects, bytes =>
      if query.isNone ∧ projects.length = listing.maximum then pure (projects, true)
      else do
        let (document, raw, bytes) ← services.readIndex x snapshot group.2.2 bytes
        if ¬ services.matchesProject query group.1 document raw then
          collectProjects snapshot listing found query rest projects bytes
        else if projects.length = listing.maximum then pure (projects, true)
        else do
          let (hits, bytes) ← services.projectHits x snapshot listing found group.1 bytes
          collectProjects snapshot listing found query rest
            (projects ++ [summarize listing found group document raw hits]) bytes

/-- The matches of all documents, before projects are ranked. -/
def countMatches (snapshot : CommittedSnapshot) (listing : ProjectListing) :
    Except GatewayError ProjectMatches :=
  match listing.searchIn with
  | .project => pure {}
  | .documents => do
      services.backend.openIndex snapshot.commit
      let query ← ofOption listing.query invalid
      let records ← services.ranked snapshot query
        { includeArchived := listing.includeArchived } services.settings.maximumIndexEntries
      pure (records.foldl (countMatch (listing.hitOptions.map Prod.fst)) {})

/-- Project discovery derived from one committed snapshot. -/
def listProjects (snapshot : CommittedSnapshot) (listing : ProjectListing) :
    Except GatewayError Inspection := do
  let filter : ReadFilter := { includeArchived := listing.includeArchived }
  let records ← (snapshot.list filter services.settings.maximumIndexEntries).mapError committed
  let groups := records.foldl groupDocument .empty
  let found ← services.countMatches snapshot listing
  let query :=
    match listing.searchIn with
    | .project => listing.query.map fun text => services.normalize (Text.trim text.toList)
    | .documents => none
  let (projects, truncated) ← services.collectProjects x snapshot listing found query
    (orderGroups listing.searchIn found.counts groups) [] 0
  pure (.projects snapshot.commit projects truncated)

/-- The checks before a listing of projects. -/
def validateListing (listing : ProjectListing) : Except GatewayError Unit := do
  services.validateResultLimit listing.maximum
  bounded listing.characters 2000
  rejectIf (listing.query.any fun text =>
    (Text.trim text.toList).isEmpty ||
      decide (services.settings.maximumSearchQueryCharacters < text.toList.length)) invalid
  rejectIf (listing.searchIn = .documents ∧ listing.query = none) invalid

def inspectProjects (listing : ProjectListing) : Except GatewayError Inspection := do
  services.validateListing listing
  let snapshot ← services.snapshot x
  services.listProjects x snapshot listing

/-! ### Excerpts -/

def searchExcerpts (query : String) (filter : ReadFilterRequest)
    (maximum characters : Nat) : Except GatewayError Inspection := do
  validateFilter filter
  services.validateResultLimit maximum
  bounded characters 2000
  let snapshot ← services.snapshot x
  services.backend.openIndex snapshot.commit
  let records ← services.ranked snapshot query filter maximum
  let (hits, _) ← services.readHits x snapshot query characters records 0
  pure (.searchExcerpts snapshot.commit hits)

end ReadServices

/-! ### Context -/

/-- Documents a context may hold. -/
def eligible (record : DocumentRecord) : Bool :=
  record.metadata.status != .deprecated && record.metadata.status != .archived &&
    record.metadata.supersededBy.isNone

def isGuidance (recentDocuments : Option Nat) (record : DocumentRecord) : Bool :=
  record.location.documentType == .decision || record.location.documentType == .runbook ||
    (recentDocuments.isSome && record.location.documentType == .reference)

/-- Keep the first candidate for each document. -/
def retainFirst : List DocumentId → List (DocumentRecord × ContextReason) →
    List (DocumentRecord × ContextReason)
  | _, [] => []
  | seen, candidate :: rest =>
      let id := candidate.1.metadata.documentId
      if id ∈ seen then retainFirst seen rest else candidate :: retainFirst (id :: seen) rest

/-- What a context asks for. -/
structure ContextRequest where
  filter : ReadFilterRequest
  query : Option String
  maximum : Nat
  characters : Nat
  /-- The recent observations of a balanced context. -/
  recentDocuments : Option Nat

/-- The state of the loop over the candidates. -/
structure ContextState where
  documents : List ContextDocument := []
  additional : List DocumentSummary := []
  remaining : Nat
  bytes : Nat := 0
  truncated : Bool := false

/-- Mention a document that is not part of the context. -/
def ContextState.mention (state : ContextState) (maximum : Nat) (summary : DocumentSummary) :
    ContextState :=
  { state with
    truncated := true
    additional :=
      if state.additional.length < maximum then state.additional ++ [summary]
      else state.additional }

namespace ReadServices

variable (x : Externals) (services : ReadServices)

/-- The candidates of a query, or those without one. -/
def queryCandidates (snapshot : CommittedSnapshot) (request : ContextRequest)
    (all : List DocumentRecord) : Except GatewayError (List (DocumentRecord × ContextReason)) :=
  let guidance := isGuidance request.recentDocuments
  match request.query with
  | some query => do
      services.backend.openIndex snapshot.commit
      let records ← services.ranked snapshot query request.filter
        services.settings.maximumIndexEntries
      let kept := records.filter eligible
      pure ((kept.filter guidance).map (fun record => (record, .relatedGuidance)) ++
        (kept.filter fun record => !guidance record).map (fun record => (record, .queryMatch)))
  | none =>
      pure (((all.filter eligible).filter guidance).map fun record => (record, .projectGuidance))

/-- The candidates of a context, best first. -/
def candidates (snapshot : CommittedSnapshot) (request : ContextRequest) :
    Except GatewayError (List (DocumentRecord × ContextReason)) := do
  let maximum := services.settings.maximumIndexEntries
  let filter := repositoryFilter request.filter
  let all ← (snapshot.list filter maximum).mapError committed
  let recent ← (snapshot.recent filter maximum).mapError committed
  let indexes := (all.filter eligible).filter fun record => record.location.documentType == .index
  let logs := (recent.filter eligible).filter fun record => record.location.documentType == .log
  let asked ← services.queryCandidates snapshot request all
  pure (retainFirst [] (indexes.map (fun record => (record, .projectIndex)) ++
    (match request.recentDocuments with
      | some count => (logs.take count).map fun record => (record, .recentObservation)
      | none => []) ++
    asked ++ ((recent.filter eligible).take 3).map fun record => (record, .recent)))

/-- The characters the next document of a context may take. -/
def allowance (request : ContextRequest) (remaining : Nat) : Nat :=
  if request.recentDocuments.isSome then min remaining (request.characters / request.maximum)
  else remaining

/-- The part of a body that shows best what was asked for. -/
def bestPart (request : ContextRequest) (record : DocumentRecord) (raw : List Char)
    (allowance : Nat) : Except GatewayError (List Char) :=
  if raw.length ≤ allowance then pure raw
  else if allowance = 0 then pure []
  else
    match request.query with
    | some query => do
        let excerpts ← services.backend.excerpts record raw query allowance
        pure (((excerpts.find? fun excerpt => excerpt.field == "body").map Excerpt.text).getD
          (raw.take allowance))
    | none => pure (raw.take allowance)

/-- The part of a body that fits an allowance. -/
def fitBody (request : ContextRequest) (record : DocumentRecord) (raw : List Char)
    (allowance : Nat) : Except GatewayError (List Char) := do
  let text ← services.bestPart request record raw allowance
  -- a tiny excerpt gives way to the beginning of the body
  if text ≠ raw ∧ text.length < minimumContextExcerptCharacters ∧
      minimumContextExcerptCharacters ≤ allowance then
    pure (raw.take allowance)
  else pure text

/-- One candidate. -/
def addCandidate (snapshot : CommittedSnapshot) (request : ContextRequest) (state : ContextState)
    (candidate : DocumentRecord × ContextReason) : Except GatewayError ContextState :=
  if request.maximum ≤ state.documents.length ∨ state.remaining = 0 then
    pure (state.mention request.maximum (documentSummary candidate.1))
  else do
    let (document, bytes) ← services.readDocument x snapshot candidate.1 state.bytes
    let state := { state with bytes }
    let raw ← body document.markdown candidate.1.metadata.documentId
    let text ← services.fitBody request candidate.1 raw (allowance request state.remaining)
    if text ≠ raw ∧ text.length < minimumContextExcerptCharacters then
      pure (state.mention request.maximum document.summary)
    else
      pure { state with
        documents := state.documents ++
          [⟨document.summary, candidate.2.text, text, decide (text ≠ raw)⟩]
        remaining := state.remaining - text.length
        truncated := state.truncated || decide (text ≠ raw) }

def context (snapshot : CommittedSnapshot) (request : ContextRequest) :
    Except GatewayError Inspection := do
  let candidates ← services.candidates snapshot request
  let state ← candidates.foldlM (services.addCandidate x snapshot request)
    { remaining := request.characters }
  pure (.context snapshot.commit state.documents state.additional state.truncated)

def inspectContext (request : ContextRequest) : Except GatewayError Inspection := do
  rejectIf (request.recentDocuments.any fun count => decide (request.maximum - 2 < count)) invalid
  services.validateResultLimit request.maximum
  bounded request.characters 100000
  let snapshot ← services.snapshot x
  services.context x snapshot request

end ReadServices

/-! ### History -/

/-- The entry of a commit that changed a document, given the document before it. -/
def changeAt (commit : String) (current previous : Option HistoricalDocument) :
    Option HistoryEntry :=
  match current with
  | none => none
  | some document =>
      let changed := previous.all fun before =>
        decide (before.record.revision ≠ document.record.revision ∨
          before.record.relativePath ≠ document.record.relativePath)
      if changed then
        some {
          commit
          document := documentSummary document.record
          previousRevision := previous.map fun before => before.record.revision }
      else none

namespace HistoryReader

variable (x : Externals)

/-- The document at a commit that may not exist. -/
def documentBefore (reader : HistoryReader) (id : DocumentId) (commit : Option String) :
    Except GatewayError (HistoryReader × Option HistoricalDocument) :=
  match commit with
  | none => pure (reader, none)
  | some commit => (reader.document x commit id).mapError committed

/-- The loop of `history`, with the commits that may still be scanned. -/
def scanCommits (id : DocumentId) (maximum : Nat) :
    Nat → List String → HistoryReader → Option HistoricalDocument → List HistoryEntry →
      Except GatewayError (List HistoryEntry × Option String)
  | 0, commits, _, _, entries => pure (entries, commits.head?)
  | _ + 1, [], _, _, entries => pure (entries, none)
  | rounds + 1, commit :: rest, reader, current, entries => do
      let (reader, previous) ← reader.documentBefore x id rest.head?
      let entries := entries ++ (changeAt commit current previous).toList
      if maximum ≤ entries.length then pure (entries, rest.head?)
      else scanCommits id maximum rounds rest reader previous entries

def history (reader : HistoryReader) (id : DocumentId) (cursor : Option String) (maximum : Nat) :
    Except GatewayError HistoryPage := do
  let (reader, present) ← (reader.document x reader.anchor id).mapError committed
  rejectIf present.isNone (committed (.documentNotFound id))
  let commits ← (reader.commits cursor (historyScanCommits + 1)).mapError committed
  let (reader, current) ← reader.documentBefore x id commits.head?
  let (entries, nextCursor) ← scanCommits x id maximum historyScanCommits commits reader current []
  pure ⟨reader.anchor, entries, nextCursor⟩

/-- A document of the official history. -/
def historical (reader : HistoryReader) (commit : String) (id : DocumentId) :
    Except GatewayError (HistoryReader × DocumentContent) := do
  let (reader, found) ← (reader.document x commit id).mapError committed
  let document ← ofOption found (committed (.documentNotFound id))
  pure (reader, ⟨documentSummary document.record, document.markdown⟩)

end HistoryReader

namespace ReadServices

variable (x : Externals) (services : ReadServices)

/-- The reader of a history request, pinned to an earlier anchor if one is named. -/
def anchoredReader (anchor : Option String) : Except GatewayError HistoryReader := do
  let reader ← services.historyReader
  match anchor with
  | some anchor => (reader.restrictTo anchor).mapError committed
  | none => pure reader

def inspectHistory (id : DocumentId) (anchor cursor : Option String) (maximum : Nat) :
    Except GatewayError Inspection := do
  services.validateResultLimit maximum
  let reader ← services.anchoredReader anchor
  rejectIf (cursor.isSome ∧ anchor.isNone) invalid
  let page ← reader.history x id cursor maximum
  pure (.history page)

/-- Two versions of a document, with their bodies. -/
def versions (id : DocumentId) (fromCommit toCommit : String) :
    Except GatewayError ((DocumentSummary × List Char) × (DocumentSummary × List Char)) := do
  let reader ← services.historyReader
  let (reader, before) ← reader.historical x fromCommit id
  let (_, after) ← reader.historical x toCommit id
  let old ← body before.markdown id
  let new ← body after.markdown id
  pure ((before.summary, old), (after.summary, new))

/-! ### The command -/

def prepareResponse (result : Inspection) : Except GatewayError InspectResponse := do
  let response : InspectResponse := ⟨currentGatewayProtocolVersion, result⟩
  -- the encoded line ends in a line feed
  rejectIf (services.settings.maximumResponseBytes < services.encodedLength response + 1)
    (.readRequest (.responseTooLarge services.settings.maximumResponseBytes))
  pure response

def inspectQuery : InspectQuery → Except GatewayError Inspection
  | .projects query searchIn maximum characters archived =>
      services.inspectProjects x ⟨query, searchIn, maximum, characters, archived, none⟩
  | .projectsWithHits query maximum characters archived hits excerptCharacters => do
      bounded hits 5
      bounded excerptCharacters 2000
      services.inspectProjects x
        ⟨some query, .documents, maximum, characters, archived, some (hits, excerptCharacters)⟩
  | .searchExcerpts query filter maximum characters =>
      services.searchExcerpts x query filter maximum characters
  | .context project query maximum characters =>
      services.inspectContext x ⟨{ project := some project }, query, maximum, characters, none⟩
  | .contextBalanced project query maximum characters recent =>
      services.inspectContext x
        ⟨{ project := some project }, query, maximum, characters, some recent⟩
  | .history id anchor cursor maximum => services.inspectHistory x id anchor cursor maximum
  | .getAt id commit => do
      let reader ← services.historyReader
      let (_, document) ← reader.historical x commit id
      pure (.getAt commit document)
  | .diff id fromCommit toCommit => do
      let (before, after) ← services.versions x id fromCommit toCommit
      pure (.diff fromCommit toCommit before.1 after.1 (bodyDiff before.2 after.2))
  | .diffHunks id fromCommit toCommit contextLines maximumHunks maximumBytes => do
      rejectIf (20 < contextLines ∨ maximumBytes < 256 ∨ 1000000 < maximumBytes) invalid
      bounded maximumHunks 100
      let (before, after) ← services.versions x id fromCommit toCommit
      pure (.diffHunks fromCommit toCommit before.1 after.1
        (Diff.hunks before.2 after.2 contextLines maximumHunks maximumBytes))

/-- Read-only inspection of a committed snapshot or official ancestry. -/
def inspectUntil (request : InspectRequest) : Except GatewayError InspectResponse := do
  validateVersion request.protocolVersion
  let result ← services.inspectQuery x request.query
  services.prepareResponse result

end ReadServices

end AgentKnowledge
