import AgentKnowledge.Repository.PlanSound

/-!
Conflicts are found while planning, with one exception.

A request that the planner accepts runs on its tree without a path conflict iff
it adds no attachment under a name that the document's bundle already holds in
the tree (`conflictFree_iff`). The planner looks at the path the attachment will
have; if the same request moves the document first, nothing is there yet, and the
old attachment arrives with the bundle. The run then fails with an I/O error,
which is not reported to the client but aborts the batch (`applyRequest_io_iff`).
-/

namespace AgentKnowledge

open Results

/-- The mutations of a plan, run in order on a tree, meet no path conflict: a new
file finds its place free below directories only, a replaced file is there, and a
move finds its source and a free destination. -/
def ConflictFree (tree : ContentTree) (plan : List PlannedMutation) : Prop :=
  ∃ tree', FileTree.RunsClear tree (plan.map PlannedMutation.edit) tree'

def ApplyError.IsIo : ApplyError → Prop
  | .io _ => True
  | _ => False

/-- The attachment an operation adds. -/
def Operation.attachment : Operation → Option (DocumentId × AttachmentName)
  | .addAttachment documentId _ name => some (documentId, name)
  | .createDocument .. | .updateDocument .. | .moveDocument .. | .archiveDocument .. => none

/-! ### Planning fails with no I/O error -/

theorem VirtualOccupancy.isOccupied_avoids {tree : ContentTree} {entries : VirtualOccupancy}
    {path : RelPath} (h : ∀ q, q <+: path → q ≠ path → tree.isFile q = false) :
    Avoids ApplyError.IsIo (isOccupied tree entries path) := by
  unfold isOccupied FileTree.lookup
  cases entries path with
  | some occupied => exact avoids_ok
  | none =>
      cases hnode : tree.node path with
      | some node => exact avoids_ok
      | none =>
          have hfile : tree.fileOnPath path = false := by
            rw [FileTree.fileOnPath_eq_false_iff]
            intro q hq
            by_cases hself : q = path
            · simp [FileTree.isFile, hself, hnode]
            · exact h q hq hself
          simp only [hfile, Bool.false_eq_true, if_false]
          exact avoids_ok

theorem VirtualOccupancy.reserve_avoids {tree : ContentTree} {entries : VirtualOccupancy}
    {path : RelPath} (h : ∀ q, q <+: path → q ≠ path → tree.isFile q = false) :
    Avoids ApplyError.IsIo (reserve tree entries path) :=
  (isOccupied_avoids h).bind fun _ _ =>
    (avoids_rejectIf not_false).bind fun _ _ => avoids_ok

theorem VirtualOccupancy.movePath_avoids {tree : ContentTree} {entries : VirtualOccupancy}
    {source destination : RelPath}
    (h : ∀ q, q <+: destination → q ≠ destination → tree.isFile q = false) :
    Avoids ApplyError.IsIo (movePath tree entries source destination) :=
  (avoids_rejectIf not_false).bind fun _ _ => (reserve_avoids h).bind fun _ _ => avoids_ok

namespace PlanInput

/-- What the planner needs to know about its documents to go on. -/
structure Known (input : PlanInput) (state : PlanState) : Prop where
  path : ∀ documentId document, input.document state documentId = some document →
    document.relativePath = canonicalDocumentPath document.location document.created documentId
  markdown : ∀ documentId document, input.document state documentId = some document →
    document.archived = false → ∃ bytes, input.loadMarkdown document = .ok bytes

variable {input : PlanInput} {state state' : PlanState} {documentId : DocumentId}
  {document : VirtualDocument} {packagePolicy : PackagePolicy}

theorem Agrees.known {tree : ContentTree} (hagrees : input.Agrees state tree) :
    input.Known state := by
  refine ⟨fun d document h => (hagrees.placed d document h).path, ?_⟩
  intro d document h harchived
  obtain ⟨leaf, -, hdescribes⟩ := (hagrees.placed d document h).file
  exact ⟨leaf.bytes, hdescribes.markdown harchived⟩

theorem Known.progress {mutations : List PlannedMutation} (hknown : input.Known state)
    (hprogress : Progress state state' documentId document mutations)
    (hpath : document.relativePath =
      canonicalDocumentPath document.location document.created documentId)
    (hmarkdown : document.archived = false → ∃ bytes, input.loadMarkdown document = .ok bytes) :
    input.Known state' := by
  have hcases : ∀ d other, input.document state' d = some other →
      d = documentId ∧ other = document ∨ input.document state d = some other := by
    intro d other h
    by_cases hd : d = documentId
    · simp only [PlanInput.document, hprogress.documents, hd, if_true, Option.orElse_some,
        Option.some.injEq] at h
      exact .inl ⟨hd, h.symm⟩
    · right
      simpa only [PlanInput.document, hprogress.documents, if_neg hd] using h
  constructor
  · intro d other h
    rcases hcases d other h with ⟨rfl, rfl⟩ | h
    · exact hpath
    · exact hknown.path d other h
  · intro d other h harchived
    rcases hcases d other h with ⟨rfl, rfl⟩ | h
    · exact hmarkdown harchived
    · exact hknown.markdown d other h harchived

theorem Known.step (hknown : input.Known state) {operation : Operation}
    (hstep : Step input state state' operation) : input.Known state' := by
  cases hstep with
  | create _ _ _ _ _ progress =>
      exact hknown.progress progress (createDocumentPath_eq _ _ _ _) fun _ => ⟨_, rfl⟩
  | update found _ _ _ _ _ _ _ _ _ _ _ progress =>
      have hpath := hknown.path _ _ found
      exact hknown.progress progress hpath fun _ => ⟨_, rfl⟩
  | move found _ live _ _ _ _ _ _ _ progress =>
      have hmarkdown := hknown.markdown _ _ found
      exact hknown.progress progress (movedDocument_path live) hmarkdown
  | archive found _ _ _ _ notIndex _ _ _ _ _ _ progress =>
      exact hknown.progress progress (archiveDocumentPath_eq notIndex (hknown.path _ _ found))
        fun h => (Bool.noConfusion h)
  | attach found _ _ _ _ _ progress =>
      exact hknown.progress progress (hknown.path _ _ found) (hknown.markdown _ _ found)

/-- Above a document and its neighbours there are no files. -/
theorem no_file_above (hvalid : input.Valid packagePolicy) {location : DocumentLocation}
    {created : OffsetDateTime} {q : RelPath}
    (hq : q <+: documentDirectory location created documentId) : input.tree.isFile q = false := by
  rcases (Agrees.initial hvalid).above hq with h | h <;> simp [FileTree.isFile, h]

theorem no_file_above_concat (hvalid : input.Valid packagePolicy) {location : DocumentLocation}
    {created : OffsetDateTime} {name : String} {q : RelPath}
    (hq : q <+: documentDirectory location created documentId ++ [name])
    (hne : q ≠ documentDirectory location created documentId ++ [name]) :
    input.tree.isFile q = false := by
  rcases List.prefix_concat_iff.1 hq with h | h
  · exact absurd h hne
  · exact no_file_above hvalid h

theorem resolveDocument_avoids :
    Avoids ApplyError.IsIo (input.resolveDocument state documentId) := by
  unfold resolveDocument
  split
  · exact avoids_ok
  · exact (avoids_ofOption not_false).bind fun _ _ => avoids_ok

theorem takePayload_avoids (hvalid : input.Valid packagePolicy) {operation : Operation}
    (hmem : operation ∈ input.request.operations) {source : PayloadPath}
    (hsource : operation.payloadSource = some source) {plannedBytes : Nat} :
    Avoids ApplyError.IsIo (input.takePayload plannedBytes source) := by
  obtain ⟨file, hfile⟩ := hvalid.reads.payload_present hmem hsource
  unfold takePayload payloadByteLength payloadMetadata reservePlannedBytes readPayload
  refine ((avoids_ofOption not_false).bind fun _ _ => avoids_ok).bind fun _ _ => ?_
  refine ((avoids_rejectIf not_false).bind fun _ _ =>
    (avoids_rejectIf not_false).bind fun _ _ => avoids_ok).bind fun _ _ => ?_
  refine Avoids.bind ((avoids_ofOption not_false).bind fun _ _ => ?_) fun _ _ => avoids_ok
  rw [hfile]
  exact (avoids_ok).bind fun _ _ => (avoids_rejectIf not_false).bind fun _ _ => avoids_ok

theorem decodePayloadMetadata_avoids {bytes : Bytes} {path : PayloadPath} :
    Avoids ApplyError.IsIo (input.decodePayloadMetadata bytes path) :=
  (avoids_mapError fun _ => not_false).bind fun _ _ =>
    (avoids_mapError fun _ => not_false).bind fun _ _ => avoids_ok

theorem requireAccessible_avoids :
    Avoids ApplyError.IsIo (input.requireAccessible document documentId) :=
  (avoids_rejectIf not_false).bind fun _ _ => avoids_rejectIf not_false

theorem requireMutable_avoids :
    Avoids ApplyError.IsIo (input.requireMutable document documentId) :=
  requireAccessible_avoids.bind fun _ _ =>
    (avoids_rejectIf not_false).bind fun _ _ => avoids_rejectIf not_false

theorem requireMovable_avoids :
    Avoids ApplyError.IsIo (requireMovable document documentId) :=
  (avoids_rejectIf not_false).bind fun _ _ =>
    (avoids_rejectIf not_false).bind fun _ _ => avoids_rejectIf not_false

theorem archivedMarkdown_avoids {bytes : Bytes} {plannedBytes : Nat} :
    Avoids ApplyError.IsIo (input.archivedMarkdown bytes plannedBytes) := by
  unfold archivedMarkdown reservePlannedBytes
  refine (avoids_rejectIf not_false).bind fun _ _ => ?_
  refine (avoids_mapError fun _ => not_false).bind fun _ _ => ?_
  refine (avoids_rejectIf not_false).bind fun _ _ => ?_
  refine (avoids_ofOption not_false).bind fun _ _ => ?_
  refine (avoids_ofOption not_false).bind fun _ _ => ?_
  refine (avoids_rejectIf not_false).bind fun _ _ => ?_
  refine (avoids_rejectIf not_false).bind fun _ _ => ?_
  exact ((avoids_rejectIf not_false).bind fun _ _ =>
    (avoids_rejectIf not_false).bind fun _ _ => avoids_ok).bind fun _ _ => avoids_ok

theorem planCreate_avoids (hvalid : input.Valid packagePolicy) {content : PayloadPath}
    (hmem : .createDocument documentId content ∈ input.request.operations) :
    Avoids ApplyError.IsIo (input.planCreate state documentId content) := by
  unfold planCreate
  refine (avoids_rejectIf not_false).bind fun _ _ => ?_
  refine (takePayload_avoids hvalid hmem rfl).bind fun taken _ => ?_
  refine decodePayloadMetadata_avoids.bind fun metadata _ => ?_
  refine (avoids_rejectIf not_false).bind fun _ _ => ?_
  refine (avoids_rejectIf not_false).bind fun _ _ => ?_
  refine (VirtualOccupancy.reserve_avoids ?_).bind fun _ _ => avoids_ok
  intro q hq hne
  have hpath : (input.createdDocument documentId metadata taken.1).relativePath =
      documentDirectory ⟨input.request.documentType, input.request.project, false⟩
        metadata.created documentId ++ ["index.md"] :=
    (createDocumentPath_eq _ _ _ _).trans (canonicalDocumentPath_eq _ _ _)
  by_cases hindex : input.request.documentType = .index
  · rw [bundlePath_eq_of_index hindex, hpath] at hq hne
    exact no_file_above_concat hvalid hq hne
  · rw [bundlePath_eq_of_ne_index hindex, hpath, List.dropLast_concat] at hq
    exact no_file_above hvalid hq

theorem planUpdate_avoids (hvalid : input.Valid packagePolicy) {expectedRevision : Revision}
    {content : PayloadPath}
    (hmem : .updateDocument documentId expectedRevision content ∈ input.request.operations) :
    Avoids ApplyError.IsIo (input.planUpdate state documentId expectedRevision content) := by
  unfold planUpdate
  refine resolveDocument_avoids.bind fun document _ => ?_
  refine (avoids_rejectIf not_false).bind fun _ _ => ?_
  refine requireMutable_avoids.bind fun _ _ => ?_
  refine (takePayload_avoids hvalid hmem rfl).bind fun taken _ => ?_
  refine decodePayloadMetadata_avoids.bind fun metadata _ => ?_
  refine (avoids_rejectIf not_false).bind fun _ _ => ?_
  refine (avoids_rejectIf not_false).bind fun _ _ => ?_
  refine (avoids_ofOption not_false).bind fun _ _ => ?_
  refine (avoids_rejectIf not_false).bind fun _ _ => ?_
  exact (avoids_rejectIf not_false).bind fun _ _ => avoids_ok

theorem planMove_avoids (hvalid : input.Valid packagePolicy) {expectedRevision : Revision}
    {project : Option ProjectId} {documentType : DocumentType} :
    Avoids ApplyError.IsIo
      (input.planMove state documentId expectedRevision project documentType) := by
  unfold planMove
  refine (avoids_rejectIf not_false).bind fun _ _ => ?_
  refine (avoids_rejectIf not_false).bind fun _ hkind => ?_
  refine resolveDocument_avoids.bind fun document _ => ?_
  refine (avoids_rejectIf not_false).bind fun _ _ => ?_
  refine requireMovable_avoids.bind fun _ _ => ?_
  refine (VirtualOccupancy.movePath_avoids ?_).bind fun _ _ => avoids_ok
  intro q hq _
  have hindex : documentType ≠ .index := fun h => (rejectIf_eq_ok.1 hkind) (.inr h)
  rw [bundlePath_eq_of_ne_index hindex, createDocumentPath_eq] at hq
  exact no_file_above hvalid hq

theorem planArchive_avoids (hvalid : input.Valid packagePolicy) (hknown : input.Known state)
    {expectedRevision : Revision} :
    Avoids ApplyError.IsIo (input.planArchive state documentId expectedRevision) := by
  unfold planArchive
  refine resolveDocument_avoids.bind fun document hfound => ?_
  refine (avoids_rejectIf not_false).bind fun _ _ => ?_
  refine (avoids_rejectIf not_false).bind fun _ _ => ?_
  refine requireMovable_avoids.bind fun _ hmovable => ?_
  obtain ⟨hlive, -, hindex, -⟩ := requireMovable_eq_ok.1 hmovable
  rw [resolveDocument_eq_ok] at hfound
  refine (VirtualOccupancy.movePath_avoids ?_).bind fun _ _ => ?_
  · intro q hq _
    rw [bundlePath_eq_of_ne_index hindex,
      archiveDocumentPath_eq hindex (hknown.path _ _ hfound)] at hq
    exact no_file_above hvalid hq
  · obtain ⟨bytes, hbytes⟩ := hknown.markdown _ _ hfound hlive
    rw [hbytes]
    refine avoids_ok.bind fun _ _ => ?_
    refine archivedMarkdown_avoids.bind fun _ _ => ?_
    exact (avoids_mapError fun _ => not_false).bind fun _ _ => avoids_ok

theorem planAttachment_avoids (hvalid : input.Valid packagePolicy) (hknown : input.Known state)
    {source : PayloadPath} {name : AttachmentName}
    (hmem : .addAttachment documentId source name ∈ input.request.operations) :
    Avoids ApplyError.IsIo (input.planAttachment state documentId source name) := by
  unfold planAttachment
  refine resolveDocument_avoids.bind fun document hfound => ?_
  refine requireAccessible_avoids.bind fun _ _ => ?_
  refine (avoids_rejectIf not_false).bind fun _ _ => ?_
  rw [resolveDocument_eq_ok] at hfound
  refine (VirtualOccupancy.reserve_avoids ?_).bind fun _ _ => ?_
  · intro q hq hne
    rw [hknown.path _ _ hfound, ← documentDirectory] at hq hne
    exact no_file_above_concat hvalid hq hne
  · exact (takePayload_avoids hvalid hmem rfl).bind fun _ _ => avoids_ok

theorem planOperation_avoids (hvalid : input.Valid packagePolicy) (hknown : input.Known state)
    {operation : Operation} (hmem : operation ∈ input.request.operations) :
    Avoids ApplyError.IsIo (input.planOperation state operation) := by
  cases operation with
  | createDocument => exact planCreate_avoids hvalid hmem
  | updateDocument => exact planUpdate_avoids hvalid hmem
  | moveDocument => exact planMove_avoids hvalid
  | archiveDocument => exact planArchive_avoids hvalid hknown
  | addAttachment => exact planAttachment_avoids hvalid hknown hmem

/-- On a tree the index accepts, a validated package is planned without I/O errors. -/
theorem buildPlan_avoids (hvalid : input.Valid packagePolicy) :
    Avoids ApplyError.IsIo input.buildPlan := by
  unfold buildPlan
  refine (avoids_rejectIf not_false).bind fun _ _ => Avoids.bind ?_ fun _ _ => avoids_ok
  exact avoids_foldlM (P := input.Known)
    (fun s hknown operation hmem => planOperation_avoids hvalid hknown hmem)
    (fun s hknown operation _ s' hstep => hknown.step (planOperation_step hstep))
    (Agrees.initial hvalid).known

/-! ### Executing a plan -/

/-- No attachment the request adds is already in the bundle of its document. -/
def AttachmentsFit (input : PlanInput) : Prop :=
  ∀ documentId source name,
    .addAttachment documentId source name ∈ input.request.operations →
      input.NameFree documentId name.value

theorem attachmentsFit_iff (hvalid : input.Valid packagePolicy)
    (hnoMarkdown : "md" ∉ packagePolicy.allowedAttachmentExtensions) :
    input.AttachmentsFit ↔ ∀ operation ∈ input.request.operations, input.Fits operation := by
  constructor
  · intro h operation hmem
    cases operation with
    | addAttachment d source name =>
        refine ⟨fun hname => hnoMarkdown ?_, h _ _ _ hmem⟩
        have hallowed := hvalid.reads.attachment_allowed hmem
        have hmd : fileExtension "index.md" = some "md" := by decide
        simpa [PackagePolicy.allowsAttachmentName, hname, hmd] using hallowed
    | _ => exact trivial
  · intro h d source name hmem
    exact (h _ hmem).2

instance (name : String) : Decidable (input.NameFree documentId name) :=
  match h : input.index.get documentId with
  | none => isTrue fun record hrecord => by simp [h] at hrecord
  | some record =>
      decidable_of_iff (input.tree.node (record.relativePath.dropLast ++ [name]) = none)
        ⟨fun hnone found hfound => by rw [h] at hfound; cases hfound; exact hnone,
          fun hfree => hfree record h⟩

instance : Decidable input.AttachmentsFit :=
  decidable_of_iff (∀ operation ∈ input.request.operations,
      ∀ added ∈ operation.attachment, input.NameFree added.1 added.2.value) <| by
    constructor
    · intro h d source name hmem
      exact h _ hmem (d, name) rfl
    · intro h operation hmem added hadded
      cases operation with
      | addAttachment d source name =>
          cases hadded
          exact h d source name hmem
      | _ => cases hadded

theorem buildPlan_eq_ok {plan : List PlannedMutation} (h : input.buildPlan = .ok plan) :
    ∃ state, input.planOperations input.request.operations {} = .ok state ∧ state.plan = plan := by
  unfold buildPlan at h
  simp only [bind_eq_ok, exists_unit, rejectIf_eq_ok, pure_eq_ok, Except.ok.injEq] at h
  obtain ⟨-, state, hstate, hplan⟩ := h
  exact ⟨state, hstate, hplan⟩

/-- A plan runs clear, and the planner's last state agrees with the result, or it fails. -/
theorem buildPlan_outcome (hvalid : input.Valid packagePolicy) {plan : List PlannedMutation}
    (h : input.buildPlan = .ok plan) :
    ∃ state, input.planOperations input.request.operations {} = .ok state ∧ state.plan = plan ∧
      input.Outcome state input.tree plan
        (∀ operation ∈ input.request.operations, input.Fits operation) := by
  obtain ⟨state, hstate, hplan⟩ := buildPlan_eq_ok h
  obtain ⟨mutations, hmutations, houtcome⟩ :=
    (Agrees.initial hvalid).operations hvalid (List.Subset.refl _) hstate
  have hsame : mutations = plan := by rw [← hplan, hmutations]; rfl
  subst hsame
  exact ⟨state, hstate, hplan, houtcome⟩

theorem conflictFree_iff (hvalid : input.Valid packagePolicy)
    (hnoMarkdown : "md" ∉ packagePolicy.allowedAttachmentExtensions) {plan : List PlannedMutation}
    (h : input.buildPlan = .ok plan) :
    ConflictFree input.tree plan ↔ input.AttachmentsFit := by
  rw [attachmentsFit_iff hvalid hnoMarkdown]
  obtain ⟨state, -, -, houtcome⟩ := buildPlan_outcome hvalid h
  constructor
  · rintro ⟨tree', hruns⟩
    by_contra hfits
    obtain ⟨error, herror⟩ := houtcome.fails hfits
    rw [FileTree.foldlM_run_of_runsClear hruns] at herror
    cases herror
  · intro hfits
    obtain ⟨tree', hruns, -⟩ := houtcome.runs hfits
    exact ⟨tree', hruns⟩

theorem executePlan_eq_ok {tree tree' : ContentTree} {plan : List PlannedMutation}
    (h : FileTree.RunsClear tree (plan.map PlannedMutation.edit) tree') :
    executePlan tree plan = .ok (tree', plan.filterMap PlannedMutation.appliedMove) := by
  have hrun := FileTree.foldlM_run_of_runsClear h
  rw [List.foldlM_map] at hrun
  unfold executePlan PlannedMutation.run
  rw [hrun]
  rfl

theorem executePlan_eq_error {tree : ContentTree} {plan : List PlannedMutation}
    {error : FileTree.IoError}
    (h : (plan.map PlannedMutation.edit).foldlM FileTree.Edit.run tree = .error error) :
    executePlan tree plan = .error (.io error) := by
  rw [List.foldlM_map] at h
  unfold executePlan PlannedMutation.run
  rw [h]
  rfl

/-- The planner is called by `applyRequestWithPolicy` with its own arguments. -/
theorem applyRequest_eq (hvalid : input.Valid packagePolicy)
    (hmaximum : input.maximumPlannedBytes = packagePolicy.limits.maximumTotalBytes) :
    applyRequestWithPolicy input.x input.policy packagePolicy input.tree input.packageRoot
        input.package =
      (input.buildPlan >>= fun plan => executePlan input.tree plan >>= fun result =>
        (ContentIndex.build input.x input.policy packagePolicy result.1).mapError
          ApplyError.resultingContent >>= fun _ => .ok (result.1, ⟨result.2⟩)) := by
  unfold applyRequestWithPolicy
  rw [hvalid.indexed, ← hmaximum]
  rfl

/-- The planner is sound up to attachments of moved documents. A plan meets no
conflict iff no attachment is already in its document's bundle, and otherwise
applying the request fails with an I/O error. -/
theorem plan_sound_iff (hvalid : input.Valid packagePolicy)
    (hnoMarkdown : "md" ∉ packagePolicy.allowedAttachmentExtensions)
    (hmaximum : input.maximumPlannedBytes = packagePolicy.limits.maximumTotalBytes) :
    (∀ plan, input.buildPlan = .ok plan →
      (ConflictFree input.tree plan ↔ input.AttachmentsFit)) ∧
    ((∃ error, applyRequestWithPolicy input.x input.policy packagePolicy input.tree
        input.packageRoot input.package = .error (.io error)) ↔
      (∃ plan, input.buildPlan = .ok plan) ∧ ¬ input.AttachmentsFit) := by
  refine ⟨fun plan h => conflictFree_iff hvalid hnoMarkdown h, ?_⟩
  rw [applyRequest_eq hvalid hmaximum]
  constructor
  · rintro ⟨error, herror⟩
    rcases bind_eq_error.1 herror with hplan | ⟨plan, hplan, herror⟩
    · exact absurd trivial (buildPlan_avoids hvalid _ hplan)
    · refine ⟨⟨plan, hplan⟩, fun hfits => ?_⟩
      obtain ⟨tree', hruns⟩ := (conflictFree_iff hvalid hnoMarkdown hplan).2 hfits
      rw [executePlan_eq_ok hruns, ok_bind] at herror
      rcases bind_eq_error.1 herror with hindex | ⟨index, -, hdone⟩
      · obtain ⟨source, -, hsource⟩ := mapError_eq_error.1 hindex
        cases hsource
      · cases hdone
  · rintro ⟨⟨plan, hplan⟩, hfits⟩
    obtain ⟨state, -, -, houtcome⟩ := buildPlan_outcome hvalid hplan
    rw [attachmentsFit_iff hvalid hnoMarkdown] at hfits
    obtain ⟨error, herror⟩ := houtcome.fails hfits
    refine ⟨error, ?_⟩
    rw [hplan, ok_bind, executePlan_eq_error herror, error_bind]

end PlanInput

/-! ### A document that moves and meets its own attachment -/

namespace Sample

def day (day : Fin 28) : OffsetDateTime where
  year := 2026
  month := 1
  day := day + 1
  hour := 9
  minute := 0
  second := 0
  nanosecond := 0
  offsetSeconds := 0
  valid := by
    have := day.isLt
    simp [daysInMonth]
    omega

instance dayNeZero : NeZero 28 := ⟨by decide⟩

def document : DocumentId := ⟨⟨1, by decide⟩⟩

def metadata : DocumentMetadata where
  schemaVersion := 1
  documentId := document
  title := "D"
  created := day 0
  updated := none
  node := none
  agent := none
  session := none
  requestId := ⟨⟨2, by decide⟩⟩
  tags := []
  status := .active
  supersededBy := none

/-- Markdown with a front matter of one letter, to be looked up in a table. -/
def markdown (letter : UInt8) : Bytes :=
  Bytes.ascii "---\n" ++ [letter, lineFeed] ++ Bytes.ascii "---\n"

def project : ProjectId := ⟨"p", by rfl⟩

def picture : PayloadPath := ⟨"a.png", by rfl⟩

def pictureName : AttachmentName := ⟨"a.png", by rfl⟩

theorem png_valid : ∀ extension ∈ ["png"], validExtension extension := by decide

def packagePolicy : PackagePolicy := ⟨{}, ["png"], png_valid⟩

def bundle : RelPath := bundleOf ⟨.decision, none, false⟩ (day 0) document

/-- A decision in the inbox, with or without a picture. -/
def tree (pictures : List String) : ContentTree :=
  .ofFiles ((bundle ++ ["index.md"], ⟨markdown 97, .plain⟩) ::
    pictures.map fun name => (bundle ++ [name], ⟨[1], .plain⟩))

/-- A request about the decision in a project. -/
def request (project : Option ProjectId) (operations : List Operation) : ChangeRequest where
  protocolVersion := 1
  requestId := ⟨⟨3, by decide⟩⟩
  title := "change"
  project := project
  documentType := .decision
  node := none
  agent := none
  session := none
  createdAt := day 1
  operations := operations

/-- Requests name revisions, so the digest is fixed before the tables are. -/
def revision : Revision := (Externals.ofTables [] []).digest (markdown 97)

def externals (request : ChangeRequest) : Externals :=
  .ofTables [([97, lineFeed], metadata)] [([1], request)]

def directory : PackageDirectory where
  requestJson := [1]
  payload := [⟨picture, [2]⟩]
  storedDigest := ⟨revision⟩
  acceptance := ⟨1, day 2, none, AcceptanceMetadata.first_valid⟩
  paths_nodup := by decide

def package (request : ChangeRequest) : ValidatedPackage where
  request := request
  digest := calculateDigest (externals request) [1] directory.payload
  payload := directory.payload.map (PayloadFile.metadata (externals request))
  acceptance := some directory.acceptance

/-- Move the decision to a project and add a picture. -/
def moveAndAttach : ChangeRequest :=
  request (some project) [.moveDocument document revision (some project) .decision,
    .addAttachment document picture pictureName]

def input (pictures : List String) : PlanInput where
  x := externals moveAndAttach
  tree := tree pictures
  packageRoot := directory
  package := package moveAndAttach
  index := indexOf (externals moveAndAttach) {} (tree pictures)
  policy := {}
  maximumPlannedBytes := packagePolicy.limits.maximumTotalBytes

theorem moveAndAttach_reads :
    (package moveAndAttach).Reads (externals moveAndAttach) packagePolicy directory := by
  unfold ValidatedPackage.Reads
  decide +kernel

theorem tree_indexed : ∀ pictures ∈ [[], ["a.png"]],
    ContentIndex.build (externals moveAndAttach) {} packagePolicy (tree pictures) =
      .ok (indexOf (externals moveAndAttach) {} (tree pictures)) := by
  decide +kernel

theorem input_valid {pictures : List String} (h : pictures ∈ [[], ["a.png"]]) :
    (input pictures).Valid packagePolicy :=
  ⟨tree_indexed pictures h, moveAndAttach_reads⟩

/-- Without the old picture the request runs. -/
theorem attach_after_move_runs :
    ∃ plan, (input []).buildPlan = .ok plan ∧ ConflictFree (tree []) plan := by
  obtain ⟨plan, hplan⟩ : ∃ plan, (input []).buildPlan = .ok plan :=
    exists_eq_ok_of_isOk (by decide +kernel)
  have hfits : (input []).AttachmentsFit := by decide +kernel
  have hvalid : (input []).Valid packagePolicy := input_valid (by decide)
  exact ⟨plan, hplan, ((PlanInput.plan_sound_iff hvalid (by decide) rfl).1 plan hplan).2 hfits⟩

/-- With it the same plan is made, and its last mutation finds the name taken. -/
theorem attach_after_move_conflicts :
    (∃ plan, (input ["a.png"]).buildPlan = .ok plan ∧ ¬ ConflictFree (tree ["a.png"]) plan) ∧
      applyRequestWithPolicy (externals moveAndAttach) {} packagePolicy (tree ["a.png"]) directory
        (package moveAndAttach) = .error (.io .alreadyExists) := by
  obtain ⟨plan, hplan⟩ : ∃ plan, (input ["a.png"]).buildPlan = .ok plan :=
    exists_eq_ok_of_isOk (by decide +kernel)
  have hfits : ¬ (input ["a.png"]).AttachmentsFit := by decide +kernel
  have hvalid : (input ["a.png"]).Valid packagePolicy := input_valid (by decide)
  refine ⟨⟨plan, hplan, ?_⟩, by decide +kernel⟩
  intro hfree
  exact hfits ((PlanInput.conflictFree_iff hvalid (by decide) hplan).1 hfree)

end Sample

end AgentKnowledge
