import AgentKnowledge.Repository.Follow

/-!
What an applied request leaves alone.

`Applied` collects what is known when `applyRequestWithPolicy` returns: the plan
ran clear, the planner's last state agrees with the new tree, and the files were
followed on the way. From it `request_frame` reads off the frame of a request:
documents are never lost and keep their creation time, whatever the request does
not change keeps path and bytes, attachments travel with their document, and the
other files of the new tree are those the request wrote (`RequestFrame`).
-/

namespace AgentKnowledge

open Results

/-! ### The frame of a request -/

/-- Where a file beside documents is after a request. In the bundle of a document
it goes with the document, which has moved only if the request says so. -/
inductive Destination (operations : List Operation) (index index' : ContentIndex)
    (path : RelPath) : RelPath → Prop
  | bundle {documentId : DocumentId} {record record' : DocumentRecord}
      (old : index.get documentId = some record)
      (bundled : record.location.documentType ≠ .index)
      (beside : path.dropLast = record.relativePath.dropLast)
      (new : index'.get documentId = some record')
      (still : (∀ operation ∈ operations, ¬ operation.Relocates documentId) →
        record'.relativePath = record.relativePath) :
      Destination operations index index' path (record'.relativePath.dropLast ++ [fileName path])
  | elsewhere
      (unbundled : ∀ documentId record, index.get documentId = some record →
        record.location.documentType ≠ .index → path.dropLast ≠ record.relativePath.dropLast) :
      Destination operations index index' path path

theorem Destination.fileName_eq {operations : List Operation} {index index' : ContentIndex}
    {path path' : RelPath} (h : Destination operations index index' path path') :
    fileName path' = fileName path := by
  cases h with
  | bundle => rw [fileName_concat]
  | elsewhere => rfl

/-- Archived, a log or not active. -/
def DocumentRecord.Frozen (record : DocumentRecord) : Prop :=
  record.location.archived = true ∨ record.location.documentType = .log ∨
    record.metadata.status ≠ .active

/-- A path the old tree accounts for: a document the request does not or cannot
change, or a file that came along with a document or stayed. -/
def FromBefore (operations : List Operation) (tree : ContentTree) (index index' : ContentIndex)
    (path : RelPath) : Prop :=
  (∃ documentId record, index.get documentId = some record ∧
      ((∀ operation ∈ operations, ¬ operation.Changes documentId) ∨ record.Frozen) ∧
      path = record.relativePath) ∨
    ∃ before leaf, tree.node before = some (.file leaf) ∧ ¬ isMarkdown before ∧
      Destination operations index index' before path

/-- A path the request accounts for: a document it creates, updates, moves or
archives, or an attachment it adds. -/
def FromRequest (operations : List Operation) (index' : ContentIndex) (path : RelPath) : Prop :=
  (∃ operation ∈ operations, ∃ documentId record, operation.Changes documentId ∧
      index'.get documentId = some record ∧ path = record.relativePath) ∨
    ∃ documentId source name record, .addAttachment documentId source name ∈ operations ∧
      index'.get documentId = some record ∧ path = record.relativePath.dropLast ++ [name.value]

/-- What the operations of a request may do to a tree and must leave of it. -/
structure RequestFrame (operations : List Operation) (payload : PayloadPath → Option Bytes)
    (tree tree' : ContentTree) (index index' : ContentIndex) : Prop where
  created : ∀ documentId record, index.get documentId = some record →
    ∃ record', index'.get documentId = some record' ∧
      record'.metadata.created.instant = record.metadata.created.instant
  unchanged : ∀ documentId record, index.get documentId = some record →
    (∀ operation ∈ operations, ¬ operation.Changes documentId) →
    index'.get documentId = some record ∧
      tree'.node record.relativePath = tree.node record.relativePath
  frozen : ∀ documentId record, index.get documentId = some record → record.Frozen →
    index'.get documentId = some record ∧
      tree'.node record.relativePath = tree.node record.relativePath
  carried : ∀ path leaf, tree.node path = some (.file leaf) → ¬ isMarkdown path →
    ∃ path', Destination operations index index' path path' ∧
      tree'.node path' = some (.file leaf)
  rest : ∀ path leaf, tree'.node path = some (.file leaf) →
    (¬ FromBefore operations tree index index' path ↔ FromRequest operations index' path)
  documents : ∀ operation ∈ operations, ∀ documentId, operation.Changes documentId →
    ∃ record, index'.get documentId = some record
  attachments : ∀ documentId source name, .addAttachment documentId source name ∈ operations →
    ∃ record bytes, index'.get documentId = some record ∧ payload source = some bytes ∧
      tree'.node (record.relativePath.dropLast ++ [name.value]) = some (.file ⟨bytes, .plain⟩)

namespace PlanInput

variable {input : PlanInput} {packagePolicy : PackagePolicy} {state : PlanState}
  {tree' : ContentTree} {index' : ContentIndex} {documentId : DocumentId}

/-! ### An applied request -/

/-- A request was planned, run and indexed again. -/
structure Applied (input : PlanInput) (packagePolicy : PackagePolicy) (state : PlanState)
    (tree' : ContentTree) (index' : ContentIndex) : Prop where
  valid : input.Valid packagePolicy
  fits : ∀ operation ∈ input.request.operations, input.Fits operation
  planned : input.planOperations input.request.operations {} = .ok state
  runs : FileTree.RunsClear input.tree (edits state.plan) tree'
  agrees : input.Agrees state tree'
  followed : input.Followed {} state input.request.operations (edits state.plan)
  indexed : ContentIndex.build input.x input.policy packagePolicy tree' = .ok index'

theorem applied_of_plan (hvalid : input.Valid packagePolicy) {plan : List PlannedMutation}
    (hplan : input.buildPlan = .ok plan) {moves : List AppliedMove}
    (hexecute : executePlan input.tree plan = .ok (tree', moves))
    (hindexed : ContentIndex.build input.x input.policy packagePolicy tree' = .ok index') :
    ∃ state, input.Applied packagePolicy state tree' index' ∧ state.plan = plan ∧
      moves = plan.filterMap PlannedMutation.appliedMove := by
  obtain ⟨state, hstate, rfl, houtcome⟩ := buildPlan_outcome hvalid hplan
  have hfits : ∀ operation ∈ input.request.operations, input.Fits operation := by
    by_contra hfits
    obtain ⟨error, herror⟩ := houtcome.fails hfits
    rw [executePlan_eq_error herror] at hexecute
    cases hexecute
  obtain ⟨mutations, last, hmutations, hruns, hagrees, hfollowed⟩ :=
    followed_operations hvalid (List.Subset.refl _) hfits (Agrees.initial hvalid) hstate
  have hsame : mutations = state.plan := by rw [hmutations]; rfl
  subst hsame
  rw [executePlan_eq_ok hruns] at hexecute
  cases hexecute
  exact ⟨state, ⟨hvalid, hfits, hstate, hruns, hagrees, hfollowed, hindexed⟩, rfl, rfl⟩

/-- The planner's input for a request. -/
def ofRequest (x : Externals) (policy : ContentPolicy) (packagePolicy : PackagePolicy)
    (tree : ContentTree) (packageRoot : PackageDirectory) (package : ValidatedPackage)
    (index : ContentIndex) : PlanInput where
  x := x
  tree := tree
  packageRoot := packageRoot
  package := package
  index := index
  policy := policy
  maximumPlannedBytes := packagePolicy.limits.maximumTotalBytes

theorem applied_of_ok {x : Externals} {policy : ContentPolicy} {tree : ContentTree}
    {packageRoot : PackageDirectory} {package : ValidatedPackage} {outcome : ApplyOutcome}
    (hreads : package.Reads x packagePolicy packageRoot)
    (h : applyRequestWithPolicy x policy packagePolicy tree packageRoot package =
      .ok (tree', outcome)) :
    ∃ index index' state,
      (ofRequest x policy packagePolicy tree packageRoot package index).Applied packagePolicy state
        tree' index' ∧
      outcome.moves = state.plan.filterMap PlannedMutation.appliedMove := by
  unfold applyRequestWithPolicy at h
  simp only [bind_eq_ok, mapError_eq_ok, Prod.exists, pure_eq_ok, Except.ok.injEq,
    Prod.mk.injEq] at h
  obtain ⟨index, hindex, plan, hplan, tree'', moves, hexecute, index', hindex', rfl, rfl⟩ := h
  have hvalid : (ofRequest x policy packagePolicy tree packageRoot package index).Valid
      packagePolicy := ⟨hindex, hreads⟩
  obtain ⟨state, happlied, rfl, hmoves⟩ := applied_of_plan hvalid hplan hexecute hindex'
  exact ⟨index, index', state, happlied, hmoves⟩

/-! ### Documents of the new tree -/

theorem isMarkdown_of_fileName {path : RelPath} (h : fileName path = "index.md") :
    isMarkdown path := by
  rw [isMarkdown, h]
  decide

/-- A document of the planner is indexed at its path. -/
theorem Applied.record (h : input.Applied packagePolicy state tree' index')
    {document : VirtualDocument} (hdocument : input.document state documentId = some document) :
    ∃ record leaf, index'.get documentId = some record ∧
      record.relativePath = document.relativePath ∧
      tree'.node document.relativePath = some (.file leaf) ∧
      DocumentRecord.fromMarkdown input.x input.policy document.relativePath leaf.bytes =
        .ok record ∧
      input.Describes documentId document leaf := by
  obtain ⟨hpath, hindex, leaf, hfile, hdescribes⟩ := h.agrees.placed documentId document hdocument
  have hmd := isMarkdown_of_fileName (fileName_relativePath hpath)
  obtain ⟨-, hvalid⟩ := file_of_build h.indexed hfile
  simp only [hmd, if_true] at hvalid
  obtain ⟨-, record, hrecord⟩ := hvalid
  obtain ⟨hdecode, -, hcanonical, -, -, hrelative, -, -⟩ := fromMarkdown_eq_ok_iff.1 hrecord
  have hid : record.metadata.documentId = documentId := by
    by_cases htype : document.documentType = .index
    · obtain ⟨metadata, hmetadata, hid, -⟩ := hdescribes.metadata_of_live (hindex htype)
      rw [hmetadata] at hdecode
      cases hdecode
      exact hid
    · have hin : InBundle documentId document.relativePath := by
        rw [relativePath_eq_of_canonical hpath]
        exact inBundle_directory hpath htype _
      rw [hcanonical, canonicalDocumentPath_eq] at hin
      exact (inBundle_of_documentDirectory not_undotted_index hin).symm
  refine ⟨record, leaf, (get_eq_some_iff h.indexed).2 ⟨?_, hid⟩, hrelative, hfile, hrecord,
    hdescribes⟩
  refine (mem_documents_iff h.indexed).2 ⟨leaf, ?_, ?_, ?_⟩
  · rw [hrelative, hfile]
  · rw [hrelative]
    exact hmd
  · rw [hrelative]
    exact hrecord

/-- A document whose file stays as it is keeps its record. -/
theorem Applied.same_record (h : input.Applied packagePolicy state tree' index')
    {record : DocumentRecord} (hrecord : input.index.get documentId = some record)
    (hdocument : input.document state documentId = some (recordDocument record))
    (hnode : tree'.node record.relativePath = input.tree.node record.relativePath) :
    index'.get documentId = some record := by
  obtain ⟨record', leaf', hget, -, hfile, hmarkdown, -⟩ := h.record hdocument
  obtain ⟨hmem, -⟩ := (get_eq_some_iff h.valid.indexed).1 hrecord
  obtain ⟨leaf, hold, -, hfrom⟩ := (mem_documents_iff h.valid.indexed).1 hmem
  have hleaf : some (FileTree.Node.file leaf') = some (.file leaf) :=
    hfile.symm.trans (hnode.trans hold)
  cases hleaf
  have hsame : record' = record := Except.ok.inj (hmarkdown.symm.trans hfrom)
  rw [hget, hsame]

theorem Applied.files (h : input.Applied packagePolicy state tree' index') :
    tree'.files.Perm (input.tree.files.map (FileTree.replayAll (edits state.plan)) ++
      FileTree.createdBy (edits state.plan)) :=
  FileTree.files_perm_of_runsClear h.runs

/-- A followed file is in the new tree. -/
theorem Applied.node_of_replay (h : input.Applied packagePolicy state tree' index')
    {path path' : RelPath} {leaf leaf' : ContentLeaf}
    (hfile : input.tree.node path = some (.file leaf))
    (hreplay : FileTree.replayAll (edits state.plan) (path, leaf) = (path', leaf')) :
    tree'.node path' = some (.file leaf') := by
  rw [← FileTree.mem_files, h.files.mem_iff, ← hreplay]
  exact List.mem_append_left _ (List.mem_map_of_mem (FileTree.mem_files.2 hfile))

theorem Applied.initial_document (h : input.Applied packagePolicy state tree' index')
    {record : DocumentRecord} (hrecord : input.index.get documentId = some record) :
    ∃ document, input.document state documentId = some document ∧
      Kept input.request.operations documentId (edits state.plan) (recordDocument record)
        document := by
  refine h.followed.document documentId (recordDocument record) ?_
  rw [document_initial, hrecord]
  rfl

/-- A document without an operation that changes it keeps its path and its bytes. -/
theorem Applied.unchanged (h : input.Applied packagePolicy state tree' index')
    {record : DocumentRecord} (hrecord : input.index.get documentId = some record)
    (hnone : ∀ operation ∈ input.request.operations, ¬ operation.Changes documentId) :
    index'.get documentId = some record ∧
      tree'.node record.relativePath = input.tree.node record.relativePath := by
  have hdocument : input.document state documentId = some (recordDocument record) := by
    rw [h.followed.unnamed documentId hnone, document_initial, hrecord]
    rfl
  obtain ⟨document, hsame, hkept⟩ := h.initial_document hrecord
  obtain rfl := Option.some.inj (hsame.symm.trans hdocument)
  obtain ⟨hmem, -⟩ := (get_eq_some_iff h.valid.indexed).1 hrecord
  obtain ⟨leaf, hfile, -, -⟩ := (mem_documents_iff h.valid.indexed).1 hmem
  have hreplay : FileTree.replayAll (edits state.plan) (record.relativePath, leaf) =
      (record.relativePath, leaf) :=
    Prod.ext (hkept.own leaf)
      (hkept.bytes (fun operation hoperation hrewrites =>
        hnone operation hoperation hrewrites.changes) leaf)
  have hnode : tree'.node record.relativePath = input.tree.node record.relativePath :=
    (h.node_of_replay hfile hreplay).trans hfile.symm
  exact ⟨h.same_record hrecord hdocument hnode, hnode⟩

theorem Applied.frozen (h : input.Applied packagePolicy state tree' index')
    {record : DocumentRecord} (hrecord : input.index.get documentId = some record)
    (hfrozen : record.Frozen) :
    index'.get documentId = some record ∧
      tree'.node record.relativePath = input.tree.node record.relativePath := by
  obtain ⟨hdocument, hnode⟩ := h.agrees.kept documentId record hrecord (.inr hfrozen)
  exact ⟨h.same_record hrecord hdocument hnode, hnode⟩

/-- Where the file of an attachment or an asset is followed to. -/
theorem Applied.destination (h : input.Applied packagePolicy state tree' index')
    {path : RelPath} {leaf : ContentLeaf} (hfile : input.tree.node path = some (.file leaf))
    (hmd : ¬ isMarkdown path) :
    ∃ path', Destination input.request.operations input.index index' path path' ∧
      FileTree.replayAll (edits state.plan) (path, leaf) = (path', leaf) := by
  have hname : fileName path ≠ "index.md" := fun hname => hmd (isMarkdown_of_fileName hname)
  by_cases hbundle : ∃ d, InBundle d path
  · obtain ⟨d, hbundle⟩ := hbundle
    obtain ⟨record, hrecord, hindex, hpath⟩ := file_in_bundle h.valid.indexed hfile hbundle
    obtain ⟨document, hdocument, hkept⟩ := h.initial_document hrecord
    obtain ⟨record', -, hrecord', hrelative, -⟩ := h.record hdocument
    have hreplay := hkept.beside hindex [fileName path] leaf (by simpa using hname)
    refine ⟨record'.relativePath.dropLast ++ [fileName path],
      .bundle hrecord hindex (by rw [hpath, List.dropLast_concat]) hrecord' ?_, ?_⟩
    · intro hstill
      rw [hrelative, hkept.still hstill]
      rfl
    · rw [hrelative]
      have hbase : (recordDocument record).directory ++ [fileName path] = path := hpath.symm
      rw [hbase] at hreplay
      exact hreplay
  · rw [not_exists] at hbundle
    refine ⟨path, .elsewhere ?_, h.followed.outside path leaf hbundle hname⟩
    intro d record hrecord hindex hbeside
    have hplaced := placed_record h.valid hrecord
    have hin := inBundle_directory hplaced.path hindex [fileName path]
    refine hbundle d ?_
    have hne : path ≠ [] := by
      rintro rfl
      simp at hfile
    have hsplit : path = path.dropLast ++ [fileName path] := by
      rw [fileName, List.getLastD_eq_getLast?, List.getLast?_eq_some_getLast hne,
        Option.getD_some, List.dropLast_append_getLast hne]
    rw [hsplit, hbeside]
    exact hin

/-! ### All files are accounted for -/

/-- A file has one destination. -/
theorem Applied.destination_unique (h : input.Applied packagePolicy state tree' index')
    {path a b : RelPath}
    (ha : Destination input.request.operations input.index index' path a)
    (hb : Destination input.request.operations input.index index' path b) : a = b := by
  cases ha with
  | bundle old bundled beside new =>
      cases hb with
      | bundle old' bundled' beside' new' =>
          have hpath := relativePath_of_get h.valid.indexed old
          rw [← beside, beside', ← relativePath_of_get h.valid.indexed old'] at hpath
          cases get_inj_path h.valid.indexed old old' hpath
          rw [new] at new'
          cases new'
          rfl
      | elsewhere unbundled => exact absurd beside (unbundled _ _ old bundled)
  | elsewhere unbundled =>
      cases hb with
      | bundle old' bundled' beside' => exact absurd beside' (unbundled _ _ old' bundled')
      | elsewhere => rfl

/-- No file is created where a followed file ends up. -/
theorem Applied.created_apart (h : input.Applied packagePolicy state tree' index')
    {path : RelPath} {leaf leaf' : ContentLeaf}
    (hold : (path, leaf) ∈ input.tree.files.map (FileTree.replayAll (edits state.plan)))
    (hnew : (path, leaf') ∈ FileTree.createdBy (edits state.plan)) : False := by
  have hnodup : (tree'.files.map Prod.fst).Nodup :=
    (List.pairwise_map.2 tree'.pairwise_files).imp fun hlt => hlt.ne
  rw [(h.files.map Prod.fst).nodup_iff, List.map_append, List.nodup_append] at hnodup
  exact hnodup.2.2 path (List.mem_map.2 ⟨_, hold, rfl⟩) path (List.mem_map.2 ⟨_, hnew, rfl⟩) rfl

/-- Where a file of the new tree comes from: it is the Markdown of a document, it was
a file beside documents before, or it is an attachment of the request. -/
theorem Applied.origin (h : input.Applied packagePolicy state tree' index') {path : RelPath}
    {leaf : ContentLeaf} (hfile : tree'.node path = some (.file leaf)) :
    (∃ d document, input.document state d = some document ∧ path = document.relativePath ∧
        (input.index.get d = none →
          ∃ content, .createDocument d content ∈ input.request.operations)) ∨
      (∃ before old, input.tree.node before = some (.file old) ∧ ¬ isMarkdown before ∧
        Destination input.request.operations input.index index' before path) ∨
      ∃ d source name document, .addAttachment d source name ∈ input.request.operations ∧
        input.document state d = some document ∧ path = document.directory ++ [name.value] := by
  rw [← FileTree.mem_files, h.files.mem_iff, List.mem_append] at hfile
  rcases hfile with hold | hnew
  · obtain ⟨⟨before, old⟩, hold, hreplay⟩ := List.mem_map.1 hold
    rw [FileTree.mem_files] at hold
    by_cases hmd : isMarkdown before
    · obtain ⟨d, record, hrecord, rfl⟩ := get_of_markdown h.valid.indexed hold hmd
      obtain ⟨document, hdocument, hkept⟩ := h.initial_document hrecord
      have hown : (FileTree.replayAll (edits state.plan) (record.relativePath, old)).1 =
          document.relativePath := hkept.own old
      rw [hreplay] at hown
      refine .inl ⟨d, document, hdocument, hown, fun hnone => ?_⟩
      cases hrecord.symm.trans hnone
    · obtain ⟨path', hdestination, hfollowed⟩ := h.destination hold hmd
      rw [hreplay] at hfollowed
      cases hfollowed
      exact .inr (.inl ⟨before, _, hold, hmd, hdestination⟩)
  · rcases h.followed.added _ hnew with
      ⟨d, content, document, hoperation, hdocument, hpath⟩ |
      ⟨d, source, name, document, bytes, hoperation, hdocument, -, heq⟩
    · exact .inl ⟨d, document, hdocument, hpath, fun _ => ⟨content, hoperation⟩⟩
    · exact .inr (.inr ⟨d, source, name, document, hoperation, hdocument, congrArg Prod.fst heq⟩)

theorem Applied.fromRequest (h : input.Applied packagePolicy state tree' index')
    {path : RelPath} {leaf : ContentLeaf} (hfile : tree'.node path = some (.file leaf))
    (hbefore : ¬ FromBefore input.request.operations input.tree input.index index' path) :
    FromRequest input.request.operations index' path := by
  rcases h.origin hfile with
    ⟨d, document, hdocument, hpath, hcreated⟩ | hold |
    ⟨d, source, name, document, hoperation, hdocument, hpath⟩
  · obtain ⟨record', -, hrecord', hrelative, -⟩ := h.record hdocument
    by_cases hchanges : ∃ operation ∈ input.request.operations, operation.Changes d
    · obtain ⟨operation, hoperation, hchanges⟩ := hchanges
      exact .inl ⟨operation, hoperation, d, record', hchanges, hrecord',
        hpath.trans hrelative.symm⟩
    · have hnone : ∀ operation ∈ input.request.operations, ¬ operation.Changes d :=
        fun operation hoperation hc => hchanges ⟨operation, hoperation, hc⟩
      rw [h.followed.unnamed d hnone, document_initial] at hdocument
      obtain ⟨record, hrecord, rfl⟩ := Option.map_eq_some_iff.1 hdocument
      exact absurd (.inl ⟨d, record, hrecord, .inl hnone, hpath⟩) hbefore
  · exact absurd (.inr hold) hbefore
  · obtain ⟨record, -, hrecord, hrelative, -⟩ := h.record hdocument
    refine .inr ⟨d, source, name, record, hoperation, hrecord, ?_⟩
    rw [hrelative]
    exact hpath

/-- Every indexed document is one the planner knows. -/
theorem Applied.document_of_record (h : input.Applied packagePolicy state tree' index')
    {record : DocumentRecord} (hrecord : index'.get documentId = some record) :
    ∃ document, input.document state documentId = some document := by
  have hname : fileName record.relativePath = "index.md" := by
    rw [relativePath_of_get h.indexed hrecord, fileName_concat]
  obtain ⟨leaf, hfile, -⟩ := file_of_get h.indexed hrecord
  rcases h.origin hfile with
    ⟨d, document, hdocument, hpath, -⟩ | ⟨before, old, -, hmd, hdestination⟩ |
    ⟨d, source, name, document, hoperation, -, hpath⟩
  · obtain ⟨record', -, hrecord', hrelative, -⟩ := h.record hdocument
    cases get_inj_path h.indexed hrecord hrecord' (hpath.trans hrelative.symm)
    exact ⟨document, hdocument⟩
  · rw [hdestination.fileName_eq] at hname
    exact absurd (isMarkdown_of_fileName hname) hmd
  · rw [hpath, fileName_concat] at hname
    exact absurd hname (h.fits _ hoperation).1

theorem Applied.attached (h : input.Applied packagePolicy state tree' index')
    {source : PayloadPath} {name : AttachmentName}
    (hoperation : .addAttachment documentId source name ∈ input.request.operations) :
    ∃ record bytes, index'.get documentId = some record ∧
      input.packageRoot.payloadAt source = some bytes ∧
      (record.relativePath.dropLast ++ [name.value], ⟨bytes, .plain⟩) ∈
        FileTree.createdBy (edits state.plan) := by
  obtain ⟨document, bytes, hdocument, hbytes, hcreated⟩ := h.followed.supplied _ hoperation
  obtain ⟨record, -, hrecord, hrelative, -⟩ := h.record hdocument
  rw [VirtualDocument.directory, ← hrelative] at hcreated
  exact ⟨record, bytes, hrecord, hbytes, hcreated⟩

/-- What the request writes is not there from before. -/
theorem Applied.not_fromBefore (h : input.Applied packagePolicy state tree' index')
    {path : RelPath} (hrequest : FromRequest input.request.operations index' path) :
    ¬ FromBefore input.request.operations input.tree input.index index' path := by
  rcases hrequest with
    ⟨operation, hoperation, d, record, hchanges, hrecord, rfl⟩ |
    ⟨d, source, name, record, hoperation, hrecord, rfl⟩
  · have hname : fileName record.relativePath = "index.md" := by
      rw [relativePath_of_get h.indexed hrecord, fileName_concat]
    rintro (⟨d', old, hold, hcase, hpath⟩ | ⟨before, leaf, -, hmd, hdestination⟩)
    · -- A document at this path is the changed one.
      have hsame : index'.get d' = some old := by
        rcases hcase with hnone | hfrozen
        · exact (h.unchanged hold hnone).1
        · exact (h.frozen hold hfrozen).1
      cases get_inj_path h.indexed hrecord hsame hpath
      rcases hcase with hnone | hfrozen
      · exact hnone operation hoperation hchanges
      · exact h.followed.thawed operation hoperation d hchanges old hold hfrozen
    · rw [hdestination.fileName_eq] at hname
      exact hmd (isMarkdown_of_fileName hname)
  · have hname : name.value ≠ "index.md" := (h.fits _ hoperation).1
    rintro (⟨d', old, hold, -, hpath⟩ | ⟨before, leaf, hbefore, hmd, hdestination⟩)
    · have := congrArg fileName hpath
      rw [relativePath_of_get h.valid.indexed hold, fileName_concat, fileName_concat] at this
      exact hname this
    · obtain ⟨record', bytes, hrecord', -, hcreated⟩ := h.attached hoperation
      rw [hrecord] at hrecord'
      cases hrecord'
      obtain ⟨path', hdestination', hreplay⟩ := h.destination hbefore hmd
      cases h.destination_unique hdestination hdestination'
      exact h.created_apart (List.mem_map.2 ⟨_, FileTree.mem_files.2 hbefore, hreplay⟩) hcreated

theorem Applied.changed_record (h : input.Applied packagePolicy state tree' index')
    {operation : Operation} (hoperation : operation ∈ input.request.operations)
    (hchanges : operation.Changes documentId) :
    ∃ record, index'.get documentId = some record := by
  have hsupplied := h.followed.supplied operation hoperation
  obtain ⟨document, hdocument⟩ : ∃ document, input.document state documentId = some document := by
    cases operation with
    | createDocument d content =>
        obtain ⟨document, -, hdocument, -⟩ := hsupplied
        exact ⟨document, hchanges ▸ hdocument⟩
    | addAttachment => exact hchanges.elim
    | _ =>
        obtain ⟨document, hdocument⟩ := hsupplied
        exact ⟨document, hchanges ▸ hdocument⟩
  obtain ⟨record, -, hrecord, -⟩ := h.record hdocument
  exact ⟨record, hrecord⟩

/-- Creation times survive, given that archived metadata is read back as written. -/
theorem Applied.created_instant (h : input.Applied packagePolicy state tree' index')
    (hx : input.x.YamlRoundTrips) {record : DocumentRecord}
    (hrecord : input.index.get documentId = some record) :
    ∃ record', index'.get documentId = some record' ∧
      record'.metadata.created.instant = record.metadata.created.instant := by
  obtain ⟨document, hdocument, hkept⟩ := h.initial_document hrecord
  obtain ⟨record', leaf, hrecord', -, -, hmarkdown, hdescribes⟩ := h.record hdocument
  obtain ⟨metadata, hmetadata, -, hcreated, -, -⟩ := hdescribes.metadata fun _ => hx
  obtain ⟨hdecode, -⟩ := fromMarkdown_eq_ok_iff.1 hmarkdown
  rw [hmetadata] at hdecode
  cases hdecode
  refine ⟨record', hrecord', ?_⟩
  rw [hcreated, hkept.created]
  rfl

end PlanInput

/-- The frame of an applied request. -/
theorem request_frame {x : Externals} {policy : ContentPolicy} {packagePolicy : PackagePolicy}
    {tree tree' : ContentTree} {packageRoot : PackageDirectory} {package : ValidatedPackage}
    {outcome : ApplyOutcome} (hx : x.YamlRoundTrips)
    (hreads : package.Reads x packagePolicy packageRoot)
    (happly : applyRequestWithPolicy x policy packagePolicy tree packageRoot package =
      .ok (tree', outcome)) :
    ∃ index index', ContentIndex.build x policy packagePolicy tree = .ok index ∧
      ContentIndex.build x policy packagePolicy tree' = .ok index' ∧
      RequestFrame package.request.operations packageRoot.payloadAt tree tree' index index' := by
  obtain ⟨index, index', state, h, -⟩ := PlanInput.applied_of_ok hreads happly
  refine ⟨index, index', h.valid.indexed, h.indexed, ?_⟩
  constructor
  · intro d record hrecord
    exact h.created_instant hx hrecord
  · intro d record hrecord hnone
    exact h.unchanged hrecord hnone
  · intro d record hrecord hfrozen
    exact h.frozen hrecord hfrozen
  · intro path leaf hfile hmd
    obtain ⟨path', hdestination, hreplay⟩ := h.destination hfile hmd
    exact ⟨path', hdestination, h.node_of_replay hfile hreplay⟩
  · intro path leaf hfile
    exact ⟨fun hbefore => h.fromRequest hfile hbefore, h.not_fromBefore⟩
  · intro operation hoperation d hchanges
    exact h.changed_record hoperation hchanges
  · intro d source name hoperation
    obtain ⟨record, bytes, hrecord, hbytes, hcreated⟩ := h.attached hoperation
    refine ⟨record, bytes, hrecord, hbytes, ?_⟩
    rw [← FileTree.mem_files, h.files.mem_iff]
    exact List.mem_append_right _ hcreated

namespace Sample

theorem externals_roundTrip (request : ChangeRequest) : (externals request).YamlRoundTrips := by
  refine Externals.ofTables_roundTrip ?_
  decide +kernel

/-- Moving the decision and adding a picture leaves the frame. -/
theorem moveAndAttach_frame : ∃ tree' index index',
    ContentIndex.build (externals moveAndAttach) {} packagePolicy (tree []) = .ok index ∧
      ContentIndex.build (externals moveAndAttach) {} packagePolicy tree' = .ok index' ∧
      RequestFrame moveAndAttach.operations directory.payloadAt (tree []) tree' index index' := by
  obtain ⟨⟨tree', outcome⟩, happly⟩ : ∃ result, applyRequestWithPolicy (externals moveAndAttach) {}
      packagePolicy (tree []) directory (package moveAndAttach) = .ok result :=
    exists_eq_ok_of_isOk (by decide +kernel)
  obtain ⟨index, index', hindex, hindex', hframe⟩ :=
    request_frame (externals_roundTrip moveAndAttach) moveAndAttach_reads happly
  exact ⟨tree', index, index', hindex, hindex', hframe⟩

/-- Only add a picture to the decision. -/
def attachOnly : ChangeRequest := request none [.addAttachment document picture pictureName]

theorem attachOnly_reads :
    (package attachOnly).Reads (externals attachOnly) packagePolicy directory := by
  unfold ValidatedPackage.Reads
  decide +kernel

/-- The decision of `attachOnly` is named by an operation, is active, and keeps its
Markdown, although no operation changes it. -/
theorem attachOnly_keeps_document : ∃ tree' outcome record,
    applyRequestWithPolicy (externals attachOnly) {} packagePolicy (tree []) directory
        (package attachOnly) = .ok (tree', outcome) ∧
      (indexOf (externals attachOnly) {} (tree [])).get document = some record ∧
      (∃ operation ∈ attachOnly.operations, operation.documentId = document) ∧
      (∀ operation ∈ attachOnly.operations, ¬ operation.Changes document) ∧
      ¬ record.Frozen ∧ isMarkdown record.relativePath ∧
      tree'.node record.relativePath = (tree []).node record.relativePath ∧
      (∀ documentId source name, .addAttachment documentId source name ∈ attachOnly.operations →
        name.value ≠ fileName record.relativePath) := by
  obtain ⟨⟨tree', outcome⟩, happly⟩ : ∃ result, applyRequestWithPolicy (externals attachOnly) {}
      packagePolicy (tree []) directory (package attachOnly) = .ok result :=
    exists_eq_ok_of_isOk (by decide +kernel)
  obtain ⟨index, index', state, h, -⟩ := PlanInput.applied_of_ok attachOnly_reads happly
  obtain ⟨record, hrecord, hlive, htype, hstatus, hname⟩ :
      ∃ record ∈ (indexOf (externals attachOnly) {} (tree [])).get document,
        record.location.archived = false ∧ record.location.documentType = .decision ∧
          record.metadata.status = .active ∧ fileName record.relativePath = "index.md" := by
    decide +kernel
  have hnone : ∀ operation ∈ attachOnly.operations, ¬ operation.Changes document := by
    intro operation hoperation
    rw [List.mem_singleton.1 hoperation]
    exact not_false
  have hindex : index = indexOf (externals attachOnly) {} (tree []) :=
    (build_eq_ok_iff.1 h.valid.indexed).2.2
  subst hindex
  refine ⟨tree', outcome, record, happly, hrecord, ⟨_, List.mem_singleton_self _, rfl⟩, hnone, ?_,
    PlanInput.isMarkdown_of_fileName hname, (h.unchanged hrecord hnone).2, ?_⟩
  · simp [DocumentRecord.Frozen, hlive, htype, hstatus]
  · intro d source name hoperation
    cases List.mem_singleton.1 hoperation
    rw [hname]
    decide

end Sample

end AgentKnowledge
