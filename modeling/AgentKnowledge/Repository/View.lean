import AgentKnowledge.Lib.Checkout
import AgentKnowledge.Repository.Frame

/-!
What applying a request depends on.

A worktree may hold directories that no file is in any more: a move takes a bundle
away and leaves the directories above it. The planner does not see them. It only
looks at paths in bundles and at names with a dot (`Pinned`), where a worktree and
a fresh checkout agree (`SameContent`). So a request has the same outcome on both
(`applyRequest_congr`), except that the index counts directories, too; the count
is bounded by `Applied.entryCount_le`.
-/

namespace AgentKnowledge

open Results

/-! ### Paths the planner looks at -/

/-- In the bundle of a document, or a name with a dot. -/
def Pinned (path : RelPath) : Prop :=
  ¬ Undotted (fileName path) ∨ ∃ documentId, InBundle documentId path

/-- Two trees with the same files, and the same entries where the planner looks. -/
structure SameContent (tree other : ContentTree) : Prop where
  files : other.files = tree.files
  node : ∀ path, Pinned path → other.node path = tree.node path

namespace SameContent

variable {tree other : ContentTree}

theorem symm (h : SameContent tree other) : SameContent other tree :=
  ⟨h.files.symm, fun path hpath => (h.node path hpath).symm⟩

theorem trans {third : ContentTree} (h : SameContent tree other) (h' : SameContent other third) :
    SameContent tree third :=
  ⟨h'.files.trans h.files, fun path hpath => (h'.node path hpath).trans (h.node path hpath)⟩

theorem of_settled (h : tree.Settled Pinned) : SameContent tree tree.prune :=
  ⟨tree.files_prune, fun _ hpath => h.node_prune hpath⟩

theorem node_file (h : SameContent tree other) {path : RelPath} {leaf : ContentLeaf} :
    other.node path = some (.file leaf) ↔ tree.node path = some (.file leaf) := by
  rw [← FileTree.mem_files, h.files, FileTree.mem_files]

theorem isFile (h : SameContent tree other) : other.isFile = tree.isFile :=
  funext fun path => by
    rw [Bool.eq_iff_iff, FileTree.isFile_iff, FileTree.isFile_iff]
    exact exists_congr fun leaf => h.node_file

theorem lookup (h : SameContent tree other) {path : RelPath} (hpath : Pinned path) :
    other.lookup path = tree.lookup path := by
  unfold FileTree.lookup FileTree.fileOnPath
  rw [h.node path hpath, h.isFile]

theorem lookup_file (h : SameContent tree other) {path : RelPath} {leaf : ContentLeaf}
    (hfile : tree.node path = some (.file leaf)) : other.lookup path = tree.lookup path := by
  unfold FileTree.lookup
  rw [hfile, h.node_file.2 hfile]

end SameContent

theorem pinned_concat {directory : RelPath} {name : String} (h : ¬ Undotted name) :
    Pinned (directory ++ [name]) :=
  .inl (by rwa [fileName_concat])

theorem pinned_canonicalDocumentPath (location : DocumentLocation) (created : OffsetDateTime)
    (documentId : DocumentId) : Pinned (canonicalDocumentPath location created documentId) := by
  rw [canonicalDocumentPath_eq]
  exact pinned_concat PlanInput.not_undotted_index

theorem pinned_bundleOf (location : DocumentLocation) (created : OffsetDateTime)
    (documentId : DocumentId) (rest : RelPath) :
    Pinned (bundleOf location created documentId ++ rest) :=
  .inr ⟨documentId, inBundle_bundleOf location created documentId rest⟩

/-- Above a bundle nothing is pinned. -/
theorem eq_bundleOf_of_pinned {location : DocumentLocation} {created : OffsetDateTime}
    {documentId : DocumentId} {path : RelPath} (hpinned : Pinned path)
    (hpath : path <+: bundleOf location created documentId) :
    path = bundleOf location created documentId := by
  by_contra hne
  rcases hpinned with hdot | ⟨d, hbundle⟩
  · refine hdot ?_
    by_cases hroot : path = []
    · subst hroot
      decide
    · exact PlanInput.undotted_fileName hroot fun name hname =>
        undotted_bundleOf location created documentId name (hpath.subset hname)
  · exact not_inBundle_above hpath hne hbundle

/-- What a created or moved document reserves. -/
theorem pinned_bundlePath (project : Option ProjectId) (documentType : DocumentType)
    (created : OffsetDateTime) (documentId : DocumentId) :
    Pinned (bundlePath (createDocumentPath project documentType created documentId)
      documentType) := by
  rw [createDocumentPath_eq]
  by_cases hindex : documentType = .index
  · rw [PlanInput.bundlePath_eq_of_index hindex]
    exact pinned_canonicalDocumentPath _ _ _
  · rw [PlanInput.bundlePath_eq_of_ne_index hindex, canonicalDocumentPath_eq_bundle hindex,
      List.dropLast_concat, ← List.append_nil (bundleOf _ _ _)]
    exact pinned_bundleOf _ _ _ _

/-! ### The planner on another tree -/

namespace VirtualOccupancy

variable {tree other : ContentTree} {entries : VirtualOccupancy}

theorem reserve_congr {path : RelPath} (h : other.lookup path = tree.lookup path) :
    reserve other entries path = reserve tree entries path := by
  unfold reserve isOccupied
  rw [h]

theorem movePath_congr {source destination : RelPath}
    (h : other.lookup destination = tree.lookup destination) :
    movePath other entries source destination = movePath tree entries source destination := by
  unfold movePath
  rw [reserve_congr h]

end VirtualOccupancy

namespace PlanInput

variable {input : PlanInput} {packagePolicy : PackagePolicy} {state : PlanState}
  {documentId : DocumentId} {other : ContentTree} {index : ContentIndex}

/-- The same request on another tree. -/
def on (input : PlanInput) (tree : ContentTree) (index : ContentIndex) : PlanInput :=
  { input with tree, index }

/-- Another tree looks the same to the planner. -/
structure SameView (input : PlanInput) (tree : ContentTree) (index : ContentIndex) : Prop where
  content : SameContent input.tree tree
  get : ∀ documentId, index.get documentId = input.index.get documentId

variable (hview : input.SameView other index)

include hview

theorem SameView.resolveDocument (state : PlanState) (documentId : DocumentId) :
    (input.on other index).resolveDocument state documentId =
      input.resolveDocument state documentId := by
  unfold PlanInput.resolveDocument
  rw [show (input.on other index).index.get documentId = input.index.get documentId from
    hview.get documentId]

theorem SameView.planCreate (content : PayloadPath) :
    (input.on other index).planCreate state documentId content =
      input.planCreate state documentId content := by
  unfold PlanInput.planCreate
  rw [show (input.on other index).index.get documentId = input.index.get documentId from
    hview.get documentId]
  refine bind_congr_ok fun _ _ => bind_congr_ok fun _ _ => bind_congr_ok fun _ _ => ?_
  refine bind_congr_ok fun _ _ => bind_congr_ok fun _ _ => ?_
  refine congrArg (· >>= _) (VirtualOccupancy.reserve_congr (hview.content.lookup ?_))
  exact pinned_bundlePath _ _ _ _

theorem SameView.planUpdate (expectedRevision : Revision) (content : PayloadPath) :
    (input.on other index).planUpdate state documentId expectedRevision content =
      input.planUpdate state documentId expectedRevision content := by
  unfold PlanInput.planUpdate
  rw [hview.resolveDocument]
  rfl

theorem SameView.planMove (expectedRevision : Revision) (project : Option ProjectId)
    (documentType : DocumentType) :
    (input.on other index).planMove state documentId expectedRevision project documentType =
      input.planMove state documentId expectedRevision project documentType := by
  unfold PlanInput.planMove
  rw [hview.resolveDocument]
  refine bind_congr_ok fun _ _ => bind_congr_ok fun _ _ => bind_congr_ok fun _ _ => ?_
  refine bind_congr_ok fun _ _ => bind_congr_ok fun _ _ => ?_
  refine congrArg (· >>= _) (VirtualOccupancy.movePath_congr (hview.content.lookup ?_))
  exact pinned_bundlePath _ _ _ _

theorem SameView.loadMarkdown {document : VirtualDocument} {bytes : Bytes}
    (h : input.loadMarkdown document = .ok bytes) :
    (input.on other index).loadMarkdown document = input.loadMarkdown document := by
  unfold PlanInput.loadMarkdown readCanonicalMarkdown at h ⊢
  cases hmarkdown : document.markdown with
  | some known => rfl
  | none =>
      simp only [hmarkdown] at h ⊢
      have hlookup : (input.on other index).tree.lookup document.canonicalPath =
          input.tree.lookup document.canonicalPath := by
        cases hnode : input.tree.node document.canonicalPath with
        | some node =>
            cases node with
            | file leaf => exact hview.content.lookup_file hnode
            | dir => simp [FileTree.lookup, hnode] at h
        | none =>
            simp only [FileTree.lookup, hnode] at h
            split at h <;> cases h
      rw [hlookup]
      rfl

theorem SameView.planArchive (hknown : input.Known state) (expectedRevision : Revision) :
    (input.on other index).planArchive state documentId expectedRevision =
      input.planArchive state documentId expectedRevision := by
  unfold PlanInput.planArchive
  rw [hview.resolveDocument]
  refine bind_congr_ok fun document hfound => bind_congr_ok fun _ _ => ?_
  refine bind_congr_ok fun _ _ => bind_congr_ok fun _ hmovable => ?_
  obtain ⟨hlive, -, hindex, -⟩ := requireMovable_eq_ok.1 hmovable
  rw [resolveDocument_eq_ok] at hfound
  have hpinned : Pinned (bundlePath (archiveDocumentPath document documentId)
      document.documentType) := by
    rw [bundlePath_eq_of_ne_index hindex, archiveDocumentPath_eq hindex (hknown.path _ _ hfound),
      canonicalDocumentPath_eq_bundle hindex, List.dropLast_concat,
      ← List.append_nil (bundleOf _ _ _)]
    exact pinned_bundleOf _ _ _ _
  obtain ⟨bytes, hbytes⟩ := hknown.markdown _ _ hfound hlive
  rw [hview.loadMarkdown hbytes]
  exact congrArg (· >>= _) (VirtualOccupancy.movePath_congr (hview.content.lookup hpinned))

theorem SameView.planAttachment (hvalid : input.Valid packagePolicy) {source : PayloadPath}
    {name : AttachmentName}
    (hmem : .addAttachment documentId source name ∈ input.request.operations) :
    (input.on other index).planAttachment state documentId source name =
      input.planAttachment state documentId source name := by
  unfold PlanInput.planAttachment
  rw [hview.resolveDocument]
  refine bind_congr_ok fun _ _ => bind_congr_ok fun _ _ => bind_congr_ok fun _ _ => ?_
  refine congrArg (· >>= _) (VirtualOccupancy.reserve_congr (hview.content.lookup ?_))
  exact pinned_concat (attachment_dotted hvalid hmem)

theorem SameView.planOperation (hvalid : input.Valid packagePolicy) (hknown : input.Known state)
    {operation : Operation} (hmem : operation ∈ input.request.operations) :
    (input.on other index).planOperation state operation = input.planOperation state operation := by
  cases operation with
  | createDocument => exact hview.planCreate _
  | updateDocument => exact hview.planUpdate _ _
  | moveDocument => exact hview.planMove _ _ _
  | archiveDocument => exact hview.planArchive hknown _
  | addAttachment => exact hview.planAttachment hvalid hmem

theorem SameView.planOperations (hvalid : input.Valid packagePolicy) {operations : List Operation}
    (hmem : operations ⊆ input.request.operations) (hknown : input.Known state) :
    (input.on other index).planOperations operations state =
      input.planOperations operations state := by
  induction operations generalizing state with
  | nil => rfl
  | cons operation rest ih =>
      obtain ⟨hfirst, hrest⟩ := List.cons_subset.1 hmem
      change ((input.on other index).planOperation state operation >>= _) =
        (input.planOperation state operation >>= _)
      rw [hview.planOperation hvalid hknown hfirst]
      exact bind_congr_ok fun next hnext => ih hrest (hknown.step (planOperation_step hnext))

theorem SameView.buildPlan (hvalid : input.Valid packagePolicy) :
    (input.on other index).buildPlan = input.buildPlan := by
  unfold PlanInput.buildPlan
  refine bind_congr_ok fun _ _ => congrArg (· >>= _) ?_
  exact hview.planOperations hvalid (List.Subset.refl _) (Agrees.initial hvalid).known

/-- Attachments that fit one tree fit the other. -/
theorem SameView.fits (hvalid : input.Valid packagePolicy) {operation : Operation}
    (hmem : operation ∈ input.request.operations) (h : input.Fits operation) :
    (input.on other index).Fits operation := by
  cases operation with
  | addAttachment d source name =>
      refine ⟨h.1, fun record hrecord => ?_⟩
      have hold : input.index.get d = some record := (hview.get d).symm.trans hrecord
      exact (hview.content.node _ (pinned_concat (attachment_dotted hvalid hmem))).trans
        (h.2 record hold)
  | _ => exact trivial

omit hview

/-! ### Size and shape of the result -/

theorem length_documentDirectory_le (location : DocumentLocation) (created : OffsetDateTime)
    (documentId : DocumentId) : (documentDirectory location created documentId).length ≤ 7 := by
  by_cases hindex : location.documentType = .index
  · exact (length_documentDirectory_index hindex created documentId).trans (by decide)
  · rw [documentDirectory_eq_bundle hindex, bundleOf]
    rcases bundleRoot_cases location created with
        ⟨project, category, h⟩ | ⟨category, h⟩ | ⟨project, year, month, day, h⟩ |
        ⟨project, category, -, -, h⟩ | ⟨year, month, day, h⟩ | ⟨category, -, h⟩ <;>
      simp [h]

/-- The entries one operation can add. -/
def operationEntries : Nat := 8

variable {state' : PlanState} {document : VirtualDocument}

theorem length_directory_le (hpath : document.relativePath =
      canonicalDocumentPath document.location document.created documentId) :
    document.directory.length ≤ 7 := by
  rw [directory_eq_of_canonical hpath]
  exact length_documentDirectory_le _ _ _

theorem tame_move (hpath : document.relativePath =
      canonicalDocumentPath document.location document.created documentId)
    (hindex : document.documentType ≠ .index) (destination : RelPath) :
    (PlannedMutation.move document.directory destination).edit.Tame Pinned := by
  rw [directory_eq_bundle hpath hindex]
  exact ⟨pinned_bundleOf _ _ _, fun _ hpinned hleading => eq_bundleOf_of_pinned hpinned hleading⟩

/-- The step lemma: the mutations of an operation move whole bundles, and add few entries. -/
theorem tame_operation (hknown : input.Known state) {operation : Operation}
    (hstep : Step input state state' operation) :
    ∃ mutations, state'.plan = state.plan ++ mutations ∧
      (∀ edit ∈ edits mutations, edit.Tame Pinned) ∧
      ((edits mutations).map FileTree.Edit.cost).sum ≤ operationEntries := by
  cases hstep with
  | create absent payload decoded notArchived free progress occupied =>
      rename_i d content bytes metadata
      refine ⟨_, progress.plan, by simp [edits, PlannedMutation.edit, FileTree.Edit.Tame], ?_⟩
      have hpath : (input.createdDocument d metadata bytes).relativePath = _ :=
        createDocumentPath_eq _ _ _ _
      have hlength := length_documentDirectory_le
        ⟨input.request.documentType, input.request.project, false⟩ metadata.created d
      simp only [edits, PlannedMutation.edit, FileTree.Edit.cost, List.map_cons, List.map_nil,
        List.sum_cons, List.sum_nil, hpath, canonicalDocumentPath_eq, List.length_append,
        List.length_cons, List.length_nil, operationEntries]
      omega
  | update found revision live classified notLog active payload decoded created notArchived
      hasUpdate increases progress occupied =>
      exact ⟨_, progress.plan, by simp [edits, PlannedMutation.edit, FileTree.Edit.Tame],
        by simp [edits, PlannedMutation.edit, FileTree.Edit.cost]⟩
  | move found revision live notLog notIndex active toLog toIndex moves free progress occupied =>
      rename_i d _ document
      refine ⟨_, progress.plan, ?_, ?_⟩
      · simpa [edits] using tame_move (hknown.path _ _ found) notIndex _
      · have hpath := @movedDocument_path d document input.request.project
          input.request.documentType live
        have hlength := length_directory_le hpath
        simpa [edits, PlannedMutation.edit, FileTree.Edit.cost] using hlength.trans (by decide)
  | archive found revision live classified notLog notIndex active loaded rewritten decoded moves
      free progress occupied =>
      rename_i d _ document _ archived _ _
      have hpath : (input.archivedDocument document d archived).relativePath = _ :=
        archiveDocumentPath_eq notIndex (hknown.path _ _ found)
      refine ⟨_, progress.plan, ?_, ?_⟩
      · have htame := tame_move (hknown.path _ _ found) notIndex
        simpa [edits, PlannedMutation.edit, FileTree.Edit.Tame] using htame []
      · have hlength : (input.archivedDocument document d archived).directory.length ≤ 7 :=
          length_directory_le hpath
        simpa [edits, PlannedMutation.edit, FileTree.Edit.cost] using hlength.trans (by decide)
  | attach found live classified active payload free progress occupied =>
      refine ⟨_, progress.plan, by simp [edits, PlannedMutation.edit, FileTree.Edit.Tame], ?_⟩
      have hlength := length_directory_le (hknown.path _ _ found)
      simp only [edits, PlannedMutation.edit, FileTree.Edit.cost, List.map_cons, List.map_nil,
        List.sum_cons, List.sum_nil, List.length_append, List.length_cons, List.length_nil,
        operationEntries]
      omega

/-- The run lemma. -/
theorem tame_operations {operations : List Operation} (hknown : input.Known state)
    (hplan : input.planOperations operations state = .ok state') :
    ∃ mutations, state'.plan = state.plan ++ mutations ∧
      (∀ edit ∈ edits mutations, edit.Tame Pinned) ∧
      ((edits mutations).map FileTree.Edit.cost).sum ≤ operationEntries * operations.length := by
  induction operations generalizing state with
  | nil =>
      cases hplan
      exact ⟨[], by simp, by simp, by simp⟩
  | cons operation rest ih =>
      obtain ⟨next, hnext, hrest⟩ := foldlM_cons_eq_ok.1 hplan
      have hstep := planOperation_step hnext
      obtain ⟨mutations, hmutations, htame, hcost⟩ := tame_operation hknown hstep
      obtain ⟨more, hmore, htame', hcost'⟩ := ih (hknown.step hstep) hrest
      refine ⟨mutations ++ more, by rw [hmore, hmutations, List.append_assoc], ?_, ?_⟩
      · intro edit hedit
        rw [edits, List.map_append, List.mem_append] at hedit
        exact hedit.elim (htame edit) (htame' edit)
      · rw [edits, List.map_append, List.map_append, List.sum_append, List.length_cons,
          Nat.mul_succ, Nat.add_comm]
        exact Nat.add_le_add hcost' hcost

variable {tree' : ContentTree} {index' : ContentIndex}

theorem Applied.tame (h : input.Applied packagePolicy state tree' index') :
    (∀ edit ∈ edits state.plan, edit.Tame Pinned) ∧
      ((edits state.plan).map FileTree.Edit.cost).sum ≤
        operationEntries * input.request.operations.length := by
  obtain ⟨mutations, hplan, htame, hcost⟩ :=
    tame_operations (Agrees.initial h.valid).known h.planned
  have hsame : state.plan = mutations := hplan
  exact hsame ▸ ⟨htame, hcost⟩

theorem Applied.settled (h : input.Applied packagePolicy state tree' index')
    (hsettled : input.tree.Settled Pinned) : tree'.Settled Pinned :=
  hsettled.runsClear h.tame.1 h.runs

theorem Applied.entryCount_le (h : input.Applied packagePolicy state tree' index') :
    tree'.entryCount ≤
      input.tree.entryCount + operationEntries * input.request.operations.length :=
  (FileTree.entryCount_runsClear_le h.runs).trans (Nat.add_le_add_left h.tame.2 _)

end PlanInput

/-! ### A request on a worktree and on a checkout -/

section

variable {x : Externals} {policy : ContentPolicy} {packagePolicy : PackagePolicy}
  {tree other : ContentTree}

/-- Trees with the same files have the same documents. -/
theorem SameContent.get (h : SameContent tree other) {index index' : ContentIndex}
    (hindex : ContentIndex.build x policy packagePolicy tree = .ok index)
    (hindex' : ContentIndex.build x policy packagePolicy other = .ok index')
    (documentId : DocumentId) : index'.get documentId = index.get documentId := by
  refine Option.ext fun record => ?_
  rw [get_eq_some_iff hindex, get_eq_some_iff hindex', mem_documents_iff hindex,
    mem_documents_iff hindex']
  simp only [h.node_file]

theorem SameContent.build (h : SameContent tree other) {index : ContentIndex}
    (hindex : ContentIndex.build x policy packagePolicy tree = .ok index)
    (hcount : other.entryCount ≤ policy.maximumEntryCount) :
    ContentIndex.build x policy packagePolicy other = .ok (indexOf x policy other) := by
  obtain ⟨-, hvalid, -⟩ := build_eq_ok_iff.1 hindex
  exact build_eq_ok_iff.2 ⟨hcount, h.files ▸ hvalid, rfl⟩

/-- A request that can be applied to one tree can be applied to another that looks
the same and has room, with the same files as a result. -/
theorem SameContent.applyRequest (h : SameContent tree other) {packageRoot : PackageDirectory}
    {package : ValidatedPackage} (hreads : package.Reads x packagePolicy packageRoot)
    (hroom : other.entryCount + PlanInput.operationEntries * package.request.operations.length ≤
      policy.maximumEntryCount)
    {tree' : ContentTree} {outcome : ApplyOutcome}
    (happly : applyRequestWithPolicy x policy packagePolicy tree packageRoot package =
      .ok (tree', outcome)) :
    ∃ other', applyRequestWithPolicy x policy packagePolicy other packageRoot package =
      .ok (other', outcome) ∧ other'.files = tree'.files := by
  unfold applyRequestWithPolicy at happly
  simp only [bind_eq_ok, mapError_eq_ok, Prod.exists, pure_eq_ok, Except.ok.injEq,
    Prod.mk.injEq] at happly
  obtain ⟨index, hindex, plan, hplan, tree'', moves, hexecute, index', hindex', rfl, rfl⟩ := happly
  let input := PlanInput.ofRequest x policy packagePolicy tree packageRoot package index
  have hvalid : input.Valid packagePolicy := ⟨hindex, hreads⟩
  obtain ⟨state, happlied, rfl, rfl⟩ :=
    PlanInput.applied_of_plan hvalid hplan hexecute hindex'
  -- The plan is the same, and it fits the other tree.
  have hother := h.build hindex (by omega)
  let input' := input.on other (indexOf x policy other)
  have hview : input.SameView other (indexOf x policy other) := ⟨h, h.get hindex hother⟩
  have hvalid' : input'.Valid packagePolicy := ⟨hother, hreads⟩
  have hplan' : input'.buildPlan = .ok state.plan := (hview.buildPlan hvalid).trans hplan
  obtain ⟨state', -, -, houtcome⟩ := PlanInput.buildPlan_outcome hvalid' hplan'
  obtain ⟨other', hruns, -⟩ := houtcome.runs fun operation hmem =>
    hview.fits hvalid hmem (happlied.fits operation hmem)
  have hfiles : other'.files = tree''.files := by
    have hperm : other'.files.Perm tree''.files := by
      refine (FileTree.files_perm_of_runsClear hruns).trans ?_
      rw [show input'.tree.files = input.tree.files from h.files]
      exact happlied.files.symm
    refine FileTree.files_eq_of_fileAt fun p => Option.ext fun leaf => ?_
    rw [FileTree.fileAt_eq_some_iff, FileTree.fileAt_eq_some_iff, ← FileTree.mem_files,
      ← FileTree.mem_files, hperm.mem_iff]
  -- The result is indexed as well, since there is room for it.
  have hcount : other'.entryCount ≤ policy.maximumEntryCount := by
    have hadded := FileTree.entryCount_runsClear_le hruns
    have hcost := happlied.tame.2
    exact hadded.trans ((Nat.add_le_add_left hcost _).trans hroom)
  have hindexed : ContentIndex.build x policy packagePolicy other' =
      .ok (indexOf x policy other') := by
    obtain ⟨-, hfilesValid, -⟩ := build_eq_ok_iff.1 hindex'
    exact build_eq_ok_iff.2 ⟨hcount, hfiles ▸ hfilesValid, rfl⟩
  refine ⟨other', ?_, hfiles⟩
  have heq := PlanInput.applyRequest_eq hvalid' rfl
  rw [hplan', ok_bind, show executePlan input'.tree state.plan = _ from
    PlanInput.executePlan_eq_ok hruns, ok_bind, show ContentIndex.build input'.x input'.policy
    packagePolicy other' = _ from hindexed] at heq
  exact heq

end

end AgentKnowledge
