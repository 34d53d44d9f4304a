import AgentKnowledge.Repository.Read
import AgentKnowledge.Repository.Stats
import AgentKnowledge.Repository.View

/-!
What accumulates in the bundle of a document.

The planner never counts what already stands beside a document, so the attachments
of one document add up over requests. `Applied.bundledFiles_perm` is the balance of
one request: what stands beside a document afterwards is what stood there before and
what the request attaches to it. Over a sequence of requests from the empty tree
(`bundledFiles_applyAll`) exactly the attachments ever given to the document stand
beside it, so the limits of `CommittedSnapshot.bundle`, which are checked on reading
only, are limits on their number and their sum (`exportable_iff`).
-/

namespace AgentKnowledge

open Results

/-! ### Files beside a document -/

/-- Name and bytes of a file in a directory, unless it is Markdown. -/
def besideFile (directory : RelPath) (file : RelPath × ContentLeaf) : Option (String × Bytes) :=
  if isMarkdown file.1 ∨ file.1.dropLast ≠ directory then none
  else some (fileName file.1, file.2.bytes)

/-- The files beside an indexed document. -/
def bundledFiles (tree : ContentTree) (index : ContentIndex) (documentId : DocumentId) :
    List (String × Bytes) :=
  match index.get documentId with
  | some record => tree.files.filterMap (besideFile record.relativePath.dropLast)
  | none => []

/-- What an operation attaches to a document. -/
def Operation.attaches (payload : PayloadPath → Option Bytes) (documentId : DocumentId) :
    Operation → Option (String × Bytes)
  | .addAttachment d source name =>
      if d = documentId then (payload source).map fun bytes => (name.value, bytes) else none
  | .createDocument .. | .updateDocument .. | .moveDocument .. | .archiveDocument .. => none

/-- What a request attaches to a document, in order. -/
def Submission.attached (submission : Submission) (documentId : DocumentId) :
    List (String × Bytes) :=
  submission.package.request.operations.filterMap
    (Operation.attaches submission.packageRoot.payloadAt documentId)

/-- What a sequence of requests attaches to a document. -/
def attachedBy (submissions : List Submission) (documentId : DocumentId) : List (String × Bytes) :=
  submissions.flatMap fun submission => submission.attached documentId

section Index

variable {x : Externals} {policy : ContentPolicy} {packagePolicy : PackagePolicy}
  {tree : ContentTree} {index : ContentIndex} {documentId : DocumentId} {record : DocumentRecord}

theorem bundledFiles_of_get (hrecord : index.get documentId = some record) :
    bundledFiles tree index documentId =
      tree.files.filterMap (besideFile record.relativePath.dropLast) := by
  rw [bundledFiles, hrecord]

theorem bundledFiles_of_get_none (hnone : index.get documentId = none) :
    bundledFiles tree index documentId = [] := by
  rw [bundledFiles, hnone]

theorem lengths_attachmentsBeside (h : ContentIndex.build x policy packagePolicy tree = .ok index)
    (hrecord : index.get documentId = some record) :
    ((index.attachmentsBeside record).map AttachmentRecord.byteLength).Perm
      ((bundledFiles tree index documentId).map fun file => file.2.length) := by
  obtain ⟨-, -, hindex⟩ := build_eq_ok_iff.1 h
  have hattachments : index.attachments = attachmentsOf (filesAmong tree tree.walk) := by
    rw [hindex]
    rfl
  rw [bundledFiles_of_get hrecord, ContentIndex.attachmentsBeside, hattachments, attachmentsOf]
  -- Both sides look at one file at a time.
  have hpointwise : (((filesAmong tree tree.walk).filterMap attachmentOf).filter fun attachment =>
      attachment.relativePath.dropLast == record.relativePath.dropLast).map
        AttachmentRecord.byteLength =
      ((filesAmong tree tree.walk).filterMap (besideFile record.relativePath.dropLast)).map
        fun file => file.2.length := by
    induction filesAmong tree tree.walk with
    | nil => rfl
    | cons file files ih =>
        by_cases hmd : isMarkdown file.1
        · simpa [attachmentOf, besideFile, hmd] using ih
        · by_cases hdirectory : file.1.dropLast = record.relativePath.dropLast
          · simpa [attachmentOf, besideFile, hmd, hdirectory] using ih
          · simpa [attachmentOf, besideFile, hmd, hdirectory] using ih
  rw [hpointwise]
  exact ((filesAmong_walk_perm tree).filterMap _).map _

/-- An asset of a project stands beside no document. -/
theorem not_beside_asset (h : ContentIndex.build x policy packagePolicy tree = .ok index)
    (hrecord : index.get documentId = some record) {path : RelPath}
    (hasset : isProjectAsset packagePolicy path) :
    path.dropLast ≠ record.relativePath.dropLast := by
  obtain ⟨project, above, name, rfl⟩ := eq_of_isProjectAsset hasset
  obtain ⟨leaf, -, hfrom⟩ := file_of_get h hrecord
  obtain ⟨-, -, hpath, -⟩ := fromMarkdown_eq_ok_iff.1 hfrom
  rw [hpath, canonicalDocumentPath_eq, List.dropLast_concat]
  have hdirectory : ("projects" :: project :: "assets" :: (above ++ [name])).dropLast =
      "projects" :: project :: "assets" :: above := by
    rw [← List.cons_append, ← List.cons_append, ← List.cons_append, List.dropLast_concat]
  rw [hdirectory]
  intro heq
  by_cases hindex : record.location.documentType = .index
  · have hlength := length_documentDirectory_index hindex record.metadata.created
      record.metadata.documentId
    rw [← heq] at hlength
    simp only [List.length_cons] at hlength
    omega
  · rw [documentDirectory_eq_bundle hindex] at heq
    refine not_inBundle_asset project above record.metadata.documentId ?_
    rw [heq, ← List.append_nil (bundleOf _ _ _)]
    exact inBundle_bundleOf _ _ _ []

/-- Two documents in one directory are one. -/
theorem eq_of_directory_eq (h : ContentIndex.build x policy packagePolicy tree = .ok index)
    {documentId' : DocumentId} {record' : DocumentRecord}
    (hrecord : index.get documentId = some record)
    (hrecord' : index.get documentId' = some record')
    (hdirectory : record.relativePath.dropLast = record'.relativePath.dropLast) :
    documentId = documentId' := by
  refine get_inj_path h hrecord hrecord' ?_
  rw [relativePath_of_get h hrecord, hdirectory, ← relativePath_of_get h hrecord']

theorem besideFile_of_markdown (directory : RelPath) (file : RelPath × ContentLeaf)
    (h : isMarkdown file.1) : besideFile directory file = none :=
  if_pos (.inl h)

theorem besideFile_of_plain {directory path : RelPath} {leaf : ContentLeaf}
    (h : ¬ isMarkdown path) :
    besideFile directory (path, leaf) =
      if path.dropLast = directory then some (fileName path, leaf.bytes) else none := by
  by_cases hdirectory : path.dropLast = directory <;> simp [besideFile, h, hdirectory]

end Index

/-! ### The files a request creates, one for each operation that adds one -/

/-- The operation writes a file where none was. -/
def Operation.adds : Operation → Bool
  | .createDocument .. | .addAttachment .. => true
  | .updateDocument .. | .moveDocument .. | .archiveDocument .. => false

namespace PlanInput

variable {input : PlanInput} {packagePolicy : PackagePolicy} {state state' : PlanState}
  {tree tree' : ContentTree} {index' : ContentIndex} {documentId : DocumentId}

/-- A file an operation adds, where the planner's state has it. -/
def AddedBy (input : PlanInput) (state : PlanState) (operation : Operation)
    (file : RelPath × ContentLeaf) : Prop :=
  match operation with
  | .createDocument d _ =>
      ∃ document, input.document state d = some document ∧ file.1 = document.relativePath
  | .addAttachment d source name =>
      ∃ document bytes, input.document state d = some document ∧
        input.packageRoot.payloadAt source = some bytes ∧
        file = (document.directory ++ [name.value], ⟨bytes, .plain⟩)
  | .updateDocument .. | .moveDocument .. | .archiveDocument .. => False

/-- Later operations take the file to where its document goes. -/
theorem AddedBy.later (hvalid : input.Valid packagePolicy) (hknown : input.Known state)
    {operation : Operation} (hmem : operation ∈ input.request.operations)
    (hfits : input.Fits operation) {more : List Operation}
    {es : List (FileTree.Edit ContentLeaf)} (hlater : input.Followed state state' more es)
    {file : RelPath × ContentLeaf} (h : input.AddedBy state operation file) :
    input.AddedBy state' operation (FileTree.replayAll es file) := by
  cases operation with
  | createDocument d content =>
      obtain ⟨document, hdocument, hpath⟩ := h
      obtain ⟨document', hdocument', hkept⟩ := hlater.document d document hdocument
      refine ⟨document', hdocument', ?_⟩
      rw [← hkept.own file.2, ← hpath]
  | addAttachment d source name =>
      obtain ⟨document, bytes, hdocument, hbytes, rfl⟩ := h
      obtain ⟨document', hdocument', hkept⟩ := hlater.document d document hdocument
      exact ⟨document', bytes, hdocument', hbytes, hkept.toCarried.attachment
        (hknown.path d document hdocument) hlater.outside (attachment_dotted hvalid hmem) hfits.1 _⟩
  | updateDocument | moveDocument | archiveDocument => exact h.elim

theorem added_operation {operation : Operation} (hstep : Step input state state' operation) :
    ∃ mutations, state'.plan = state.plan ++ mutations ∧
      List.Forall₂ (fun added file => added = operation ∧ input.AddedBy state' operation file)
        ([operation].filter Operation.adds) (FileTree.createdBy (edits mutations)) := by
  cases hstep with
  | create absent payload decoded notArchived free progress occupied =>
      refine ⟨_, progress.plan, .cons ⟨rfl, _, ?_, rfl⟩ .nil⟩
      rw [document_progress progress, if_pos rfl]
  | attach found live classified active payload free progress occupied =>
      refine ⟨_, progress.plan, .cons ⟨rfl, _, _, ?_, payload, rfl⟩ .nil⟩
      rw [document_progress progress, if_pos rfl]
  | update _ _ _ _ _ _ _ _ _ _ _ _ progress => exact ⟨_, progress.plan, .nil⟩
  | move _ _ _ _ _ _ _ _ _ _ progress => exact ⟨_, progress.plan, .nil⟩
  | archive _ _ _ _ _ _ _ _ _ _ _ _ progress => exact ⟨_, progress.plan, .nil⟩

/-- The run lemma. -/
theorem added_operations (hvalid : input.Valid packagePolicy) {operations : List Operation}
    (hsub : operations ⊆ input.request.operations)
    (hfits : ∀ operation ∈ operations, input.Fits operation) (hagrees : input.Agrees state tree)
    (hplan : input.planOperations operations state = .ok state') :
    ∃ mutations, state'.plan = state.plan ++ mutations ∧
      List.Forall₂ (input.AddedBy state') (operations.filter Operation.adds)
        (FileTree.createdBy (edits mutations)) := by
  induction operations generalizing state tree with
  | nil =>
      cases hplan
      exact ⟨[], by simp, .nil⟩
  | cons operation operations ih =>
      obtain ⟨next, hnext, hrest⟩ := foldlM_cons_eq_ok.1 hplan
      obtain ⟨hmem, hsub'⟩ := List.cons_subset.1 hsub
      obtain ⟨hfit, hfits'⟩ := List.forall_mem_cons.1 hfits
      have hstep := planOperation_step hnext
      obtain ⟨mutations, hmutations, hfirst⟩ := added_operation hstep
      obtain ⟨mutations', hmutations', hruns, -⟩ := hagrees.operation hvalid hmem hstep
      obtain rfl := List.append_cancel_left (hmutations.symm.trans hmutations')
      obtain ⟨middle, -, hagrees'⟩ := hruns hfit
      obtain ⟨more, hmore, hadded⟩ := ih hsub' hfits' hagrees' hrest
      obtain ⟨more', -, hmore', -, -, hlater⟩ :=
        followed_operations hvalid hsub' hfits' hagrees' hrest
      obtain rfl := List.append_cancel_left (hmore.symm.trans hmore')
      refine ⟨mutations ++ more, by rw [hmore, hmutations, List.append_assoc], ?_⟩
      rw [edits, List.map_append, FileTree.createdBy_append, ← List.singleton_append,
        List.filter_append]
      refine List.rel_append ?_ hadded
      rw [List.forall₂_map_right_iff]
      refine List.Forall₂.imp ?_ hfirst
      rintro _ file ⟨rfl, h⟩
      exact h.later hvalid hagrees'.known hmem hfit hlater

/-! ### The balance of a request -/

theorem filterMap_eq_of_forall₂ {α β γ : Type} {R : α → β → Prop} {f : α → Option γ}
    {g : β → Option γ} {as : List α} {bs : List β} (h : List.Forall₂ R as bs)
    (heq : ∀ a ∈ as, ∀ b ∈ bs, R a b → g b = f a) : bs.filterMap g = as.filterMap f := by
  induction h with
  | nil => rfl
  | cons hab _ ih =>
      rw [List.filterMap_cons, List.filterMap_cons,
        heq _ List.mem_cons_self _ List.mem_cons_self hab,
        ih fun a ha b hb => heq a (List.mem_cons_of_mem _ ha) b (List.mem_cons_of_mem _ hb)]

/-- What a request creates beside a document is what its operations attach to it. -/
theorem Applied.created_beside (h : input.Applied packagePolicy state tree' index')
    {record : DocumentRecord} (hrecord : index'.get documentId = some record) :
    (FileTree.createdBy (edits state.plan)).filterMap (besideFile record.relativePath.dropLast) =
      input.request.operations.filterMap
        (Operation.attaches input.packageRoot.payloadAt documentId) := by
  obtain ⟨mutations, hmutations, hadded⟩ :=
    added_operations h.valid (List.Subset.refl _) h.fits (Agrees.initial h.valid) h.planned
  have hsame : mutations = state.plan := by rw [hmutations]; rfl
  subst hsame
  have hadds : input.request.operations.filterMap
        (Operation.attaches input.packageRoot.payloadAt documentId) =
      (input.request.operations.filter Operation.adds).filterMap
        (Operation.attaches input.packageRoot.payloadAt documentId) := by
    rw [List.filterMap_filter]
    refine List.filterMap_congr fun operation _ => ?_
    cases operation <;> rfl
  rw [hadds]
  refine filterMap_eq_of_forall₂ hadded fun operation hoperation file hfile hby => ?_
  cases operation with
  | createDocument d content =>
      obtain ⟨document, hdocument, hpath⟩ := hby
      refine besideFile_of_markdown _ file (isMarkdown_of_fileName ?_)
      rw [hpath, fileName_relativePath (h.agrees.known.path d document hdocument)]
  | addAttachment d source name =>
      obtain ⟨document, bytes, hdocument, hbytes, rfl⟩ := hby
      obtain ⟨other, leaf, hother, hrelative, -⟩ := h.record hdocument
      have hnode : tree'.node (document.directory ++ [name.value]) =
          some (.file ⟨bytes, .plain⟩) := by
        rw [← FileTree.mem_files, h.files.mem_iff]
        exact List.mem_append_right _ hfile
      have hmd : ¬ isMarkdown (document.directory ++ [name.value]) := by
        intro hmd
        obtain ⟨d', record', hrecord', hpath⟩ := get_of_markdown h.indexed hnode hmd
        have hname : fileName record'.relativePath = "index.md" := by
          rw [relativePath_of_get h.indexed hrecord', fileName_concat]
        rw [hpath, fileName_concat] at hname
        exact (h.fits _ (List.mem_of_mem_filter hoperation)).1 hname
      rw [besideFile_of_plain hmd, List.dropLast_concat, fileName_concat]
      have hiff : document.directory = record.relativePath.dropLast ↔ d = documentId := by
        rw [VirtualDocument.directory, ← hrelative]
        refine ⟨fun hdirectory => eq_of_directory_eq h.indexed hother hrecord hdirectory, ?_⟩
        rintro rfl
        rw [Option.some.inj (hother.symm.trans hrecord)]
      simp only [Operation.attaches, hiff, hbytes, Option.map_some]
  | updateDocument | moveDocument | archiveDocument => exact hby.elim

/-- A file beside a document goes where its document goes, and no other file comes there. -/
theorem Applied.beside_iff (h : input.Applied packagePolicy state tree' index')
    {record' : DocumentRecord} (hrecord' : index'.get documentId = some record')
    {path path' : RelPath} {leaf : ContentLeaf} (hfile : input.tree.node path = some (.file leaf))
    (hdestination : Destination input.request.operations input.index index' path path') :
    path'.dropLast = record'.relativePath.dropLast ↔
      ∃ record, input.index.get documentId = some record ∧
        path.dropLast = record.relativePath.dropLast := by
  cases hdestination with
  | bundle old bundled beside new still =>
      rw [List.dropLast_concat]
      constructor
      · intro hdirectory
        cases eq_of_directory_eq h.indexed new hrecord' hdirectory
        exact ⟨_, old, beside⟩
      · rintro ⟨record, hrecord, hdirectory⟩
        cases eq_of_directory_eq h.valid.indexed old hrecord (beside.symm.trans hdirectory)
        rw [Option.some.inj (new.symm.trans hrecord')]
  | elsewhere unbundled =>
      -- What is not in a bundle stands beside an index document, which does not move.
      have hfixed : ∀ d record, input.index.get d = some record →
          path.dropLast = record.relativePath.dropLast →
          ∃ later, index'.get d = some later ∧ later.relativePath = record.relativePath := by
        intro d record hrecord hdirectory
        obtain ⟨document, hdocument, hkept⟩ := h.initial_document hrecord
        obtain ⟨later, -, hlater, hrelative, -⟩ := h.record hdocument
        have hindex : record.location.documentType = .index := by
          by_contra hindex
          exact unbundled d record hrecord hindex hdirectory
        exact ⟨later, hlater, hrelative.trans (hkept.fixed hindex)⟩
      constructor
      · intro hdirectory
        rcases document_beside_or_asset h.valid.indexed hfile with
          ⟨record, hmem, hbeside⟩ | hasset
        · have hrecord := (get_eq_some_iff h.valid.indexed).2 ⟨hmem, rfl⟩
          obtain ⟨later, hlater, hrelative⟩ := hfixed _ record hrecord hbeside.symm
          have hsame : later.relativePath.dropLast = record'.relativePath.dropLast := by
            rw [hrelative, hbeside, hdirectory]
          cases eq_of_directory_eq h.indexed hlater hrecord' hsame
          exact ⟨record, hrecord, hbeside.symm⟩
        · exact absurd hdirectory (not_beside_asset h.indexed hrecord' hasset)
      · rintro ⟨record, hrecord, hdirectory⟩
        obtain ⟨later, hlater, hrelative⟩ := hfixed documentId record hrecord hdirectory
        rw [Option.some.inj (hrecord'.symm.trans hlater), hrelative, hdirectory]

theorem Applied.besideFile_replay (h : input.Applied packagePolicy state tree' index')
    {record' : DocumentRecord} (hrecord' : index'.get documentId = some record')
    {file : RelPath × ContentLeaf} (hfile : file ∈ input.tree.files) :
    besideFile record'.relativePath.dropLast (FileTree.replayAll (edits state.plan) file) =
      (input.index.get documentId).bind fun record =>
        besideFile record.relativePath.dropLast file := by
  obtain ⟨path, leaf⟩ := file
  rw [FileTree.mem_files] at hfile
  by_cases hmd : isMarkdown path
  · obtain ⟨d, record, hrecord, rfl⟩ := get_of_markdown h.valid.indexed hfile hmd
    obtain ⟨document, hdocument, hkept⟩ := h.initial_document hrecord
    have hown : (FileTree.replayAll (edits state.plan) (record.relativePath, leaf)).1 =
        document.relativePath := hkept.own leaf
    rw [besideFile_of_markdown]
    · cases input.index.get documentId with
      | none => rfl
      | some old =>
          exact (besideFile_of_markdown old.relativePath.dropLast (record.relativePath, leaf)
            hmd).symm
    · rw [hown]
      exact isMarkdown_of_fileName
        (fileName_relativePath (h.agrees.known.path d document hdocument))
  · obtain ⟨path', hdestination, hreplay⟩ := h.destination hfile hmd
    have hmd' : ¬ isMarkdown path' := by
      rwa [isMarkdown, hdestination.fileName_eq, ← isMarkdown]
    have hiff := h.beside_iff hrecord' hfile hdestination
    rw [hreplay, besideFile_of_plain hmd', hdestination.fileName_eq]
    cases hold : input.index.get documentId with
    | none => simp [hiff, hold]
    | some record =>
        rw [Option.bind_some, besideFile_of_plain hmd]
        simp [hiff, hold]

/-- The balance of one request. -/
theorem Applied.bundledFiles_perm (h : input.Applied packagePolicy state tree' index')
    (documentId : DocumentId) :
    (bundledFiles tree' index' documentId).Perm
      (bundledFiles input.tree input.index documentId ++
        input.request.operations.filterMap
          (Operation.attaches input.packageRoot.payloadAt documentId)) := by
  cases hrecord' : index'.get documentId with
  | some record' =>
      have hold : (input.tree.files.map (FileTree.replayAll (edits state.plan))).filterMap
          (besideFile record'.relativePath.dropLast) =
          bundledFiles input.tree input.index documentId := by
        rw [List.filterMap_map]
        refine (List.filterMap_congr fun file hfile => h.besideFile_replay hrecord' hfile).trans ?_
        cases hrecord : input.index.get documentId with
        | none =>
            rw [bundledFiles_of_get_none hrecord]
            exact List.filterMap_eq_nil_iff.2 fun _ _ => rfl
        | some record =>
            rw [bundledFiles_of_get hrecord]
            rfl
      rw [bundledFiles_of_get hrecord', ← hold, ← h.created_beside hrecord', ← List.filterMap_append]
      exact h.files.filterMap _
  | none =>
      -- A document that is not there afterwards was not there before and gets nothing.
      have hbefore : input.index.get documentId = none := by
        cases hold : input.index.get documentId with
        | none => rfl
        | some record =>
            obtain ⟨document, hdocument, -⟩ := h.initial_document hold
            obtain ⟨later, -, hlater, -⟩ := h.record hdocument
            cases hrecord'.symm.trans hlater
      have hnothing : input.request.operations.filterMap
          (Operation.attaches input.packageRoot.payloadAt documentId) = [] := by
        rw [List.filterMap_eq_nil_iff]
        intro operation hoperation
        cases operation with
        | addAttachment d source name =>
            refine if_neg ?_
            rintro rfl
            obtain ⟨later, -, hlater, -⟩ := h.attached hoperation
            cases hrecord'.symm.trans hlater
        | _ => rfl
      rw [bundledFiles_of_get_none hrecord', bundledFiles_of_get_none hbefore, hnothing]
      exact .refl _

end PlanInput

/-! ### The balance of a sequence of requests -/

section Sequence

variable {x : Externals} {policy : ContentPolicy} {packagePolicy : PackagePolicy}
  {base final : ContentTree} {index : ContentIndex} {moves : List AppliedMove}
  {submissions : List Submission}

theorem bundledFiles_applyAll
    (hindexed : ContentIndex.build x policy packagePolicy base = .ok index)
    (hreads : ∀ submission ∈ submissions,
      submission.package.Reads x packagePolicy submission.packageRoot)
    (happly : applyAll x policy packagePolicy base submissions = .ok (final, moves)) :
    ∃ index', ContentIndex.build x policy packagePolicy final = .ok index' ∧
      ∀ documentId, (bundledFiles final index' documentId).Perm
        (bundledFiles base index documentId ++ attachedBy submissions documentId) := by
  induction submissions generalizing base index moves with
  | nil =>
      cases happly
      exact ⟨index, hindexed, fun documentId => by simp [attachedBy]⟩
  | cons submission rest ih =>
      unfold applyAll at happly
      simp only [bind_eq_ok, Prod.exists, pure_eq_ok, Except.ok.injEq, Prod.mk.injEq] at happly
      obtain ⟨middle, outcome, hfirst, last, more, hrest, rfl, rfl⟩ := happly
      obtain ⟨hread, hreads'⟩ := List.forall_mem_cons.1 hreads
      obtain ⟨index₀, index₁, state, happlied, -⟩ := PlanInput.applied_of_ok hread hfirst
      have hsame : index = index₀ := Except.ok.inj (hindexed.symm.trans happlied.valid.indexed)
      subst hsame
      obtain ⟨index', hindexed', hbalance⟩ := ih happlied.indexed hreads' hrest
      refine ⟨index', hindexed', fun documentId => (hbalance documentId).trans ?_⟩
      have hsplit : attachedBy (submission :: rest) documentId =
          submission.attached documentId ++ attachedBy rest documentId := List.flatMap_cons
      rw [hsplit, ← List.append_assoc]
      exact (happlied.bundledFiles_perm documentId).append_right _

theorem applyAll_cons {submission : Submission} {middle : ContentTree} {outcome : ApplyOutcome}
    (hfirst : submission.apply x policy packagePolicy base = .ok (middle, outcome))
    (hrest : applyAll x policy packagePolicy middle submissions = .ok (final, moves)) :
    applyAll x policy packagePolicy base (submission :: submissions) =
      .ok (final, outcome.moves ++ moves) := by
  rw [applyAll, hfirst, ok_bind]
  simp only [hrest]
  rfl

theorem build_empty (x : Externals) (policy : ContentPolicy) (packagePolicy : PackagePolicy) :
    ∃ index, ContentIndex.build x policy packagePolicy (.ofFiles []) = .ok index ∧
      ∀ documentId, index.get documentId = none := by
  refine ⟨_, build_eq_ok_iff.2 ⟨Nat.zero_le _, ?_, rfl⟩, fun documentId => rfl⟩
  have hfiles : (FileTree.ofFiles [] : ContentTree).files = [] := rfl
  rw [hfiles]
  exact ⟨by simp, by simp [markdownTotal], by simp [documentsOf], by simp [attachmentsOf]⟩

/-- A repository whose clean checkout of the official commit is a tree. -/
structure CommittedStore.Holds (store : CommittedStore) (tree : ContentTree) : Prop where
  worktree : store.worktree = tree
  clean : store.committed.files = tree.files
  current : store.checkedOut = store.official

theorem CommittedStore.Holds.snapshot {store : CommittedStore} (hstore : store.Holds final)
    (hindexed : ContentIndex.build x policy packagePolicy final = .ok index) :
    ∃ snapshot, store.snapshot x policy packagePolicy = .ok snapshot ∧ snapshot.index = index := by
  refine ⟨⟨store.official, store.committed, index, store.worktree, policy.maximumMarkdownBytes,
    packagePolicy.limits.maximumTotalBytes, packagePolicy.limits.maximumFileCount⟩, ?_, rfl⟩
  rw [snapshot_eq_ok_iff, hstore.worktree]
  exact ⟨hstore.clean.symm, hstore.current, hindexed, rfl, rfl, rfl, rfl, rfl, rfl⟩

/-- What a sequence of requests attaches to a document fits the limits of an export, with the
document itself. -/
def Exportable (packagePolicy : PackagePolicy) (attached : List (String × Bytes))
    (markdownBytes : Nat) : Prop :=
  attached.length + 1 ≤ packagePolicy.limits.maximumFileCount ∧
    (attached ≠ [] → markdownBytes + (attached.map fun file => file.2.length).sum ≤
      packagePolicy.limits.maximumTotalBytes)

/-- The attachments of a document may have come with any number of requests. -/
theorem exportable_of_applied {store : CommittedStore} {snapshot : CommittedSnapshot}
    (hreads : ∀ submission ∈ submissions,
      submission.package.Reads x packagePolicy submission.packageRoot)
    (happly : applyAll x policy packagePolicy (.ofFiles []) submissions = .ok (final, moves))
    (hstore : store.Holds final)
    (hsnapshot : store.snapshot x policy packagePolicy = .ok snapshot)
    {documentId : DocumentId} {record : DocumentRecord}
    (hrecord : snapshot.index.get documentId = some record) :
    (∃ bundle, snapshot.bundle x documentId = .ok bundle) ↔
      Exportable packagePolicy (attachedBy submissions documentId) record.byteLength := by
  obtain ⟨index₀, hempty, hnone⟩ := build_empty x policy packagePolicy
  obtain ⟨index, hindexed, hbalance⟩ := bundledFiles_applyAll hempty hreads happly
  have hsame : snapshot.index = index := by
    obtain ⟨-, -, hbuilt, -⟩ := snapshot_eq_ok_iff.1 hsnapshot
    rw [hstore.worktree] at hbuilt
    exact Except.ok.inj (hbuilt.symm.trans hindexed)
  rw [bundle_eq_ok_iff hsnapshot hrecord, Exportable, hsame]
  rw [hsame] at hrecord
  have hgiven : (bundledFiles final index documentId).Perm (attachedBy submissions documentId) := by
    have h := hbalance documentId
    rwa [bundledFiles_of_get_none (hnone documentId), List.nil_append] at h
  have hlengths := (lengths_attachmentsBeside hindexed hrecord).trans (hgiven.map _)
  have hcount : (index.attachmentsBeside record).length =
      (attachedBy submissions documentId).length := by
    simpa using hlengths.length_eq
  have hnil : index.attachmentsBeside record = [] ↔ attachedBy submissions documentId = [] := by
    rw [← List.length_eq_zero_iff, hcount, List.length_eq_zero_iff]
  rw [hcount, hlengths.sum_nat, ne_eq, hnil]

/-- Every published document is exportable exactly as long as what was ever attached to it
fits one package. -/
theorem published_exportable_iff {store : CommittedStore}
    (hreads : ∀ submission ∈ submissions,
      submission.package.Reads x packagePolicy submission.packageRoot)
    (happly : applyAll x policy packagePolicy (.ofFiles []) submissions = .ok (final, moves))
    (hstore : store.Holds final) :
    ∃ snapshot, store.snapshot x policy packagePolicy = .ok snapshot ∧
      ∀ documentId record, snapshot.index.get documentId = some record →
        ((∃ bundle, snapshot.bundle x documentId = .ok bundle) ↔
          Exportable packagePolicy (attachedBy submissions documentId) record.byteLength) := by
  obtain ⟨index₀, hempty, -⟩ := build_empty x policy packagePolicy
  obtain ⟨index, hindexed, -⟩ := bundledFiles_applyAll hempty hreads happly
  obtain ⟨snapshot, hsnapshot, -⟩ := hstore.snapshot hindexed
  exact ⟨snapshot, hsnapshot, fun documentId record hrecord =>
    exportable_of_applied hreads happly hstore hsnapshot hrecord⟩

end Sequence

/-! ### A request that only attaches -/

section Attach

variable {x : Externals} {policy : ContentPolicy} {packagePolicy : PackagePolicy}
  {tree : ContentTree} {index : ContentIndex} {packageRoot : PackageDirectory}
  {package : ValidatedPackage} {documentId : DocumentId} {source : PayloadPath}
  {name : AttachmentName} {record : DocumentRecord} {bytes : Bytes}

/-- The limits a validated package keeps for the payload of its only operation. -/
theorem attachment_payload (hreads : package.Reads x packagePolicy packageRoot)
    (hoperations : package.request.operations = [.addAttachment documentId source name])
    (hbytes : packageRoot.payloadAt source = some bytes) :
    packageRoot.payload.find? (·.path == source) = some ⟨source, bytes⟩ ∧
      bytes.length < 2 ^ 64 ∧ bytes.length ≤ packagePolicy.limits.maximumTotalBytes := by
  have hmem : .addAttachment documentId source name ∈ package.request.operations := by
    rw [hoperations]
    exact List.mem_singleton_self _
  obtain ⟨file, hfile⟩ := hreads.payload_present hmem rfl
  have hpath : file.path = source := by simpa using List.find?_some hfile
  have hcontent : file.bytes = bytes := by
    simpa [PackageDirectory.payloadAt, hfile] using hbytes
  obtain rfl : file = ⟨source, bytes⟩ := by
    rw [← hpath, ← hcontent]
  obtain ⟨before, after, hreference⟩ := validateReference_of_mem hreads.checks.1 hmem
  simp only [validateReference, Operation.payloadSource, hfile, bind_eq_ok, exists_unit,
    ofOption_some, rejectIf_eq_ok, pure_eq_ok, Except.ok.injEq, exists_eq_left', Nat.not_le,
    Nat.not_lt] at hreference
  obtain ⟨-, hword, hmaximum, -⟩ := hreference
  exact ⟨hfile, by omega, by omega⟩

theorem takePayload_of_reads {input : PlanInput} (hvalid : input.Valid packagePolicy)
    (hmaximum : input.maximumPlannedBytes = packagePolicy.limits.maximumTotalBytes)
    (hoperations : input.request.operations = [.addAttachment documentId source name])
    (hbytes : input.packageRoot.payloadAt source = some bytes) :
    input.takePayload 0 source = .ok (bytes, bytes.length) := by
  obtain ⟨hfile, hword, htotal⟩ := attachment_payload hvalid.reads hoperations hbytes
  have hmetadata : input.payloadMetadata source =
      .ok (PayloadFile.metadata input.x ⟨source, bytes⟩) := by
    have hfound : (input.package.payload.find? (·.path == source)) =
        some (PayloadFile.metadata input.x ⟨source, bytes⟩) := by
      rw [hvalid.reads.checks.2.2.2, List.find?_map]
      exact congrArg (Option.map (PayloadFile.metadata input.x)) hfile
    rw [PlanInput.payloadMetadata, hfound]
    rfl
  have hreserve : PlanInput.reservePlannedBytes 0 bytes.length input.maximumPlannedBytes =
      .ok bytes.length := by
    unfold PlanInput.reservePlannedBytes
    rw [Nat.zero_add, rejectIf_eq_ok (u := ()) |>.2 (Nat.not_le.2 hword), ok_bind, hmaximum,
      rejectIf_eq_ok (u := ()) |>.2 (Nat.not_lt.2 htotal)]
    rfl
  unfold PlanInput.takePayload PlanInput.payloadByteLength PlanInput.readPayload
  simp only [hmetadata, ok_bind, hfile, ofOption_some]
  rw [show (PayloadFile.metadata input.x ⟨source, bytes⟩).byteLength = bytes.length from rfl]
  simp [hreserve, PayloadFile.metadata]

theorem reserve_of_free {path : RelPath} (hfree : tree.node path = none)
    (habove : ∀ q, q <+: path → tree.isFile q = false) :
    ∃ occupancy, VirtualOccupancy.reserve tree (fun _ => none) path = .ok occupancy := by
  have hlookup : tree.lookup path = .error .notFound := by
    rw [FileTree.lookup, hfree, FileTree.fileOnPath_eq_false_iff.2 habove]
    rfl
  exact ⟨_, by simp [VirtualOccupancy.reserve, VirtualOccupancy.isOccupied, hlookup]; rfl⟩

/-- The planner lets an attachment through whose name is free. -/
theorem buildPlan_attach {input : PlanInput} (hvalid : input.Valid packagePolicy)
    (hmaximum : input.maximumPlannedBytes = packagePolicy.limits.maximumTotalBytes)
    (haccepted : input.package.acceptance = none)
    (hoperations : input.request.operations = [.addAttachment documentId source name])
    (hbytes : input.packageRoot.payloadAt source = some bytes)
    (hrecord : input.index.get documentId = some record) (hlive : record.location.archived = false)
    (hclassified : input.Classified (PlanInput.recordDocument record))
    (hactive : record.metadata.status = .active)
    (hfree : input.tree.node (record.relativePath.dropLast ++ [name.value]) = none) :
    input.buildPlan =
      .ok [.writeNew (record.relativePath.dropLast ++ [name.value]) bytes] := by
  have hdocument : input.resolveDocument {} documentId = .ok (PlanInput.recordDocument record) := by
    rw [PlanInput.resolveDocument_eq_ok, PlanInput.document_initial, hrecord]
    rfl
  have hplaced := PlanInput.placed_record hvalid hrecord
  obtain ⟨occupancy, hreserve⟩ := reserve_of_free hfree fun q hq => by
    by_cases heq : q = record.relativePath.dropLast ++ [name.value]
    · simp [FileTree.isFile, heq, hfree]
    · have hdirectory := PlanInput.directory_eq_of_canonical hplaced.path
      rw [VirtualDocument.directory] at hdirectory
      simp only [PlanInput.recordDocument] at hdirectory
      rw [hdirectory] at hq heq
      exact PlanInput.no_file_above_concat hvalid hq heq
  have hnow : ¬ input.operationTime.instant < input.request.createdAt.instant := by
    rw [PlanInput.operationTime, haccepted]
    exact lt_irrefl _
  have hstatus : ¬ (PlanInput.recordDocument record).status ≠ .active := not_not.2 hactive
  have hpayload := takePayload_of_reads hvalid hmaximum hoperations hbytes
  unfold PlanInput.buildPlan PlanInput.planOperations
  rw [hoperations, rejectIf_eq_ok (u := ()) |>.2 hnow, ok_bind, List.foldlM_cons,
    PlanInput.planOperation, PlanInput.planAttachment, hdocument, ok_bind,
    PlanInput.requireAccessible_eq_ok.2 ⟨hlive, hclassified⟩, ok_bind,
    rejectIf_eq_ok (u := ()) |>.2 hstatus, ok_bind]
  simp only [PlanInput.recordDocument, hreserve, ok_bind, hpayload]
  rfl

/-- A further attachment beside a document keeps the files valid. -/
theorem FilesValid.attach {files : List (RelPath × ContentLeaf)}
    (h : FilesValid x policy packagePolicy files) {path : RelPath} (hmd : ¬ isMarkdown path)
    (hfits : bytes.length ≤ packagePolicy.limits.maximumFileBytes)
    (hallowed : packagePolicy.allowsAttachmentName (fileName path))
    (hname : (validateAttachmentName (fileName path)).isOk)
    (hbeside : ∃ record ∈ documentsOf x policy files,
      record.relativePath.dropLast = path.dropLast) :
    FilesValid x policy packagePolicy (files ++ [(path, ⟨bytes, .plain⟩)]) := by
  have hdocuments : documentsOf x policy (files ++ [(path, ⟨bytes, .plain⟩)]) =
      documentsOf x policy files := by
    simp [documentsOf, recordOf, hmd]
  constructor
  · rintro file hfile
    rcases List.mem_append.1 hfile with hold | hnew
    · exact h.each file hold
    · rw [List.mem_singleton.1 hnew]
      simp [fileValid, hmd, hfits, hallowed]
  · have htotal := h.total
    simpa [markdownTotal, markdownLength, hmd] using htotal
  · rw [hdocuments]
    exact h.distinct
  · intro attachment hattachment
    rw [hdocuments]
    rw [attachmentsOf, List.filterMap_append, List.mem_append] at hattachment
    rcases hattachment with hold | hnew
    · exact h.located attachment hold
    · have hself : attachment = ⟨path, bytes.length⟩ := by simpa [attachmentOf, hmd] using hnew
      obtain ⟨record, hmem, hdirectory⟩ := hbeside
      have hany : (documentsOf x policy files).any
          (fun document => document.relativePath.dropLast == path.dropLast) :=
        List.any_eq_true.2 ⟨record, hmem, by simpa using hdirectory⟩
      subst hself
      simp only [validateAttachmentLocation, hname, hany]
      rfl

/-- The tree afterwards. -/
theorem attach_applies (hnoMarkdown : "md" ∉ packagePolicy.allowedAttachmentExtensions)
    (hindexed : ContentIndex.build x policy packagePolicy tree = .ok index)
    (hreads : package.Reads x packagePolicy packageRoot) (haccepted : package.acceptance = none)
    (hoperations : package.request.operations = [.addAttachment documentId source name])
    (hbytes : packageRoot.payloadAt source = some bytes)
    (hfits : bytes.length ≤ packagePolicy.limits.maximumFileBytes)
    (hrecord : index.get documentId = some record) (hlive : record.location.archived = false)
    (htype : record.location.documentType = package.request.documentType)
    (hproject : record.location.project = package.request.project)
    (hactive : record.metadata.status = .active)
    (hfree : tree.node (record.relativePath.dropLast ++ [name.value]) = none)
    (hroom : tree.entryCount + PlanInput.operationEntries ≤ policy.maximumEntryCount) :
    ∃ tree' outcome index',
      applyRequestWithPolicy x policy packagePolicy tree packageRoot package =
        .ok (tree', outcome) ∧
      ContentIndex.build x policy packagePolicy tree' = .ok index' ∧
      index'.get documentId = some record ∧
      tree'.entryCount ≤ tree.entryCount + PlanInput.operationEntries ∧
      ∀ other, other ≠ name.value → tree.node (record.relativePath.dropLast ++ [other]) = none →
        tree'.node (record.relativePath.dropLast ++ [other]) = none := by
  have hvalid : (PlanInput.ofRequest x policy packagePolicy tree packageRoot package index).Valid
      packagePolicy := ⟨hindexed, hreads⟩
  have hplan := buildPlan_attach hvalid rfl haccepted hoperations hbytes hrecord hlive
    ⟨htype, hproject⟩ hactive hfree
  have hattachments : (PlanInput.ofRequest x policy packagePolicy tree packageRoot package
      index).AttachmentsFit := by
    intro d source' name' hmem
    rw [PlanInput.request, PlanInput.ofRequest, hoperations, List.mem_singleton] at hmem
    cases hmem
    intro found hfound
    rw [Option.some.inj (hfound.symm.trans hrecord)]
    exact hfree
  obtain ⟨tree', hruns⟩ := (PlanInput.conflictFree_iff hvalid hnoMarkdown hplan).2 hattachments
  obtain ⟨hclear, hrun⟩ := FileTree.runsClear_singleton.1 hruns
  obtain ⟨hcount, hfiles, hindex⟩ := build_eq_ok_iff.1 hindexed
  have hperm : tree'.files.Perm
      (tree.files ++ [(record.relativePath.dropLast ++ [name.value], ⟨bytes, .plain⟩)]) := by
    have h := FileTree.files_perm_of_runsClear hruns
    have hstay := List.map_id'' (f := FileTree.replayAll [.create
      (record.relativePath.dropLast ++ [name.value]) (⟨bytes, .plain⟩ : ContentLeaf)])
      (fun _ => rfl) tree.files
    exact hstay ▸ h
  have hroom' : tree'.entryCount ≤ tree.entryCount + PlanInput.operationEntries := by
    obtain ⟨state, hstate, hsame⟩ := PlanInput.buildPlan_eq_ok hplan
    obtain ⟨mutations, hmutations, -, hcost⟩ :=
      PlanInput.tame_operations (PlanInput.Agrees.initial hvalid).known hstate
    have hmutation : mutations =
        [.writeNew (record.relativePath.dropLast ++ [name.value]) bytes] := by
      rw [← hsame, hmutations]
      rfl
    have hle := FileTree.entryCount_runsClear_le hruns
    rw [hmutation, PlanInput.request, PlanInput.ofRequest, hoperations, List.length_singleton,
      Nat.mul_one] at hcost
    exact hle.trans (Nat.add_le_add_left hcost _)
  have hmem : .addAttachment documentId source name ∈ package.request.operations := by
    rw [hoperations]
    exact List.mem_singleton_self _
  have hallowed := hreads.attachment_allowed hmem
  have hmd : ¬ isMarkdown (record.relativePath.dropLast ++ [name.value]) := by
    intro hmd
    rw [isMarkdown, fileName_concat, beq_iff_eq] at hmd
    exact hnoMarkdown (by simpa [PackagePolicy.allowsAttachmentName, hmd] using hallowed)
  have hvalid' : FilesValid x policy packagePolicy tree'.files := by
    refine FilesValid.perm hperm.symm (hfiles.attach hmd hfits ?_ ?_ ⟨record, ?_, ?_⟩)
    · rwa [fileName_concat]
    · rw [fileName_concat, name.valid]
      rfl
    · refine ((filesAmong_walk_perm tree).filterMap _).mem_iff.1 ?_
      obtain ⟨hdocument, -⟩ := (get_eq_some_iff hindexed).1 hrecord
      rwa [hindex] at hdocument
    · rw [List.dropLast_concat]
  have hindexed' : ContentIndex.build x policy packagePolicy tree' = .ok (indexOf x policy tree') :=
    build_eq_ok_iff.2 ⟨hroom'.trans hroom, hvalid', rfl⟩
  have happly : applyRequestWithPolicy x policy packagePolicy tree packageRoot package =
      .ok (tree', ⟨[]⟩) := by
    refine (PlanInput.applyRequest_eq hvalid rfl).trans ?_
    rw [hplan, ok_bind, PlanInput.executePlan_eq_ok hruns, ok_bind]
    simp only [PlanInput.ofRequest, hindexed']
    rfl
  obtain ⟨index₀, index₁, state, happlied, -⟩ := PlanInput.applied_of_ok hreads happly
  have hsame : index₀ = index := Except.ok.inj (happlied.valid.indexed.symm.trans hindexed)
  have hsame' : index₁ = indexOf x policy tree' :=
    Except.ok.inj (happlied.indexed.symm.trans hindexed')
  subst hsame hsame'
  refine ⟨tree', _, _, happly, hindexed', (happlied.unchanged hrecord ?_).1, hroom', ?_⟩
  · intro operation hoperation
    rw [PlanInput.request, PlanInput.ofRequest, hoperations, List.mem_singleton] at hoperation
    rw [hoperation]
    exact id
  · intro other hother hnone
    rw [FileTree.node_run_create hrun, if_neg, if_neg]
    · exact hnone
    · intro hpre
      have heq := hpre.eq_of_length (by simp)
      simp at heq
      exact hother heq
    · simpa using hother

end Attach

/-! ### A document that outgrows its export -/

namespace Sample

def content : PayloadPath := ⟨"d.md", by decide +kernel⟩

/-- The request that creates the decision. -/
def creation : ChangeRequest :=
  { request none [.createDocument document content] with
    requestId := metadata.requestId }

/-- A request that attaches one picture under a name. -/
def attachment (name : AttachmentName) : ChangeRequest :=
  request none [.addAttachment document picture name]

def secondName : AttachmentName := ⟨"b.png", by rfl⟩

def exportExternals : Externals :=
  .ofTables [([97, lineFeed], metadata)]
    [([1], creation), ([2], attachment pictureName), ([3], attachment secondName)]

/-- The package of a request with one payload file. -/
def exportDirectory (json : Bytes) (file : PayloadFile) : PackageDirectory where
  requestJson := json
  payload := [file]
  storedDigest := ⟨revision⟩
  acceptance := ⟨1, day 2, none, AcceptanceMetadata.first_valid⟩
  paths_nodup := by simp

def exportPackage (request : ChangeRequest) (json : Bytes) (file : PayloadFile) :
    ValidatedPackage where
  request := request
  digest := calculateDigest exportExternals json [file]
  payload := [file.metadata exportExternals]
  acceptance := none

def exportSubmission (request : ChangeRequest) (json : Bytes) (file : PayloadFile) : Submission :=
  ⟨exportDirectory json file, exportPackage request json file⟩

def created : Submission := exportSubmission creation [1] ⟨content, markdown 97⟩

/-- The largest file a package may carry. -/
def scan : Bytes := List.replicate (32 * 1024 * 1024) 0

def attached (json : Bytes) (name : AttachmentName) : Submission :=
  exportSubmission (attachment name) json ⟨picture, scan⟩

theorem created_reads :
    created.package.Reads exportExternals PackagePolicy.default created.packageRoot := by
  unfold ValidatedPackage.Reads
  decide +kernel

theorem created_applies :
    ∃ outcome, created.apply exportExternals {} PackagePolicy.default (.ofFiles []) =
      .ok (tree [], outcome) := by
  obtain ⟨⟨tree', outcome⟩, happly, rfl⟩ : ∃ result,
      created.apply exportExternals {} PackagePolicy.default (.ofFiles []) = .ok result ∧
        result.1 = tree [] := exists_ok_of_any (by decide +kernel)
  exact ⟨outcome, happly⟩

/-- A document without attachments is exported. -/
theorem created_exportable :
    ∃ snapshot, (⟨"c", "c", tree [], tree []⟩ : CommittedStore).snapshot exportExternals {}
        PackagePolicy.default = .ok snapshot ∧
      ∀ record, snapshot.index.get document = some record →
        ∃ bundle, snapshot.bundle exportExternals document = .ok bundle := by
  obtain ⟨outcome, hcreated⟩ := created_applies
  obtain ⟨snapshot, hsnapshot, hexportable⟩ := published_exportable_iff
    (List.forall_mem_singleton.2 created_reads) (applyAll_cons hcreated rfl)
    (show (⟨"c", "c", tree [], tree []⟩ : CommittedStore).Holds (tree []) from ⟨rfl, rfl, rfl⟩)
  refine ⟨snapshot, hsnapshot, fun record hrecord => (hexportable document record hrecord).2 ?_⟩
  have hnone : attachedBy [created] document = [] := rfl
  rw [hnone]
  exact ⟨by decide, fun h => absurd rfl h⟩

/-- No byte of a large payload is looked at: only its length matters to a package that writes
no document. -/
theorem attachment_reads {json : Bytes} {name : AttachmentName} {bytes : Bytes}
    (hjson : json.length = 1) (hdecoded : exportExternals.decodeRequest json = some (attachment name))
    (hencoded : exportExternals.encodeRequest (attachment name) = some json)
    (hvalid : (attachment name).validate {} = .ok ())
    (hallowed : PackagePolicy.default.allowsAttachmentName name.value)
    (hbytes : bytes.length = 32 * 1024 * 1024) :
    (exportPackage (attachment name) json ⟨picture, bytes⟩).Reads exportExternals
      PackagePolicy.default (exportDirectory json ⟨picture, bytes⟩) := by
  have hcomponents : (splitSlash picture.value).length = 1 := by decide
  have hlimits : PackagePolicy.default.limits = {} := rfl
  have hscan : [(⟨picture, bytes⟩ : PayloadFile)].foldlM
      (scanPayloadFile PackagePolicy.default.limits) (json.length, 1) =
        .ok (json.length + bytes.length, 2) := by
    simp [scanPayloadFile, hcomponents, hbytes, hjson, enforceTotals, hlimits]
  have hreferences : validatePayloadReferences PackagePolicy.default (attachment name)
      [⟨picture, bytes⟩] = .ok () := by
    simp [validatePayloadReferences, attachment, request, validateReference,
      validateReferenceName, Operation.payloadSource, hallowed, hbytes, hlimits]
  have hdocuments : validateDocuments exportExternals PackagePolicy.default.limits
      (attachment name) [⟨picture, bytes⟩] = .ok () := rfl
  unfold ValidatedPackage.Reads validatePackageContents
  simp only [exportDirectory, hdecoded, ofOption_some, ok_bind, hscan, hreferences, hdocuments,
    hencoded]
  simp [hjson, enforceTotals, hlimits, hvalid, exportPackage, Except.mapError]

/-- What the planner asks of the tree and the document before two attachments. -/
theorem tree_record :
    ContentIndex.build exportExternals {} PackagePolicy.default (tree []) =
      .ok (indexOf exportExternals {} (tree [])) ∧
    (tree []).entryCount + PlanInput.operationEntries + PlanInput.operationEntries ≤
      ({} : ContentPolicy).maximumEntryCount ∧
    ∃ record, (indexOf exportExternals {} (tree [])).get document = some record ∧
      record.location = ⟨.decision, none, false⟩ ∧ record.metadata.status = .active ∧
      0 < record.byteLength ∧
      (tree []).node (record.relativePath.dropLast ++ [pictureName.value]) = none ∧
      (tree []).node (record.relativePath.dropLast ++ [secondName.value]) = none := by
  have h : ((indexOf exportExternals {} (tree [])).get document).any fun record =>
      decide (record.location = ⟨.decision, none, false⟩ ∧ record.metadata.status = .active ∧
        0 < record.byteLength ∧
        (tree []).node (record.relativePath.dropLast ++ [pictureName.value]) = none ∧
        (tree []).node (record.relativePath.dropLast ++ [secondName.value]) = none) := by
    decide +kernel
  refine ⟨by decide +kernel, by decide +kernel, ?_⟩
  simpa only [Option.any_eq_true, decide_eq_true_eq] using h

theorem attached_reads :
    (attached [2] pictureName).package.Reads exportExternals PackagePolicy.default
        (attached [2] pictureName).packageRoot ∧
      (attached [3] secondName).package.Reads exportExternals PackagePolicy.default
        (attached [3] secondName).packageRoot := by
  have hscan : scan.length = 32 * 1024 * 1024 := List.length_replicate
  exact ⟨attachment_reads rfl (by decide +kernel) (by decide +kernel) (by decide +kernel)
      (by decide +kernel) hscan,
    attachment_reads rfl (by decide +kernel) (by decide +kernel) (by decide +kernel)
      (by decide +kernel) hscan⟩

/-- Two attachments, each in a request of its own, and the document can no longer be exported. -/
theorem outgrown_export :
    ∃ submissions final moves,
      (∀ submission ∈ submissions, submission.package.Reads exportExternals PackagePolicy.default
        submission.packageRoot) ∧
      applyAll exportExternals {} PackagePolicy.default (.ofFiles []) submissions =
        .ok (final, moves) ∧
      ∃ snapshot record,
        (⟨"c", "c", final, final⟩ : CommittedStore).snapshot exportExternals {}
          PackagePolicy.default = .ok snapshot ∧
        snapshot.index.get document = some record ∧
        ∀ bundle, snapshot.bundle exportExternals document ≠ .ok bundle := by
  have hpolicy : "md" ∉ PackagePolicy.default.allowedAttachmentExtensions := by decide
  have hscan : scan.length = 32 * 1024 * 1024 := List.length_replicate
  obtain ⟨hfirstReads, hsecondReads⟩ := attached_reads
  obtain ⟨outcome, hcreated⟩ := created_applies
  obtain ⟨hindexed, hroom, record, hrecord, hlocation, hactive, hmarkdown, hfree, hfree'⟩ :=
    tree_record
  have hpayload : ∀ json name, (attached json name).packageRoot.payloadAt picture = some scan :=
    fun _ _ => rfl
  obtain ⟨first, firstOutcome, firstIndex, hfirst, hfirstIndexed, hfirstRecord, hfirstRoom,
      hfirstFree⟩ :=
    attach_applies hpolicy hindexed hfirstReads rfl rfl (hpayload _ _) hscan.le hrecord
      (by rw [hlocation]) (by rw [hlocation]; rfl) (by rw [hlocation]; rfl) hactive hfree (by omega)
  obtain ⟨second, secondOutcome, secondIndex, hsecond, hsecondIndexed, hsecondRecord, -, -⟩ :=
    attach_applies hpolicy hfirstIndexed hsecondReads rfl rfl (hpayload _ _) hscan.le hfirstRecord
      (by rw [hlocation]) (by rw [hlocation]; rfl) (by rw [hlocation]; rfl) hactive
      (hfirstFree _ (by decide) hfree') (by omega)
  have hreads : ∀ submission ∈ [created, attached [2] pictureName, attached [3] secondName],
      submission.package.Reads exportExternals PackagePolicy.default submission.packageRoot := by
    simp only [List.forall_mem_cons, List.not_mem_nil, false_implies, implies_true, and_true]
    exact ⟨created_reads, hfirstReads, hsecondReads⟩
  have happly : applyAll exportExternals {} PackagePolicy.default (.ofFiles [])
      [created, attached [2] pictureName, attached [3] secondName] = .ok (second,
        outcome.moves ++ (firstOutcome.moves ++ (secondOutcome.moves ++ []))) :=
    applyAll_cons hcreated (applyAll_cons hfirst (applyAll_cons hsecond rfl))
  have hholds : (⟨"c", "c", second, second⟩ : CommittedStore).Holds second := ⟨rfl, rfl, rfl⟩
  obtain ⟨snapshot, hsnapshot, rfl⟩ := hholds.snapshot hsecondIndexed
  refine ⟨_, _, _, hreads, happly, snapshot, record, hsnapshot, hsecondRecord, ?_⟩
  intro bundle hbundle
  obtain ⟨-, hbytes⟩ :=
    (exportable_of_applied hreads happly hholds hsnapshot hsecondRecord).1 ⟨bundle, hbundle⟩
  have hattached : attachedBy [created, attached [2] pictureName, attached [3] secondName]
      document = [(pictureName.value, scan), (secondName.value, scan)] := rfl
  rw [hattached] at hbytes
  have htotal := hbytes (List.cons_ne_nil _ _)
  simp only [List.map_cons, List.map_nil, List.sum_cons, List.sum_nil, hscan] at htotal
  have hlimit : PackagePolicy.default.limits.maximumTotalBytes = 64 * 1024 * 1024 := rfl
  omega

end Sample

end AgentKnowledge
