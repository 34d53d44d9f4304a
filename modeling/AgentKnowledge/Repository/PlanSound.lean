import AgentKnowledge.Repository.Plan

/-!
The planner's view agrees with the tree.

`Agrees input state tree` relates what the planner knows after some operations to
the tree that executing their mutations gives: every document is where the
planner thinks it is, and the paths that matter to later checks are occupied in
the tree as they are in the planner's map. Documents do not interfere, because
each operation changes the tree only inside the bundles of one document
(`Effect`), and bundles are disjoint.

There is one exception. A directory move carries along whatever the bundle holds,
and the map of occupied paths is not told. An attachment added to a moved document
is therefore planned without a look at the names it brought with it. The main
results make this exact:

* `conflictFree_iff`: a plan runs without conflict iff no attachment it adds is
  already in the bundle the index gives its document;
* `buildPlan_avoids`: planning itself never fails with an I/O error.
-/

namespace AgentKnowledge

open Results

/-! ### Paths of virtual documents -/

theorem createDocumentPath_eq (project : Option ProjectId) (documentType : DocumentType)
    (created : OffsetDateTime) (documentId : DocumentId) :
    createDocumentPath project documentType created documentId =
      canonicalDocumentPath ⟨documentType, project, false⟩ created documentId := by
  unfold createDocumentPath canonicalDocumentPath bundleName
  by_cases hindex : documentType = .index
  · cases project <;> simp [hindex]
  · by_cases hlog : documentType = .log <;> cases project <;> simp [hindex, hlog]

theorem archiveDocumentPath_eq {document : VirtualDocument} {documentId : DocumentId}
    (hindex : document.documentType ≠ .index)
    (hpath : document.relativePath =
      canonicalDocumentPath document.location document.created documentId) :
    archiveDocumentPath document documentId =
      canonicalDocumentPath ⟨document.documentType, document.project, true⟩ document.created
        documentId := by
  have hbundle : document.relativePath.dropLast.getLast? =
      some (bundleName document.documentType document.created documentId) := by
    rw [hpath, canonicalDocumentPath_eq_bundle hindex, List.dropLast_concat, bundleOf,
      List.getLast?_concat]
    rfl
  unfold archiveDocumentPath canonicalDocumentPath
  rw [hbundle]
  cases hproject : document.project <;> simp [hindex]

/-- The builders and the parser of document paths agree, and no bundle of one document holds
anything of another. -/
theorem document_paths (documentId : DocumentId) (created : OffsetDateTime) :
    (∀ project documentType, createDocumentPath project documentType created documentId =
      canonicalDocumentPath ⟨documentType, project, false⟩ created documentId) ∧
    (∀ document : VirtualDocument, document.documentType ≠ .index →
      document.relativePath =
        canonicalDocumentPath document.location document.created documentId →
      archiveDocumentPath document documentId =
        canonicalDocumentPath ⟨document.documentType, document.project, true⟩ document.created
          documentId) ∧
    (∀ location : DocumentLocation,
      classifyDocumentPath (canonicalDocumentPath location created documentId) = some location ↔
        (location.documentType = .index → location.archived = false)) ∧
    (∀ location : DocumentLocation, location.documentType ≠ .index →
      (∀ location' : DocumentLocation, location'.documentType ≠ .index →
        ∀ created' documentId', documentId ≠ documentId' →
          ¬ documentDirectory location created documentId <+:
              documentDirectory location' created' documentId' ∧
            ¬ documentDirectory location' created' documentId' <+:
              documentDirectory location created documentId) ∧
      ∀ project created' documentId', ¬ documentDirectory location created documentId <+:
        canonicalDocumentPath ⟨.index, project, false⟩ created' documentId') := by
  refine ⟨fun project documentType => createDocumentPath_eq project documentType created documentId,
    fun document hindex hpath => archiveDocumentPath_eq hindex hpath,
    fun location => classifyDocumentPath_canonical location created documentId, ?_⟩
  intro location hindex
  rw [documentDirectory_eq_bundle hindex]
  constructor
  · intro location' hindex' created' documentId' hne
    rw [documentDirectory_eq_bundle hindex']
    exact ⟨fun h => hne (bundleOf_inj (bundleOf_prefix_free h)),
      fun h => hne (bundleOf_inj (bundleOf_prefix_free h)).symm⟩
  · intro project created' documentId' h
    have hdot : ¬ Undotted "index.md" := by decide
    rw [canonicalDocumentPath_eq] at h
    exact not_inBundle_index rfl hdot documentId ⟨location, created, h⟩

/-! ### Agreement -/

namespace PlanInput

/-- The inputs the planner is called with: a tree the index accepts, and a
validated package. -/
structure Valid (input : PlanInput) (packagePolicy : PackagePolicy) : Prop where
  indexed : ContentIndex.build input.x input.policy packagePolicy input.tree = .ok input.index
  reads : input.package.Reads input.x packagePolicy input.packageRoot

/-- The planner's knowledge about a document is true of the file at its path. -/
structure Describes (input : PlanInput) (documentId : DocumentId) (document : VirtualDocument)
    (leaf : ContentLeaf) : Prop where
  kind : leaf.kind = .plain
  revision : input.x.digest leaf.bytes = document.revision
  markdown : document.archived = false → input.loadMarkdown document = .ok leaf.bytes
  metadata : (document.archived = true → input.x.YamlRoundTrips) → ∃ metadata,
    decodeDocumentMetadata input.x leaf.bytes input.policy.maximumFrontMatterBytes =
        .ok metadata ∧ metadata.documentId = documentId ∧
      metadata.created.instant = document.created.instant ∧
      metadata.updated = document.updated ∧ metadata.status = document.status

structure Placed (input : PlanInput) (tree : ContentTree) (documentId : DocumentId)
    (document : VirtualDocument) : Prop where
  path : document.relativePath =
    canonicalDocumentPath document.location document.created documentId
  index : document.documentType = .index → document.archived = false
  file : ∃ leaf, tree.node document.relativePath = some (.file leaf) ∧
    input.Describes documentId document leaf

/-- Without an archive in between nothing has to be read back. -/
theorem Describes.metadata_of_live {input : PlanInput} {documentId : DocumentId}
    {document : VirtualDocument} {leaf : ContentLeaf}
    (h : input.Describes documentId document leaf) (hlive : document.archived = false) :
    ∃ metadata, decodeDocumentMetadata input.x leaf.bytes input.policy.maximumFrontMatterBytes =
        .ok metadata ∧ metadata.documentId = documentId ∧
      metadata.created.instant = document.created.instant ∧
      metadata.updated = document.updated ∧ metadata.status = document.status :=
  h.metadata fun harchived => absurd (hlive.symm.trans harchived) Bool.false_ne_true

/-- The planner knows what is at a path: what was there at the start. -/
def Unchanged (input : PlanInput) (state : PlanState) (tree : ContentTree) (path : RelPath) :
    Prop :=
  tree.node path = input.tree.node path ∧
    state.occupied input.tree path = (input.tree.node path).isSome

/-- Around a document that is not archived the planner knows the archive, and the
names beside the document except for those that came with the bundle. -/
structure Live (input : PlanInput) (state : PlanState) (tree : ContentTree)
    (documentId : DocumentId) (document : VirtualDocument) : Prop where
  archive : ∀ location created path, location.archived = true →
    bundleOf location created documentId <+: path → input.Unchanged state tree path
  beside : ∀ name, ¬ Undotted name → name ≠ "index.md" →
    ((tree.node (document.directory ++ [name])).isSome ↔
      state.occupied input.tree (document.directory ++ [name]) ∨
        ∃ record, input.index.get documentId = some record ∧
          (input.tree.node (record.relativePath.dropLast ++ [name])).isSome)

/-- Documents the planner will not rewrite or move: logs, and whatever is archived
or not active. -/
def Frozen (document : VirtualDocument) : Prop :=
  document.archived = true ∨ document.documentType = .log ∨ document.status ≠ .active

structure Agrees (input : PlanInput) (state : PlanState) (tree : ContentTree) : Prop where
  dotted : ∀ path leaf, tree.node path = some (.file leaf) → ¬ Undotted (fileName path)
  placed : ∀ documentId document, input.document state documentId = some document →
    input.Placed tree documentId document
  untouched : ∀ documentId, state.documents documentId = none →
    ∀ path, InBundle documentId path → input.Unchanged state tree path
  classified : ∀ documentId document, state.documents documentId = some document →
    input.Classified document
  outside : ∀ path, (∀ documentId, ¬ InBundle documentId path) → ¬ Undotted (fileName path) →
    (tree.node path).isSome = state.occupied input.tree path ∧
      ((input.tree.node path).isSome → (tree.node path).isSome)
  live : ∀ documentId document, input.document state documentId = some document →
    document.archived = false → document.documentType ≠ .index →
    input.Live state tree documentId document
  fixed : ∀ documentId document record, input.document state documentId = some document →
    document.documentType = .index → input.index.get documentId = some record →
    document.relativePath = record.relativePath
  kept : ∀ documentId record, input.index.get documentId = some record →
    state.documents documentId = none ∨ Frozen (recordDocument record) →
    input.document state documentId = some (recordDocument record) ∧
      tree.node record.relativePath = input.tree.node record.relativePath

end PlanInput

/-! ### Effects of one operation -/

/-- Away from the changed region an entry stays as it is; only a directory on the
way to the region may be new. -/
def Framed (tree tree' : ContentTree) (path : RelPath) : Prop :=
  tree'.node path = tree.node path ∨
    tree.node path = none ∧ tree'.node path = some .dir ∧ Undotted (fileName path) ∧
      ∀ documentId, ¬ InBundle documentId path

theorem Framed.of_dotted {tree tree' : ContentTree} {path : RelPath} (h : Framed tree tree' path)
    (hdot : ¬ Undotted (fileName path)) : tree'.node path = tree.node path := by
  rcases h with h | ⟨-, -, h, -⟩
  · exact h
  · exact absurd h hdot

theorem Framed.of_inBundle {tree tree' : ContentTree} {path : RelPath} {documentId : DocumentId}
    (h : Framed tree tree' path) (hbundle : InBundle documentId path) :
    tree'.node path = tree.node path := by
  rcases h with h | ⟨-, -, -, h⟩
  · exact h
  · exact absurd hbundle (h documentId)

namespace PlanInput

/-- An operation on one document, seen from the others: it changes the tree and the
occupied paths in a region that touches no other document. -/
structure Effect (input : PlanInput) (state state' : PlanState) (tree tree' : ContentTree)
    (documentId : DocumentId) (document : VirtualDocument) (region : RelPath → Prop) : Prop where
  documents : ∀ d, state'.documents d =
    if d = documentId then some document else state.documents d
  framed : ∀ path, ¬ region path → Framed tree tree' path
  occupied : ∀ path, ¬ region path →
    state'.occupied input.tree path = state.occupied input.tree path
  own : ∀ path d, region path → InBundle d path → d = documentId
  apart : ∀ d other, d ≠ documentId → input.document state d = some other →
    ¬ region other.relativePath
  dotted : ∀ path leaf, region path → tree'.node path = some (.file leaf) →
    ¬ Undotted (fileName path)
  outside : ∀ path, region path → (∀ d, ¬ InBundle d path) → ¬ Undotted (fileName path) →
    (tree'.node path).isSome ∧ state'.occupied input.tree path

theorem not_undotted_index : ¬ Undotted "index.md" := by decide

theorem fileName_canonicalDocumentPath (location : DocumentLocation) (created : OffsetDateTime)
    (documentId : DocumentId) :
    fileName (canonicalDocumentPath location created documentId) = "index.md" := by
  rw [canonicalDocumentPath_eq, fileName_concat]

variable {input : PlanInput} {state state' : PlanState} {tree tree' : ContentTree}
  {documentId : DocumentId} {document : VirtualDocument} {region : RelPath → Prop}

theorem relativePath_eq_of_canonical (hpath : document.relativePath =
      canonicalDocumentPath document.location document.created documentId) :
    document.relativePath = document.directory ++ ["index.md"] := by
  rw [VirtualDocument.directory, hpath, ← documentDirectory, ← canonicalDocumentPath_eq]

theorem directory_eq_of_canonical (hpath : document.relativePath =
      canonicalDocumentPath document.location document.created documentId) :
    document.directory = documentDirectory document.location document.created documentId := by
  rw [VirtualDocument.directory, hpath, documentDirectory]

theorem directory_eq_bundle (hpath : document.relativePath =
      canonicalDocumentPath document.location document.created documentId)
    (hindex : document.documentType ≠ .index) :
    document.directory = bundleOf document.location document.created documentId := by
  rw [directory_eq_of_canonical hpath, documentDirectory_eq_bundle hindex]

theorem inBundle_of_relativePath (hpath : document.relativePath =
      canonicalDocumentPath document.location document.created documentId) {d : DocumentId}
    (h : InBundle d document.relativePath) : d = documentId := by
  rw [hpath, canonicalDocumentPath_eq] at h
  exact inBundle_of_documentDirectory not_undotted_index h

theorem inBundle_directory (hpath : document.relativePath =
      canonicalDocumentPath document.location document.created documentId)
    (hindex : document.documentType ≠ .index) (rest : RelPath) :
    InBundle documentId (document.directory ++ rest) := by
  rw [directory_eq_bundle hpath hindex]
  exact inBundle_bundleOf _ _ _ _

/-- The archive of a document is apart from its live bundle. -/
theorem archive_apart (hpath : document.relativePath =
      canonicalDocumentPath document.location document.created documentId)
    (hindex : document.documentType ≠ .index) (harchived : document.archived = false)
    {location : DocumentLocation} {created : OffsetDateTime} {path : RelPath}
    (harchive : location.archived = true) (h : bundleOf location created documentId <+: path) :
    ¬ document.directory <+: path := by
  intro hown
  rw [directory_eq_bundle hpath hindex] at hown
  have hlocation : document.location.archived = false := harchived
  exact bundleOf_archived_ne harchive hlocation (bundleOf_eq_of_above h hown)

theorem Effect.document_eq (h : input.Effect state state' tree tree' documentId document region)
    {d : DocumentId} (hd : d ≠ documentId) :
    input.document state' d = input.document state d := by
  simp [PlanInput.document, h.documents, hd]

/-- In the bundles of another document nothing changes. -/
theorem Effect.elsewhere (h : input.Effect state state' tree tree' documentId document region)
    {d : DocumentId} (hd : d ≠ documentId) {path : RelPath} (hpath : InBundle d path) :
    tree'.node path = tree.node path ∧
      state'.occupied input.tree path = state.occupied input.tree path := by
  have hregion : ¬ region path := fun hr => hd (h.own path d hr hpath)
  exact ⟨(h.framed path hregion).of_inBundle hpath, h.occupied path hregion⟩

theorem Effect.unchanged (h : input.Effect state state' tree tree' documentId document region)
    {d : DocumentId} (hd : d ≠ documentId) {path : RelPath} (hpath : InBundle d path)
    (hsame : input.Unchanged state tree path) : input.Unchanged state' tree' path := by
  obtain ⟨hnode, hoccupied⟩ := h.elsewhere hd hpath
  exact ⟨hnode.trans hsame.1, hoccupied.trans hsame.2⟩

/-- What an operation must establish about its own document carries over to the
whole agreement. -/
theorem Agrees.step (hagrees : input.Agrees state tree)
    (heffect : input.Effect state state' tree tree' documentId document region)
    (hplaced : input.Placed tree' documentId document) (hclassified : input.Classified document)
    (hlive : document.archived = false → document.documentType ≠ .index →
      input.Live state' tree' documentId document)
    (hfixed : ∀ record, document.documentType = .index →
      input.index.get documentId = some record → document.relativePath = record.relativePath)
    (hkept : ∀ record, input.index.get documentId = some record →
      Frozen (recordDocument record) → document = recordDocument record ∧
        tree'.node record.relativePath = input.tree.node record.relativePath) :
    input.Agrees state' tree' := by
  have hself : input.document state' documentId = some document := by
    simp [PlanInput.document, heffect.documents]
  constructor
  · intro path leaf hfile
    by_cases hr : region path
    · exact heffect.dotted path leaf hr hfile
    · rcases heffect.framed path hr with h | ⟨-, h, -⟩
      · exact hagrees.dotted path leaf (h ▸ hfile)
      · simp [h] at hfile
  · intro d other hother
    by_cases hd : d = documentId
    · subst hd
      rw [hself] at hother
      cases hother
      exact hplaced
    · rw [heffect.document_eq hd] at hother
      obtain ⟨hpath, hindex, leaf, hfile, hdescribes⟩ := hagrees.placed d other hother
      refine ⟨hpath, hindex, leaf, ?_, hdescribes⟩
      rw [(heffect.framed _ (heffect.apart d other hd hother)).of_dotted, hfile]
      rw [hpath, fileName_canonicalDocumentPath]
      exact not_undotted_index
  · intro d hd path hpath
    rw [heffect.documents] at hd
    split at hd
    · cases hd
    · rename_i hne
      exact heffect.unchanged hne hpath (hagrees.untouched d hd path hpath)
  · intro d other hother
    rw [heffect.documents] at hother
    split at hother
    · cases hother
      exact hclassified
    · exact hagrees.classified d other hother
  · intro path hpath hdot
    by_cases hr : region path
    · obtain ⟨hnode, hoccupied⟩ := heffect.outside path hr hpath hdot
      exact ⟨by rw [hnode, hoccupied], fun _ => hnode⟩
    · rw [(heffect.framed path hr).of_dotted hdot, heffect.occupied path hr]
      exact hagrees.outside path hpath hdot
  · intro d other hother harchived hindex
    by_cases hd : d = documentId
    · subst hd
      rw [hself] at hother
      cases hother
      exact hlive harchived hindex
    · rw [heffect.document_eq hd] at hother
      have hother' := hagrees.live d other hother harchived hindex
      constructor
      · intro location created path harchive hpath
        exact heffect.unchanged hd ⟨location, created, hpath⟩
          (hother'.archive location created path harchive hpath)
      · intro name hdot hname
        have hpath := inBundle_directory (hagrees.placed d other hother).path hindex [name]
        obtain ⟨hnode, hoccupied⟩ := heffect.elsewhere hd hpath
        rw [hnode, hoccupied]
        exact hother'.beside name hdot hname
  · intro d other record hother hindex hrecord
    by_cases hd : d = documentId
    · subst hd
      rw [hself] at hother
      cases hother
      exact hfixed record hindex hrecord
    · rw [heffect.document_eq hd] at hother
      exact hagrees.fixed d other record hother hindex hrecord
  · intro d record hrecord hcases
    by_cases hd : d = documentId
    · subst hd
      rcases hcases with h | hfrozen
      · simp [heffect.documents] at h
      · obtain ⟨hsame, hnode⟩ := hkept record hrecord hfrozen
        exact ⟨hself.trans (congrArg some hsame), hnode⟩
    · rw [heffect.documents, if_neg hd] at hcases
      obtain ⟨hfound, hnode⟩ := hagrees.kept d record hrecord hcases
      rw [heffect.document_eq hd]
      refine ⟨hfound, ?_⟩
      have hdot : ¬ Undotted (fileName record.relativePath) := by
        have hpath := (hagrees.placed d _ hfound).path
        rw [show record.relativePath = _ from hpath, fileName_canonicalDocumentPath]
        exact not_undotted_index
      have hframed : Framed tree tree' record.relativePath :=
        heffect.framed _ (heffect.apart d _ hd hfound)
      rw [hframed.of_dotted hdot, hnode]

/-! ### The start -/

theorem document_initial (documentId : DocumentId) :
    input.document {} documentId = (input.index.get documentId).map recordDocument := rfl

theorem occupied_initial (path : RelPath) :
    PlanState.occupied input.tree {} path = (input.tree.node path).isSome := rfl

/-- An index record describes the file it was made from. -/
theorem placed_record {packagePolicy : PackagePolicy} (hvalid : input.Valid packagePolicy)
    {record : DocumentRecord} (hrecord : input.index.get documentId = some record) :
    input.Placed input.tree documentId (recordDocument record) := by
  obtain ⟨hmem, hid⟩ := (get_eq_some_iff hvalid.indexed).1 hrecord
  obtain ⟨leaf, hfile, hmd, hmarkdown⟩ := (mem_documents_iff hvalid.indexed).1 hmem
  obtain ⟨hdecode, hclassify, hpath, -, -, -, hrevision, -⟩ :=
    fromMarkdown_eq_ok_iff.1 hmarkdown
  obtain ⟨hkind, hlimits⟩ := file_of_build hvalid.indexed hfile
  simp only [hmd, if_true] at hlimits
  refine ⟨?_, classifyDocumentPath_index hclassify, leaf, hfile, hkind, hrevision.symm, ?_, ?_⟩
  · rw [← hid]
    exact hpath
  · intro _
    have hlookup : input.tree.lookup record.relativePath = .ok (.file leaf) := by
      simp [FileTree.lookup, hfile]
    simp [loadMarkdown, recordDocument, readCanonicalMarkdown, hlookup, rejectIf, hrevision,
      Nat.not_lt.2 hlimits.1]
  · intro _
    exact ⟨record.metadata, hdecode, hid, rfl, rfl, rfl⟩

theorem Agrees.initial {packagePolicy : PackagePolicy} (hvalid : input.Valid packagePolicy) :
    input.Agrees {} input.tree := by
  have hunchanged : ∀ path, input.Unchanged {} input.tree path := fun path => ⟨rfl, rfl⟩
  constructor
  · intro path leaf hfile
    exact dotted_of_file hvalid.indexed hfile
  · intro d document hdocument
    rw [document_initial, Option.map_eq_some_iff] at hdocument
    obtain ⟨record, hrecord, rfl⟩ := hdocument
    exact placed_record hvalid hrecord
  · intro d _ path _
    exact hunchanged path
  · intro d document hdocument
    cases hdocument
  · intro path _ _
    exact ⟨rfl, id⟩
  · intro d document hdocument _ _
    rw [document_initial, Option.map_eq_some_iff] at hdocument
    obtain ⟨record, hrecord, rfl⟩ := hdocument
    refine ⟨fun _ _ path _ _ => hunchanged path, ?_⟩
    intro name _ _
    rw [occupied_initial]
    constructor
    · exact .inl
    · rintro (h | ⟨found, hfound, h⟩)
      · exact h
      · rw [hrecord] at hfound
        cases hfound
        exact h
  · intro d document record hdocument _ hrecord
    rw [document_initial, hrecord] at hdocument
    cases hdocument
    rfl
  · intro d record hrecord _
    rw [document_initial, hrecord]
    exact ⟨rfl, rfl⟩

/-! ### Directories on the way -/

theorem undotted_fileName {path : RelPath} (hne : path ≠ []) (h : ∀ name ∈ path, Undotted name) :
    Undotted (fileName path) := by
  rw [fileName, List.getLastD_eq_getLast?, List.getLast?_eq_some_getLast hne]
  exact h _ (List.getLast_mem hne)

/-- No file stands above a document. -/
theorem Agrees.above (hagrees : input.Agrees state tree) {location : DocumentLocation}
    {created : OffsetDateTime} {d : DocumentId} {path : RelPath}
    (hpath : path <+: documentDirectory location created d) :
    tree.node path = none ∨ tree.node path = some .dir := by
  cases hnode : tree.node path with
  | none => exact .inl rfl
  | some node =>
      cases node with
      | dir => exact .inr rfl
      | file leaf =>
          have hne : path ≠ [] := by
            rintro rfl
            simp at hnode
          refine absurd (undotted_fileName hne ?_) (hagrees.dotted path leaf hnode)
          intro name hname
          exact undotted_documentDirectory location created d name (hpath.subset hname)

/-- A new directory above a document, other than its bundle, is framed. -/
theorem Agrees.framed_above (hagrees : input.Agrees state tree) {location : DocumentLocation}
    {created : OffsetDateTime} {d : DocumentId} {path : RelPath}
    (hpath : path <+: documentDirectory location created d)
    (hbundle : location.documentType ≠ .index → path ≠ documentDirectory location created d)
    (hnode : tree'.node path = some .dir) : Framed tree tree' path := by
  rcases hagrees.above hpath with hfree | hdir
  · refine .inr ⟨hfree, hnode, ?_, ?_⟩
    · refine undotted_fileName (FileTree.ne_nil_of_node_eq_none hfree) fun name hname => ?_
      exact undotted_documentDirectory location created d name (hpath.subset hname)
    · intro d'
      by_cases hindex : location.documentType = .index
      · rintro ⟨location', created', hpre⟩
        have h3 := length_bundleOf location' created' d'
        have h2 := length_documentDirectory_index hindex created d
        have := hpre.length_le
        have := hpath.length_le
        omega
      · have hne := hbundle hindex
        rw [documentDirectory_eq_bundle hindex] at hpath hne
        exact not_inBundle_above hpath hne
  · exact .inl (hnode.trans hdir.symm)

/-! ### Creating a document -/

/-- The edit of one mutation list. -/
abbrev edits (mutations : List PlannedMutation) : List (FileTree.Edit ContentLeaf) :=
  mutations.map PlannedMutation.edit

theorem documents_eq_none_of_document (h : input.document state documentId = none) :
    state.documents documentId = none ∧ input.index.get documentId = none := by
  unfold PlanInput.document at h
  cases hstate : state.documents documentId with
  | some other => simp [hstate] at h
  | none => simpa [hstate] using h

theorem bundlePath_eq_of_index {path : RelPath} {documentType : DocumentType}
    (h : documentType = .index) : bundlePath path documentType = path := by
  simp [bundlePath, h]

theorem bundlePath_eq_of_ne_index {path : RelPath} {documentType : DocumentType}
    (h : documentType ≠ .index) : bundlePath path documentType = path.dropLast := by
  simp [bundlePath, h]

section Create

variable {bytes : Bytes}
  (hpath : document.relativePath =
    canonicalDocumentPath document.location document.created documentId)

include hpath

/-- The bundle of a new document is free, and so is its place in it. -/
theorem Agrees.create_free (hagrees : input.Agrees state tree)
    (habsent : input.document state documentId = none)
    (hfree : state.occupied input.tree
      (bundlePath document.relativePath document.documentType) = false) :
    tree.node (bundlePath document.relativePath document.documentType) = none ∧
      tree.node document.relativePath = none := by
  by_cases hindex : document.documentType = .index
  · rw [bundlePath_eq_of_index hindex] at hfree ⊢
    have hout := hagrees.outside document.relativePath
      (by rw [hpath, canonicalDocumentPath_eq]
          exact not_inBundle_index hindex not_undotted_index)
      (by rw [hpath, fileName_canonicalDocumentPath]
          exact not_undotted_index)
    rw [hfree] at hout
    simpa using hout.1
  · rw [bundlePath_eq_of_ne_index hindex] at hfree ⊢
    have hbundle : InBundle documentId document.relativePath.dropLast := by
      rw [hpath, ← documentDirectory, documentDirectory_eq_bundle hindex]
      exact ⟨_, _, List.prefix_rfl⟩
    obtain ⟨hnode, hoccupied⟩ := hagrees.untouched documentId
      (documents_eq_none_of_document habsent).1 _ hbundle
    rw [hfree] at hoccupied
    have hnone : tree.node document.relativePath.dropLast = none := by
      rw [hnode]
      simpa using hoccupied.symm
    refine ⟨hnone, ?_⟩
    by_contra hsome
    exact FileTree.not_prefix_of_free hnone (Option.isSome_iff_ne_none.2 hsome)
      (List.dropLast_prefix _)

theorem Agrees.create_clear (hagrees : input.Agrees state tree)
    (hfree : tree.node document.relativePath = none) :
    (PlannedMutation.writeNew document.relativePath bytes).edit.Clear tree := by
  refine ⟨hfree, ?_⟩
  intro q hq hne
  have hdirectory : q <+: documentDirectory document.location document.created documentId := by
    rw [documentDirectory, ← hpath]
    exact (FileTree.prefix_dropLast_iff (FileTree.ne_nil_of_node_eq_none hfree)).2 ⟨hq, hne⟩
  exact hagrees.above hdirectory

theorem Agrees.create_effect (hagrees : input.Agrees state tree)
    (hfree : tree.node (bundlePath document.relativePath document.documentType) = none)
    (habsent : tree.node document.relativePath = none)
    (hprogress : Progress state state' documentId document
      [.writeNew document.relativePath bytes])
    (hoccupied : ∀ q, state'.occupied input.tree q =
      (decide (q = bundlePath document.relativePath document.documentType) ||
        state.occupied input.tree q))
    (hrun : (PlannedMutation.writeNew document.relativePath bytes).edit.run tree = .ok tree') :
    input.Effect state state' tree tree' documentId document fun q =>
      q = document.relativePath ∨ q = bundlePath document.relativePath document.documentType := by
  have hnode := FileTree.node_run_create hrun
  have hroot := FileTree.ne_nil_of_node_eq_none habsent
  have hname : ¬ Undotted (fileName document.relativePath) := by
    rw [hpath, fileName_canonicalDocumentPath]
    exact not_undotted_index
  constructor
  · exact hprogress.documents
  · rintro q hq
    obtain ⟨hne, hbundle⟩ := not_or.1 hq
    by_cases hpre : q <+: document.relativePath
    · have habove := (FileTree.prefix_dropLast_iff hroot).2 ⟨hpre, hne⟩
      rw [← VirtualDocument.directory, directory_eq_of_canonical hpath] at habove
      refine hagrees.framed_above habove ?_ (by rw [hnode, if_neg hne, if_pos hpre])
      intro hindex
      have hindex' : document.documentType ≠ .index := hindex
      rwa [bundlePath_eq_of_ne_index hindex', hpath] at hbundle
    · exact .inl (by rw [hnode, if_neg hne, if_neg hpre])
  · intro q hq
    simp [hoccupied, (not_or.1 hq).2]
  · rintro q d (rfl | rfl) hd
    · exact inBundle_of_relativePath hpath hd
    · by_cases hindex : document.documentType = .index
      · rw [bundlePath_eq_of_index hindex] at hd
        exact inBundle_of_relativePath hpath hd
      · rw [bundlePath_eq_of_ne_index hindex, hpath, ← documentDirectory,
          documentDirectory_eq_bundle hindex] at hd
        exact hd.unique ⟨_, _, List.prefix_rfl⟩
  · intro d other _ hother hregion
    obtain ⟨-, -, leaf, hfile, -⟩ := hagrees.placed d other hother
    rcases hregion with h | h
    · rw [h, habsent] at hfile
      cases hfile
    · rw [h, hfree] at hfile
      cases hfile
  · rintro q leaf (rfl | rfl) hfile
    · exact hname
    · by_cases hindex : document.documentType = .index
      · rwa [bundlePath_eq_of_index hindex]
      · have hpre := List.dropLast_prefix document.relativePath
        have hne : document.relativePath.dropLast ≠ document.relativePath :=
          ((FileTree.prefix_dropLast_iff hroot).1 List.prefix_rfl).2
        rw [bundlePath_eq_of_ne_index hindex, hnode, if_neg hne, if_pos hpre] at hfile
        cases hfile
  · intro q hq hout _
    have hindex : document.documentType = .index := by
      by_contra hindex
      have hself : InBundle documentId document.relativePath.dropLast := by
        rw [hpath, ← documentDirectory, documentDirectory_eq_bundle hindex]
        exact ⟨_, _, List.prefix_rfl⟩
      rcases hq with rfl | rfl
      · obtain ⟨location, created, h⟩ := hself
        exact hout documentId ⟨location, created, h.trans (List.dropLast_prefix _)⟩
      · rw [bundlePath_eq_of_ne_index hindex] at hout
        exact hout documentId hself
    rw [bundlePath_eq_of_index hindex, or_self] at hq
    subst hq
    simp [hnode, hoccupied, bundlePath_eq_of_index hindex]

theorem Agrees.create_live (hagrees : input.Agrees state tree)
    (habsent : input.document state documentId = none)
    (hindex : document.documentType ≠ .index) (harchived : document.archived = false)
    (hfree : tree.node document.directory = none)
    (hoccupied : ∀ q, state'.occupied input.tree q =
      (decide (q = document.directory) || state.occupied input.tree q))
    (hrun : (PlannedMutation.writeNew document.relativePath bytes).edit.run tree = .ok tree') :
    input.Live state' tree' documentId document := by
  have hnode := FileTree.node_run_create hrun
  have hrelative := relativePath_eq_of_canonical hpath
  obtain ⟨hstate, hget⟩ := documents_eq_none_of_document habsent
  -- A path of the tree is only affected on the way to the new document.
  have hsame : ∀ q, q ≠ document.directory → ¬ q <+: document.relativePath →
      input.Unchanged state tree q → input.Unchanged state' tree' q := by
    intro q hq hpre hunchanged
    have hne : q ≠ document.relativePath := fun e => hpre (e ▸ List.prefix_rfl)
    refine ⟨?_, ?_⟩
    · rw [hnode, if_neg hne, if_neg hpre]
      exact hunchanged.1
    · rw [hoccupied, decide_eq_false hq, Bool.false_or]
      exact hunchanged.2
  constructor
  · intro location created q harchive hq
    have hapart : ¬ q <+: document.relativePath := fun hpre =>
      archive_apart hpath hindex harchived harchive (hq.trans hpre) (List.dropLast_prefix _)
    refine hsame q ?_ hapart (hagrees.untouched documentId hstate q ⟨_, _, hq⟩)
    rintro rfl
    exact hapart (List.dropLast_prefix _)
  · intro name _ hname
    have hne : document.directory ++ [name] ≠ document.directory := by simp
    have hpre : ¬ document.directory ++ [name] <+: document.relativePath := by
      rw [hrelative, List.prefix_append_right_inj]
      intro h
      simp [hname] at h
    have hunchanged := hagrees.untouched documentId hstate _
      (inBundle_directory hpath hindex [name])
    have hnone : tree.node (document.directory ++ [name]) = none := by
      by_contra hsome
      exact FileTree.not_prefix_of_free hfree (Option.isSome_iff_ne_none.2 hsome)
        (List.prefix_append _ _)
    obtain ⟨hnode', hoccupied'⟩ := hsame _ hne hpre hunchanged
    rw [hnode', hoccupied', ← hunchanged.1, hnone, hget]
    simp

end Create

/-- Creating a document. -/
theorem Agrees.create (hagrees : input.Agrees state tree) {bytes : Bytes}
    (hpath : document.relativePath =
      canonicalDocumentPath document.location document.created documentId)
    (hclassified : input.Classified document) (harchived : document.archived = false)
    (hdescribes : input.Describes documentId document ⟨bytes, .plain⟩)
    (habsent : input.document state documentId = none)
    (hfree : state.occupied input.tree
      (bundlePath document.relativePath document.documentType) = false)
    (hprogress : Progress state state' documentId document
      [.writeNew document.relativePath bytes])
    (hoccupied : ∀ q, state'.occupied input.tree q =
      (decide (q = bundlePath document.relativePath document.documentType) ||
        state.occupied input.tree q)) :
    (∃ tree', FileTree.RunsClear tree (edits [.writeNew document.relativePath bytes]) tree') ∧
      ∀ tree', FileTree.RunsClear tree (edits [.writeNew document.relativePath bytes]) tree' →
        input.Agrees state' tree' := by
  obtain ⟨hbundle, hplace⟩ := hagrees.create_free hpath habsent hfree
  have hclear : (PlannedMutation.writeNew document.relativePath bytes).edit.Clear tree :=
    hagrees.create_clear hpath hplace
  constructor
  · obtain ⟨tree', hrun⟩ := FileTree.create_eq_ok hclear
    exact ⟨tree', FileTree.runsClear_singleton.2 ⟨hclear, hrun⟩⟩
  · intro tree' hruns
    obtain ⟨-, hrun⟩ := FileTree.runsClear_singleton.1 hruns
    refine hagrees.step (hagrees.create_effect hpath hbundle hplace hprogress hoccupied hrun)
      ⟨hpath, fun _ => harchived, _, ?_, hdescribes⟩ hclassified ?_ ?_ ?_
    · rw [FileTree.node_run_create hrun, if_pos rfl]
    · intro _ hindex
      rw [bundlePath_eq_of_ne_index hindex] at hbundle hoccupied
      exact hagrees.create_live hpath habsent hindex harchived hbundle hoccupied hrun
    · intro record _ hrecord
      rw [(documents_eq_none_of_document habsent).2] at hrecord
      cases hrecord
    · intro record hrecord
      rw [(documents_eq_none_of_document habsent).2] at hrecord
      cases hrecord

/-! ### Writing one file beside or over a document -/

/-- Two documents do not share a path. -/
theorem Agrees.path_inj (hagrees : input.Agrees state tree) {d : DocumentId}
    {other : VirtualDocument} (hdocument : input.document state documentId = some document)
    (hother : input.document state d = some other)
    (h : other.relativePath = document.relativePath) : d = documentId := by
  have hplaced := hagrees.placed documentId document hdocument
  have hplaced' := hagrees.placed d other hother
  by_cases hindex : document.documentType = .index
  · by_cases hindex' : other.documentType = .index
    · -- One file carries one identity.
      obtain ⟨leaf, hfile, hdescribes⟩ := hplaced.file
      obtain ⟨leaf', hfile', hdescribes'⟩ := hplaced'.file
      rw [h, hfile] at hfile'
      cases hfile'
      obtain ⟨metadata, hdecode, hid, -⟩ := hdescribes.metadata_of_live (hplaced.index hindex)
      obtain ⟨metadata', hdecode', hid', -⟩ :=
        hdescribes'.metadata_of_live (hplaced'.index hindex')
      rw [hdecode] at hdecode'
      cases hdecode'
      exact hid'.symm.trans hid
    · refine inBundle_of_relativePath hplaced.path ?_
      rw [← h, relativePath_eq_of_canonical hplaced'.path]
      exact inBundle_directory hplaced'.path hindex' _
  · refine (inBundle_of_relativePath hplaced'.path ?_).symm
    rw [h, relativePath_eq_of_canonical hplaced.path]
    exact inBundle_directory hplaced.path hindex _

/-- An operation on a document that is not frozen says nothing about frozen ones. -/
theorem Agrees.not_kept (hagrees : input.Agrees state tree) {P : DocumentRecord → Prop}
    (hfound : input.document state documentId = some document) (hfrozen : ¬ Frozen document) :
    ∀ record, input.index.get documentId = some record → Frozen (recordDocument record) →
      P record := by
  intro record hrecord h
  have hsame := (hagrees.kept documentId record hrecord (.inr h)).1
  rw [hfound] at hsame
  cases hsame
  exact absurd h hfrozen

section Point

variable {document' : VirtualDocument} {name : String} {leaf : ContentLeaf}

theorem point_effect (hpath : document.relativePath =
      canonicalDocumentPath document.location document.created documentId)
    (hdot : ¬ Undotted name)
    (hdocuments : ∀ d, state'.documents d =
      if d = documentId then some document' else state.documents d)
    (hnode : ∀ q, tree'.node q =
      if q = document.directory ++ [name] then some (.file leaf) else tree.node q)
    (hoccupied : ∀ q, q ≠ document.directory ++ [name] →
      state'.occupied input.tree q = state.occupied input.tree q)
    (hself : (∀ d, ¬ InBundle d (document.directory ++ [name])) →
      state'.occupied input.tree (document.directory ++ [name]))
    (hapart : ∀ d other, d ≠ documentId → input.document state d = some other →
      other.relativePath ≠ document.directory ++ [name]) :
    input.Effect state state' tree tree' documentId document'
      fun q => q = document.directory ++ [name] := by
  constructor
  · exact hdocuments
  · intro q hq
    exact .inl (by rw [hnode, if_neg hq])
  · exact hoccupied
  · rintro q d rfl hd
    rw [directory_eq_of_canonical hpath] at hd
    exact inBundle_of_documentDirectory hdot hd
  · exact hapart
  · rintro q leaf rfl _
    rwa [fileName_concat]
  · rintro q rfl hout _
    exact ⟨by simp [hnode], hself hout⟩

/-- Around the document itself only the written path matters. -/
theorem Live.point (hlive : input.Live state tree documentId document)
    (hpath : document.relativePath =
      canonicalDocumentPath document.location document.created documentId)
    (hindex : document.documentType ≠ .index) (harchived : document.archived = false)
    (hdirectory : document'.directory = document.directory)
    (hnode : ∀ q, tree'.node q =
      if q = document.directory ++ [name] then some (.file leaf) else tree.node q)
    (hoccupied : ∀ q, q ≠ document.directory ++ [name] →
      state'.occupied input.tree q = state.occupied input.tree q)
    (hself : name ≠ "index.md" → state'.occupied input.tree (document.directory ++ [name])) :
    input.Live state' tree' documentId document' := by
  constructor
  · intro location created q harchive hq
    have hne : q ≠ document.directory ++ [name] := by
      rintro rfl
      exact archive_apart hpath hindex harchived harchive hq (List.prefix_append _ _)
    have hunchanged := hlive.archive location created q harchive hq
    exact ⟨by rw [hnode, if_neg hne, hunchanged.1], by rw [hoccupied q hne, hunchanged.2]⟩
  · intro name' hdot' hname'
    rw [hdirectory]
    by_cases hsame : name' = name
    · subst hsame
      simp [hnode, hself hname']
    · have hne : document.directory ++ [name'] ≠ document.directory ++ [name] := by
        simpa using hsame
      rw [hnode, if_neg hne, hoccupied _ hne]
      exact hlive.beside name' hdot' hname'

end Point

/-- Replacing the Markdown of a document. -/
theorem Agrees.update (hagrees : input.Agrees state tree) {document' : VirtualDocument}
    {bytes : Bytes} (hfound : input.document state documentId = some document)
    (harchived : document.archived = false) (hclassified : input.Classified document)
    (hfrozen : ¬ Frozen document)
    (hsame : document'.relativePath = document.relativePath ∧
      document'.location = document.location ∧ document'.created = document.created)
    (hdescribes : input.Describes documentId document' ⟨bytes, .plain⟩)
    (hprogress : Progress state state' documentId document'
      [.replace document.relativePath bytes])
    (hoccupied : ∀ q, state'.occupied input.tree q = state.occupied input.tree q) :
    (∃ tree', FileTree.RunsClear tree (edits [.replace document.relativePath bytes]) tree') ∧
      ∀ tree', FileTree.RunsClear tree (edits [.replace document.relativePath bytes]) tree' →
        input.Agrees state' tree' := by
  obtain ⟨hpath, hindex, old, hfile, hold⟩ := hagrees.placed documentId document hfound
  obtain ⟨hrelative', hlocation', hcreated'⟩ := hsame
  have hdirectory' : document'.directory = document.directory := by
    simp only [VirtualDocument.directory, hrelative']
  have hclear : (PlannedMutation.replace document.relativePath bytes).edit.Clear tree :=
    ⟨old, hfile⟩
  constructor
  · obtain ⟨tree', hrun⟩ := FileTree.rewrite_eq_ok hclear
    exact ⟨tree', FileTree.runsClear_singleton.2 ⟨hclear, hrun⟩⟩
  · intro tree' hruns
    obtain ⟨-, hrun⟩ := FileTree.runsClear_singleton.1 hruns
    have hnode : ∀ q, tree'.node q =
        if q = document.directory ++ ["index.md"] then some (.file ⟨bytes, .plain⟩)
        else tree.node q := by
      intro q
      rw [FileTree.node_run_rewrite hrun, FileTree.fileAt_eq_some_iff.2 hfile,
        relativePath_eq_of_canonical hpath]
      simp [hold.kind]
    have hoccupied' : ∀ q, q ≠ document.directory ++ ["index.md"] →
        state'.occupied input.tree q = state.occupied input.tree q := fun q _ => hoccupied q
    refine hagrees.step (point_effect hpath not_undotted_index hprogress.documents hnode
      hoccupied' ?_ ?_) ⟨?_, ?_, _, ?_, hdescribes⟩ ?_ ?_ ?_
      (hagrees.not_kept hfound hfrozen)
    · intro hout
      have h := (hagrees.outside _ hout (by rw [fileName_concat]; exact not_undotted_index)).1
      rw [hoccupied, ← h, ← relativePath_eq_of_canonical hpath, hfile]
      rfl
    · intro d other hd hother h
      rw [← relativePath_eq_of_canonical hpath] at h
      exact hd (hagrees.path_inj hfound hother h)
    · rw [hrelative', hlocation', hcreated', hpath]
    · intro h
      have h' : document.documentType = .index := by
        rw [← h]
        exact (congrArg DocumentLocation.documentType hlocation').symm
      exact (congrArg DocumentLocation.archived hlocation').trans (hindex h')
    · rw [hnode, hrelative', relativePath_eq_of_canonical hpath, if_pos rfl]
    · exact ⟨(congrArg DocumentLocation.documentType hlocation').trans hclassified.1,
        (congrArg DocumentLocation.project hlocation').trans hclassified.2⟩
    · intro _ hindex'
      have hne : document.documentType ≠ .index := fun h =>
        hindex' ((congrArg DocumentLocation.documentType hlocation').trans h)
      exact (hagrees.live documentId document hfound harchived hne).point hpath hne harchived
        hdirectory' hnode hoccupied' fun h => absurd rfl h
    · intro record h hrecord
      rw [hrelative']
      exact hagrees.fixed documentId document record hfound
        ((congrArg DocumentLocation.documentType hlocation').symm.trans h) hrecord

/-! ### Adding an attachment -/

/-- The document's own bundle, as the index has it, does not hold the name yet. -/
def NameFree (input : PlanInput) (documentId : DocumentId) (name : String) : Prop :=
  ∀ record, input.index.get documentId = some record →
    input.tree.node (record.relativePath.dropLast ++ [name]) = none

theorem Agrees.attach_free_iff (hagrees : input.Agrees state tree) {name : String}
    (hfound : input.document state documentId = some document)
    (harchived : document.archived = false) (hdot : ¬ Undotted name) (hname : name ≠ "index.md")
    (hfree : state.occupied input.tree (document.directory ++ [name]) = false) :
    tree.node (document.directory ++ [name]) = none ↔ input.NameFree documentId name := by
  have hplaced := hagrees.placed documentId document hfound
  by_cases hindex : document.documentType = .index
  · -- An index document stays where it is, and the planner sees all names beside it.
    have hout := hagrees.outside (document.directory ++ [name])
      (by rw [directory_eq_of_canonical hplaced.path]
          exact not_inBundle_index hindex hdot)
      (by rwa [fileName_concat])
    rw [hfree] at hout
    have hnone : tree.node (document.directory ++ [name]) = none := by simpa using hout.1
    refine iff_of_true hnone ?_
    intro record hrecord
    have hdirectory : record.relativePath.dropLast = document.directory := by
      rw [VirtualDocument.directory,
        hagrees.fixed documentId document record hfound hindex hrecord]
    rw [hdirectory]
    by_contra hsome
    have := hout.2 (Option.isSome_iff_ne_none.2 hsome)
    simp [hnone] at this
  · have hbeside := (hagrees.live documentId document hfound harchived hindex).beside name hdot
      hname
    rw [hfree] at hbeside
    rw [← Option.not_isSome_iff_eq_none, hbeside]
    simp [NameFree]

theorem Agrees.directory_exists (hagrees : input.Agrees state tree)
    (hfound : input.document state documentId = some document) :
    tree.node document.directory = some .dir := by
  obtain ⟨hpath, -, leaf, hfile, -⟩ := hagrees.placed documentId document hfound
  rw [relativePath_eq_of_canonical hpath] at hfile
  exact FileTree.node_parent (by rw [hfile]; rfl)

theorem Agrees.attach (hagrees : input.Agrees state tree) {name : String} {bytes : Bytes}
    (hfound : input.document state documentId = some document)
    (harchived : document.archived = false) (hclassified : input.Classified document)
    (hdot : ¬ Undotted name) (hname : name ≠ "index.md")
    (hfree : state.occupied input.tree (document.directory ++ [name]) = false)
    (hprogress : Progress state state' documentId document
      [.writeNew (document.directory ++ [name]) bytes])
    (hoccupied : ∀ q, state'.occupied input.tree q =
      (decide (q = document.directory ++ [name]) || state.occupied input.tree q)) :
    ((∃ tree', FileTree.RunsClear tree (edits [.writeNew (document.directory ++ [name]) bytes])
        tree') ↔ input.NameFree documentId name) ∧
      ∀ tree', FileTree.RunsClear tree (edits [.writeNew (document.directory ++ [name]) bytes])
        tree' → input.Agrees state' tree' := by
  obtain ⟨hpath, hindex, old, hfile, hold⟩ := hagrees.placed documentId document hfound
  have hdirectory := hagrees.directory_exists hfound
  have habove : ∀ q, q <+: document.directory ++ [name] → q ≠ document.directory ++ [name] →
      tree.node q = some .dir := by
    intro q hq hne
    have hq' : q <+: document.directory := by
      rcases List.prefix_concat_iff.1 hq with h | h
      · exact absurd h hne
      · exact h
    by_cases hself : q = document.directory
    · rw [hself, hdirectory]
    · exact FileTree.node_of_isPrefix hq' hself (by simp [hdirectory])
  rw [← hagrees.attach_free_iff hfound harchived hdot hname hfree]
  constructor
  · constructor
    · rintro ⟨tree', hruns⟩
      exact (FileTree.runsClear_singleton.1 hruns).1.1
    · intro hnone
      have hclear : (PlannedMutation.writeNew (document.directory ++ [name]) bytes).edit.Clear
          tree := ⟨hnone, fun q hq hne => .inr (habove q hq hne)⟩
      obtain ⟨tree', hrun⟩ := FileTree.create_eq_ok hclear
      exact ⟨tree', FileTree.runsClear_singleton.2 ⟨hclear, hrun⟩⟩
  · intro tree' hruns
    obtain ⟨hclear, hrun⟩ := FileTree.runsClear_singleton.1 hruns
    have hnode : ∀ q, tree'.node q =
        if q = document.directory ++ [name] then some (.file ⟨bytes, .plain⟩)
        else tree.node q := by
      intro q
      rw [FileTree.node_run_create hrun]
      by_cases hq : q = document.directory ++ [name]
      · simp [hq]
      · by_cases hpre : q <+: document.directory ++ [name]
        · rw [if_neg hq, if_neg hq, if_pos hpre, habove q hpre hq]
        · simp [hq, hpre]
    have hothers : ∀ q, q ≠ document.directory ++ [name] →
        state'.occupied input.tree q = state.occupied input.tree q := by
      intro q hq
      simp [hoccupied, hq]
    have hself : state'.occupied input.tree (document.directory ++ [name]) := by
      simp [hoccupied]
    refine hagrees.step (point_effect hpath hdot hprogress.documents hnode hothers
      (fun _ => hself) ?_) ⟨hpath, hindex, old, ?_, hold⟩ hclassified ?_ ?_ ?_
    · intro d other _ hother h
      obtain ⟨-, -, leaf, hleaf, -⟩ := hagrees.placed d other hother
      rw [h, hclear.1] at hleaf
      cases hleaf
    · have hne : document.relativePath ≠ document.directory ++ [name] := by
        rw [relativePath_eq_of_canonical hpath]
        simpa using hname.symm
      rw [hnode, if_neg hne, hfile]
    · intro _ hne
      exact (hagrees.live documentId document hfound harchived hne).point hpath hne harchived rfl
        hnode hothers fun _ => hself
    · intro record h hrecord
      exact hagrees.fixed documentId document record hfound h hrecord
    · intro record hrecord hfrozen
      obtain ⟨hsame, hkept⟩ := hagrees.kept documentId record hrecord (.inr hfrozen)
      rw [hfound] at hsame
      cases hsame
      refine ⟨rfl, ?_⟩
      have hne : record.relativePath ≠ (recordDocument record).directory ++ [name] := by
        rw [show record.relativePath = _ from relativePath_eq_of_canonical hpath]
        simpa using hname.symm
      rw [hnode, if_neg hne, hkept]

/-! ### Moving a bundle -/

section Relocate

variable {document' : VirtualDocument} {middle : ContentTree} {leaf : ContentLeaf}
  (hpath : document.relativePath =
    canonicalDocumentPath document.location document.created documentId)
  (hindex : document.documentType ≠ .index)
  (hpath' : document'.relativePath =
    canonicalDocumentPath document'.location document'.created documentId)
  (hindex' : document'.documentType ≠ .index)
  (hmiddle : ∀ q, middle.node q =
    if q = document.relativePath then some (.file leaf) else tree.node q)

include hpath hindex hpath' hindex' hmiddle

/-- The bundle can be moved if its new place is free. -/
theorem Agrees.relocate_clear (hagrees : input.Agrees state tree)
    (hne : document.directory ≠ document'.directory) (hfree : tree.node document'.directory = none) :
    (PlannedMutation.move document.directory document'.directory).edit.Clear middle ∧
      ∃ tree', (PlannedMutation.move document.directory document'.directory).edit.run middle =
        .ok tree' := by
  have hrelative := relativePath_eq_of_canonical hpath
  have hleading : ¬ document.directory <+: document'.directory := by
    intro h
    rw [directory_eq_bundle hpath hindex, directory_eq_bundle hpath' hindex'] at h hne
    exact hne (bundleOf_prefix_free h)
  have houtside : ∀ q, q <+: document'.directory → middle.node q = tree.node q := by
    intro q hq
    rw [hmiddle, if_neg]
    rintro rfl
    refine hleading (List.IsPrefix.trans ?_ hq)
    rw [hrelative]
    exact List.prefix_append _ _
  have hclear : (PlannedMutation.move document.directory document'.directory).edit.Clear middle := by
    refine ⟨?_, by rw [houtside _ List.prefix_rfl, hfree]⟩
    have hfile : (middle.node (document.directory ++ ["index.md"])).isSome := by
      rw [← hrelative, hmiddle, if_pos rfl]
      rfl
    rw [FileTree.node_parent hfile]
    rfl
  refine ⟨hclear, FileTree.move_eq_ok hclear hleading ?_⟩
  intro q hq _
  rw [houtside q hq]
  rw [directory_eq_of_canonical hpath'] at hq
  exact hagrees.above hq

theorem Agrees.relocate_effect (hagrees : input.Agrees state tree)
    (hdocuments : ∀ d, state'.documents d =
      if d = documentId then some document' else state.documents d)
    (hoccupied : ∀ q, state'.occupied input.tree q =
      (decide (q ≠ document.directory) &&
        (decide (q = document'.directory) || state.occupied input.tree q)))
    (hclear : (PlannedMutation.move document.directory document'.directory).edit.Clear middle)
    (hrun : (PlannedMutation.move document.directory document'.directory).edit.run middle =
      .ok tree') :
    input.Effect state state' tree tree' documentId document' (InBundle documentId) := by
  have hnode := FileTree.node_run_move hclear hrun
  have hrelative := relativePath_eq_of_canonical hpath
  have hsource : ∀ q, document.directory <+: q → InBundle documentId q := by
    rintro q ⟨rest, rfl⟩
    exact inBundle_directory hpath hindex rest
  have hdestination : ∀ q, document'.directory <+: q → InBundle documentId q := by
    rintro q ⟨rest, rfl⟩
    exact inBundle_directory hpath' hindex' rest
  have hdotted : ∀ q leaf, middle.node q = some (.file leaf) → ¬ Undotted (fileName q) := by
    intro q leaf hq
    rw [hmiddle] at hq
    split at hq
    · rename_i e
      rw [e, hrelative, fileName_concat]
      exact not_undotted_index
    · exact hagrees.dotted q leaf hq
  constructor
  · exact hdocuments
  · intro q hq
    have hs : ¬ document.directory <+: q := fun h => hq (hsource q h)
    have hd : ¬ document'.directory <+: q := fun h => hq (hdestination q h)
    have hr : q ≠ document.relativePath := by
      rintro rfl
      exact hs (by rw [hrelative]; exact List.prefix_append _ _)
    by_cases habove : q <+: document'.directory
    · have hdir : tree'.node q = some .dir := by
        rw [hnode, if_neg hd, if_neg hs, if_pos habove]
      rw [directory_eq_of_canonical hpath'] at habove
      refine hagrees.framed_above habove (fun _ e => hd ?_) hdir
      rw [e, directory_eq_of_canonical hpath']
    · exact .inl (by rw [hnode, if_neg hd, if_neg hs, if_neg habove, hmiddle, if_neg hr])
  · intro q hq
    have hs : q ≠ document.directory := fun e => hq (hsource q (e ▸ List.prefix_rfl))
    have hd : q ≠ document'.directory := fun e => hq (hdestination q (e ▸ List.prefix_rfl))
    simp [hoccupied, hs, hd]
  · intro q d hq hd
    exact hd.unique hq
  · intro d other hd hother h
    exact hd (inBundle_of_relativePath (hagrees.placed d other hother).path h).symm
  · intro q leaf _ hfile
    rw [hnode] at hfile
    split at hfile
    · rename_i hd
      obtain ⟨rest, rfl⟩ := hd
      rw [List.drop_left] at hfile
      have hrest : rest ≠ [] := by
        rintro rfl
        rw [List.append_nil] at hfile
        have hinside : (middle.node (document.directory ++ ["index.md"])).isSome := by
          rw [← hrelative, hmiddle, if_pos rfl]
          rfl
        rw [FileTree.node_parent hinside] at hfile
        cases hfile
      have hname : fileName (document'.directory ++ rest) =
          fileName (document.directory ++ rest) := by
        simp [fileName, List.getLastD_eq_getLast?, List.getLast?_append,
          List.getLast?_eq_some_getLast hrest]
      rw [hname]
      exact hdotted _ _ hfile
    · split at hfile
      · cases hfile
      · split at hfile
        · cases hfile
        · exact hdotted _ _ hfile
  · intro q hq hout _
    exact absurd hq (hout documentId)

end Relocate

/-- A document the request has not touched is as the index has it. -/
theorem document_untouched (hstate : state.documents documentId = none)
    (hfound : input.document state documentId = some document) :
    ∃ record, input.index.get documentId = some record ∧ recordDocument record = document := by
  simpa [PlanInput.document, hstate] using hfound

theorem movedDocument_path {project : Option ProjectId} {documentType : DocumentType}
    (harchived : document.archived = false) :
    (movedDocument document documentId project documentType).relativePath =
      canonicalDocumentPath (movedDocument document documentId project documentType).location
        (movedDocument document documentId project documentType).created documentId := by
  have hlocation : (movedDocument document documentId project documentType).location =
      ⟨documentType, project, false⟩ := by
    simp [VirtualDocument.location, movedDocument, harchived]
  rw [hlocation]
  exact createDocumentPath_eq _ _ _ _

/-- Only a document the request has not touched yet can be moved. -/
theorem Agrees.untouched_of_move (hagrees : input.Agrees state tree)
    (hfound : input.document state documentId = some document)
    (harchived : document.archived = false)
    (hmoves : document.directory ≠ (movedDocument document documentId input.request.project
      input.request.documentType).directory) : state.documents documentId = none := by
  by_contra hstate
  obtain ⟨touched, htouched⟩ := Option.ne_none_iff_exists'.1 hstate
  have heq : touched = document := by simpa [PlanInput.document, htouched] using hfound
  subst heq
  obtain ⟨htype, hproject⟩ := hagrees.classified documentId touched htouched
  refine hmoves ?_
  simp only [VirtualDocument.directory]
  rw [(hagrees.placed documentId touched hfound).path, movedDocument_path harchived]
  simp [VirtualDocument.location, movedDocument, ← htype, ← hproject]

theorem Agrees.move (hagrees : input.Agrees state tree) {document' : VirtualDocument}
    (hdocument' : document' = movedDocument document documentId input.request.project
      input.request.documentType)
    (hfound : input.document state documentId = some document) (hfrozen : ¬ Frozen document)
    (harchived : document.archived = false) (hindex : document.documentType ≠ .index)
    (htoIndex : input.request.documentType ≠ .index)
    (hmoves : document.directory ≠ document'.directory)
    (hfree : state.occupied input.tree document'.directory = false)
    (hprogress : Progress state state' documentId document'
      [.move document.directory document'.directory])
    (hoccupied : ∀ q, state'.occupied input.tree q =
      (decide (q ≠ document.directory) &&
        (decide (q = document'.directory) || state.occupied input.tree q))) :
    (∃ tree', FileTree.RunsClear tree (edits [.move document.directory document'.directory])
        tree') ∧
      ∀ tree', FileTree.RunsClear tree (edits [.move document.directory document'.directory])
        tree' → input.Agrees state' tree' := by
  obtain ⟨hpath, -, leaf, hfile, hdescribes⟩ := hagrees.placed documentId document hfound
  have hpath' : document'.relativePath =
      canonicalDocumentPath document'.location document'.created documentId := by
    rw [hdocument']
    exact movedDocument_path harchived
  have hindex' : document'.documentType ≠ .index := by rw [hdocument']; exact htoIndex
  have hstate := hagrees.untouched_of_move hfound harchived (hdocument' ▸ hmoves)
  have huntouched := hagrees.untouched documentId hstate
  have hnone : input.tree.node document'.directory = none ∧
      tree.node document'.directory = none := by
    have hbundle := inBundle_directory hpath' hindex' []
    rw [List.append_nil] at hbundle
    obtain ⟨hnode, hocc⟩ := huntouched _ hbundle
    rw [hfree] at hocc
    have : input.tree.node document'.directory = none := by simpa using hocc.symm
    exact ⟨this, hnode.trans this⟩
  have hself : ∀ q, tree.node q =
      if q = document.relativePath then some (.file leaf) else tree.node q := by
    intro q
    split
    · rename_i e
      rw [e, hfile]
    · rfl
  obtain ⟨hclear, tree₁, hrun₁⟩ := hagrees.relocate_clear hpath hindex hpath' hindex' hself hmoves
    hnone.2
  refine ⟨⟨tree₁, FileTree.runsClear_singleton.2 ⟨hclear, hrun₁⟩⟩, ?_⟩
  intro tree' hruns
  obtain ⟨-, hrun⟩ := FileTree.runsClear_singleton.1 hruns
  have hnode := FileTree.node_run_move hclear hrun
  have hinside : ∀ rest, tree'.node (document'.directory ++ rest) =
      tree.node (document.directory ++ rest) := by
    intro rest
    rw [hnode, if_pos (List.prefix_append _ _), List.drop_left]
  refine hagrees.step (hagrees.relocate_effect hpath hindex hpath' hindex' hself
    hprogress.documents hoccupied hclear hrun) ⟨hpath', fun h => absurd h hindex', leaf, ?_, ?_⟩
    ?_ ?_ ?_ (hagrees.not_kept hfound hfrozen)
  · rw [relativePath_eq_of_canonical hpath', hinside, ← relativePath_eq_of_canonical hpath, hfile]
  · rw [hdocument']
    exact ⟨hdescribes.kind, hdescribes.revision, hdescribes.markdown, hdescribes.metadata⟩
  · rw [hdocument']
    exact ⟨rfl, rfl⟩
  · intro harchived' _
    obtain ⟨record, hrecord, hdocument⟩ := document_untouched hstate hfound
    constructor
    · intro location created q harchive hq
      have hs := archive_apart hpath hindex harchived harchive hq
      have hd := archive_apart hpath' hindex' harchived' harchive hq
      have habove : ¬ q <+: document'.directory := by
        intro h
        have hbundle : InBundle documentId q := ⟨location, created, hq⟩
        rw [directory_eq_bundle hpath' hindex'] at h hd
        exact not_inBundle_above h (fun e => hd (e ▸ List.prefix_rfl)) hbundle
      obtain ⟨hsame, hocc⟩ := huntouched q ⟨location, created, hq⟩
      refine ⟨by rw [hnode, if_neg hd, if_neg hs, if_neg habove, hsame], ?_⟩
      have hq' : q ≠ document'.directory := fun e => hd (e ▸ List.prefix_rfl)
      have hq'' : q ≠ document.directory := fun e => hs (e ▸ List.prefix_rfl)
      simp [hoccupied, hq', hq'', hocc]
    · intro name _ _
      have hold := huntouched _ (inBundle_directory hpath hindex [name])
      have hnew := huntouched _ (inBundle_directory hpath' hindex' [name])
      have hempty : input.tree.node (document'.directory ++ [name]) = none := by
        by_contra hsome
        exact FileTree.not_prefix_of_free hnone.1 (Option.isSome_iff_ne_none.2 hsome)
          (List.prefix_append _ _)
      have hocc : state'.occupied input.tree (document'.directory ++ [name]) = false := by
        rw [hoccupied, hnew.2, hempty]
        simp
      rw [hinside, hold.1, hocc, hrecord, ← hdocument]
      simp [recordDocument, VirtualDocument.directory]
  · intro record h
    exact absurd h hindex'

theorem Agrees.archive (hagrees : input.Agrees state tree) {document' : VirtualDocument}
    {archived : Bytes} (hdocument' : document' = input.archivedDocument document documentId archived)
    (hfound : input.document state documentId = some document)
    (harchived : document.archived = false) (hclassified : input.Classified document)
    (hfrozen : ¬ Frozen document) (hindex : document.documentType ≠ .index)
    (hdescribes : input.Describes documentId document' ⟨archived, .plain⟩)
    (hmoves : document.directory ≠ document'.directory)
    (hfree : state.occupied input.tree document'.directory = false)
    (hprogress : Progress state state' documentId document'
      [.replace document.relativePath archived, .move document.directory document'.directory])
    (hoccupied : ∀ q, state'.occupied input.tree q =
      (decide (q ≠ document.directory) &&
        (decide (q = document'.directory) || state.occupied input.tree q))) :
    (∃ tree', FileTree.RunsClear tree (edits
        [.replace document.relativePath archived, .move document.directory document'.directory])
        tree') ∧
      ∀ tree', FileTree.RunsClear tree (edits
        [.replace document.relativePath archived, .move document.directory document'.directory])
        tree' → input.Agrees state' tree' := by
  obtain ⟨hpath, -, old, hfile, hold⟩ := hagrees.placed documentId document hfound
  have hpath' : document'.relativePath =
      canonicalDocumentPath document'.location document'.created documentId := by
    rw [hdocument']
    exact archiveDocumentPath_eq hindex hpath
  have hindex' : document'.documentType ≠ .index := by rw [hdocument']; exact hindex
  have hnone : tree.node document'.directory = none := by
    have hlocation : document'.location.archived = true := by rw [hdocument']; rfl
    obtain ⟨hnode, hocc⟩ := (hagrees.live documentId document hfound harchived hindex).archive
      document'.location document'.created document'.directory hlocation
      (by rw [directory_eq_bundle hpath' hindex'])
    rw [hfree] at hocc
    rw [hnode]
    simpa using hocc.symm
  have hreplace : (PlannedMutation.replace document.relativePath archived).edit.Clear tree :=
    ⟨old, hfile⟩
  have hmiddle : ∀ middle,
      (PlannedMutation.replace document.relativePath archived).edit.run tree = .ok middle →
      ∀ q, middle.node q = if q = document.relativePath then some (.file ⟨archived, .plain⟩)
        else tree.node q := by
    intro middle hrun q
    rw [FileTree.node_run_rewrite hrun, FileTree.fileAt_eq_some_iff.2 hfile]
    simp [hold.kind]
  constructor
  · obtain ⟨middle, hrun⟩ := FileTree.rewrite_eq_ok hreplace
    obtain ⟨hclear, tree', hrun'⟩ := hagrees.relocate_clear hpath hindex hpath' hindex'
      (hmiddle middle hrun) hmoves hnone
    exact ⟨tree', hreplace, middle, hrun, FileTree.runsClear_singleton.2 ⟨hclear, hrun'⟩⟩
  · rintro tree' ⟨-, middle, hrun, hruns⟩
    obtain ⟨hclear, hrun'⟩ := FileTree.runsClear_singleton.1 hruns
    refine hagrees.step (hagrees.relocate_effect hpath hindex hpath' hindex' (hmiddle middle hrun)
      hprogress.documents hoccupied hclear hrun')
      ⟨hpath', fun h => absurd h hindex', ⟨archived, .plain⟩, ?_, hdescribes⟩ ?_ ?_ ?_
      (hagrees.not_kept hfound hfrozen)
    · rw [FileTree.node_run_move hclear hrun', relativePath_eq_of_canonical hpath',
        if_pos (List.prefix_append _ _), List.drop_left, ← relativePath_eq_of_canonical hpath,
        hmiddle middle hrun, if_pos rfl]
    · rw [hdocument']
      exact hclassified
    · intro h
      rw [hdocument'] at h
      cases h
    · intro record h
      exact absurd h hindex'

/-- The archived Markdown is described by the archived document. -/
theorem Agrees.describes_archived (hagrees : input.Agrees state tree)
    (hfound : input.document state documentId = some document) (hlive : document.archived = false)
    {markdown archived : Bytes} {plannedBytes : Nat} {metadata : DocumentMetadata}
    (hloaded : input.loadMarkdown document = .ok markdown)
    (hrewritten : input.archivedMarkdown markdown state.plannedBytes =
      .ok (archived, plannedBytes))
    (hdecoded : decodeDocumentMetadata input.x archived input.policy.maximumFrontMatterBytes =
      .ok metadata) :
    input.Describes documentId (input.archivedDocument document documentId archived)
      ⟨archived, .plain⟩ := by
  refine ⟨rfl, rfl, fun h => Bool.noConfusion h, fun hx => ?_⟩
  obtain ⟨-, -, leaf, -, hdescribes⟩ := hagrees.placed documentId document hfound
  have hmarkdown : markdown = leaf.bytes :=
    Except.ok.inj (hloaded.symm.trans (hdescribes.markdown hlive))
  obtain ⟨old, hold, -, rfl⟩ := archivedMarkdown_metadata (hx rfl) hrewritten hdecoded
  obtain ⟨current, hcurrent, hid, hcreated, -, -⟩ := hdescribes.metadata_of_live hlive
  rw [hmarkdown, hcurrent] at hold
  cases hold
  exact ⟨_, hdecoded, hid, hcreated, rfl, rfl⟩

/-! ### One operation, all operations -/

/-- The operation adds no attachment under a name the document's bundle already has,
or under the name of the document itself. -/
def Fits (input : PlanInput) : Operation → Prop
  | .addAttachment documentId _ name =>
      name.value ≠ "index.md" ∧ input.NameFree documentId name.value
  | .createDocument .. | .updateDocument .. | .moveDocument .. | .archiveDocument .. => True

/-- Mutations planned for a tree run clear, and end in agreement, or fail. -/
structure Outcome (input : PlanInput) (state : PlanState) (tree : ContentTree)
    (mutations : List PlannedMutation) (fits : Prop) : Prop where
  runs : fits → ∃ tree', FileTree.RunsClear tree (edits mutations) tree' ∧
    input.Agrees state tree'
  fails : ¬ fits → ∃ error, (edits mutations).foldlM FileTree.Edit.run tree = .error error

theorem Outcome.of_runs {mutations : List PlannedMutation}
    (h : (∃ tree', FileTree.RunsClear tree (edits mutations) tree') ∧
      ∀ tree', FileTree.RunsClear tree (edits mutations) tree' → input.Agrees state tree') :
    input.Outcome state tree mutations True := by
  obtain ⟨⟨tree', hruns⟩, hagrees⟩ := h
  exact ⟨fun _ => ⟨tree', hruns, hagrees tree' hruns⟩, fun hfits => absurd trivial hfits⟩

theorem attachment_dotted {packagePolicy : PackagePolicy} (hvalid : input.Valid packagePolicy)
    {source : PayloadPath} {name : AttachmentName}
    (hmem : .addAttachment documentId source name ∈ input.request.operations) :
    ¬ Undotted name.value := by
  have hallowed := hvalid.reads.attachment_allowed hmem
  unfold PackagePolicy.allowsAttachmentName at hallowed
  split at hallowed
  · rename_i extension hextension
    exact dotted_of_fileExtension hextension
  · cases hallowed

/-- A payload document has the identity its operation names. -/
theorem payload_identity {packagePolicy : PackagePolicy} (hvalid : input.Valid packagePolicy)
    {operation : Operation} (hmem : operation ∈ input.request.operations)
    {content : PayloadPath} {updatedRequired : Bool}
    (hwritten : operation.writtenDocument = some (documentId, content, updatedRequired))
    {bytes : Bytes} (hbytes : input.packageRoot.payloadAt content = some bytes)
    {metadata : DocumentMetadata}
    (hdecode : decodeDocumentMetadata input.x bytes input.policy.maximumFrontMatterBytes =
      .ok metadata) : metadata.documentId = documentId := by
  obtain ⟨parsed, hparsed, hid⟩ := hvalid.reads.written_metadata hmem hwritten hbytes
  rw [decodeDocumentMetadata_unique hdecode hparsed, hid]

theorem not_frozen (live : document.archived = false) (notLog : document.documentType ≠ .log)
    (active : document.status = .active) : ¬ Frozen document := by
  rintro (h | h | h)
  · rw [live] at h
    cases h
  · exact notLog h
  · exact h active

/-- The step lemma: what one accepted operation plans. -/
theorem Agrees.operation {packagePolicy : PackagePolicy} (hvalid : input.Valid packagePolicy)
    (hagrees : input.Agrees state tree) {operation : Operation}
    (hmem : operation ∈ input.request.operations) (hstep : Step input state state' operation) :
    ∃ mutations, state'.plan = state.plan ++ mutations ∧
      input.Outcome state' tree mutations (input.Fits operation) := by
  cases hstep with
  | create absent payload decoded notArchived free progress occupied =>
      rename_i d content bytes metadata
      refine ⟨_, progress.plan, .of_runs ?_⟩
      refine hagrees.create (createDocumentPath_eq _ _ _ _) ⟨rfl, rfl⟩ rfl ?_ absent free progress
        occupied
      exact ⟨rfl, rfl, fun _ => rfl, fun _ => ⟨metadata, decoded,
        payload_identity hvalid hmem rfl payload decoded, rfl, rfl, rfl⟩⟩
  | update found revision live classified notLog active payload decoded created notArchived
      hasUpdate increases progress occupied =>
      rename_i d expected content document bytes metadata updated
      refine ⟨_, progress.plan, .of_runs ?_⟩
      have hsame : (input.updatedDocument document metadata bytes).relativePath =
            document.relativePath ∧
          (input.updatedDocument document metadata bytes).location = document.location ∧
          (input.updatedDocument document metadata bytes).created = document.created :=
        ⟨rfl, rfl, rfl⟩
      refine hagrees.update found live classified (not_frozen live notLog active) hsame ?_ progress
        occupied
      exact ⟨rfl, rfl, fun _ => rfl, fun _ => ⟨metadata, decoded,
        payload_identity hvalid hmem rfl payload decoded, created, rfl, rfl⟩⟩
  | move found revision live notLog notIndex active toLog toIndex moves free progress occupied =>
      exact ⟨_, progress.plan, .of_runs
        (hagrees.move rfl found (not_frozen live notLog active) live notIndex toIndex moves free
          progress occupied)⟩
  | archive found revision live classified notLog notIndex active loaded rewritten decoded moves
      free progress occupied =>
      exact ⟨_, progress.plan, .of_runs
        (hagrees.archive rfl found live classified (not_frozen live notLog active) notIndex
          (hagrees.describes_archived found live loaded rewritten decoded) moves free progress
          occupied)⟩
  | attach found live classified active payload free progress occupied =>
      rename_i d source name document bytes
      have hdot := attachment_dotted hvalid hmem
      refine ⟨_, progress.plan, ?_, ?_⟩
      · rintro ⟨hname, hfits⟩
        obtain ⟨hruns, hafter⟩ := hagrees.attach found live classified hdot hname free progress
          occupied
        obtain ⟨tree', htree'⟩ := hruns.2 hfits
        exact ⟨tree', htree', hafter tree' htree'⟩
      · intro hfits
        cases hrun : (PlannedMutation.writeNew (document.directory ++ [name.value])
            bytes).edit.run tree with
        | error error => exact ⟨error, by simp [edits, hrun]⟩
        | ok tree' =>
            -- A file is only created where nothing stands.
            have hnone := FileTree.node_eq_none_of_create hrun
            refine absurd ?_ hfits
            have hname : name.value ≠ "index.md" := by
              intro hname
              obtain ⟨hpath, -, leaf, hfile, -⟩ := hagrees.placed d document found
              rw [relativePath_eq_of_canonical hpath] at hfile
              rw [hname, hfile] at hnone
              cases hnone
            exact ⟨hname, (hagrees.attach_free_iff found live hdot hname free).1 hnone⟩

/-- The plan only grows. -/
theorem plan_extends {operations : List Operation}
    (h : input.planOperations operations state = .ok state') :
    ∃ mutations, state'.plan = state.plan ++ mutations := by
  refine foldlM_induction (P := fun s => ∃ mutations, s.plan = state.plan ++ mutations) ?_
    ⟨[], by simp⟩ h
  rintro middle operation last ⟨mutations, hmutations⟩ hstep
  obtain ⟨more, hmore⟩ : ∃ more, last.plan = middle.plan ++ more := by
    cases planOperation_step hstep with
    | create _ _ _ _ _ progress => exact ⟨_, progress.plan⟩
    | update _ _ _ _ _ _ _ _ _ _ _ _ progress => exact ⟨_, progress.plan⟩
    | move _ _ _ _ _ _ _ _ _ _ progress => exact ⟨_, progress.plan⟩
    | archive _ _ _ _ _ _ _ _ _ _ _ _ progress => exact ⟨_, progress.plan⟩
    | attach _ _ _ _ _ _ progress => exact ⟨_, progress.plan⟩
  exact ⟨mutations ++ more, by rw [hmore, hmutations, List.append_assoc]⟩

/-- The run lemma: what a list of accepted operations plans. -/
theorem Agrees.operations {packagePolicy : PackagePolicy} (hvalid : input.Valid packagePolicy)
    {operations : List Operation} (hsub : operations ⊆ input.request.operations)
    (hagrees : input.Agrees state tree)
    (hplan : input.planOperations operations state = .ok state') :
    ∃ mutations, state'.plan = state.plan ++ mutations ∧
      input.Outcome state' tree mutations (∀ operation ∈ operations, input.Fits operation) := by
  induction operations generalizing state tree with
  | nil =>
      cases hplan
      refine ⟨[], by simp, fun _ => ⟨tree, rfl, hagrees⟩, fun h => absurd ?_ h⟩
      simp
  | cons operation operations ih =>
      obtain ⟨next, hnext, hrest⟩ := foldlM_cons_eq_ok.1 hplan
      obtain ⟨hmem, hsub'⟩ := List.cons_subset.1 hsub
      obtain ⟨mutations, hmutations, hruns, hfails⟩ :=
        hagrees.operation hvalid hmem (planOperation_step hnext)
      by_cases hfits : input.Fits operation
      · obtain ⟨middle, hmiddle, hagrees'⟩ := hruns hfits
        obtain ⟨more, hmore, hruns', hfails'⟩ := ih hsub' hagrees' hrest
        refine ⟨mutations ++ more, by rw [hmore, hmutations, List.append_assoc], ?_, ?_⟩
        · intro hall
          obtain ⟨tree', htree', hlast⟩ := hruns' fun o ho => hall o (List.mem_cons_of_mem _ ho)
          refine ⟨tree', ?_, hlast⟩
          rw [edits, List.map_append]
          exact FileTree.runsClear_append.2 ⟨middle, hmiddle, htree'⟩
        · intro hall
          obtain ⟨error, herror⟩ := hfails' fun h => hall (List.forall_mem_cons.2 ⟨hfits, h⟩)
          refine ⟨error, ?_⟩
          rw [edits, List.map_append, List.foldlM_append,
            FileTree.foldlM_run_of_runsClear hmiddle]
          exact herror
      · obtain ⟨error, herror⟩ := hfails hfits
        have hplan' : ∃ more, state'.plan = next.plan ++ more :=
          plan_extends hrest
        obtain ⟨more, hmore⟩ := hplan'
        refine ⟨mutations ++ more, by rw [hmore, hmutations, List.append_assoc], ?_, ?_⟩
        · intro hall
          exact absurd (hall operation List.mem_cons_self) hfits
        · intro _
          refine ⟨error, ?_⟩
          rw [edits, List.map_append, List.foldlM_append, herror]
          rfl

end PlanInput

end AgentKnowledge
