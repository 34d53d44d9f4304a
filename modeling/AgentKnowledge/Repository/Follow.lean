import AgentKnowledge.Repository.Conflict

/-!
Following files through a plan.

The planner's mutations move files only with the bundle of a document. So where a
file ends up can be told from the planner's last state: a document's Markdown is
at the document's path, and whatever else stood in its bundle is beside it under
the same name (`Carried`). Nothing outside the bundles moves. These facts need no
tree: they are about the mutations and the paths the planner gives them
(`followed_operations`), and meet the tree in `files_of_applied`.
-/

namespace AgentKnowledge

open Results

/-- The document an operation is about. -/
def Operation.documentId : Operation → DocumentId
  | .createDocument documentId _ => documentId
  | .updateDocument documentId _ _ => documentId
  | .moveDocument documentId _ _ _ => documentId
  | .archiveDocument documentId _ => documentId
  | .addAttachment documentId _ _ => documentId

/-- The operation takes a document to another place. -/
def Operation.Relocates (operation : Operation) (documentId : DocumentId) : Prop :=
  match operation with
  | .moveDocument d _ _ _ | .archiveDocument d _ => d = documentId
  | .createDocument .. | .updateDocument .. | .addAttachment .. => False

/-- The operation gives an existing document new Markdown. -/
def Operation.Rewrites (operation : Operation) (documentId : DocumentId) : Prop :=
  match operation with
  | .updateDocument d _ _ | .archiveDocument d _ => d = documentId
  | .createDocument .. | .moveDocument .. | .addAttachment .. => False

/-- The operation creates, updates, moves or archives a document. -/
def Operation.Changes (operation : Operation) (documentId : DocumentId) : Prop :=
  match operation with
  | .createDocument d _ | .updateDocument d _ _ | .moveDocument d _ _ _ | .archiveDocument d _ =>
      d = documentId
  | .addAttachment .. => False

theorem Operation.Rewrites.changes {operation : Operation} {documentId : DocumentId}
    (h : operation.Rewrites documentId) : operation.Changes documentId := by
  cases operation with
  | updateDocument | archiveDocument => exact h
  | createDocument | moveDocument | addAttachment => exact h.elim

namespace PlanInput

variable {input : PlanInput} {state state' : PlanState} {documentId : DocumentId}
  {document document' : VirtualDocument}

/-! ### Where one document and its neighbours go -/

/-- The edits take a document and everything beside it from one place to another. -/
structure Carried (es : List (FileTree.Edit ContentLeaf)) (document document' : VirtualDocument) :
    Prop where
  own : ∀ leaf, (FileTree.replayAll es (document.relativePath, leaf)).1 = document'.relativePath
  beside : document.documentType ≠ .index → ∀ rest leaf, rest ≠ ["index.md"] →
    FileTree.replayAll es (document.directory ++ rest, leaf) = (document'.directory ++ rest, leaf)
  index : document'.documentType = .index ↔ document.documentType = .index
  fixed : document.documentType = .index → document'.relativePath = document.relativePath
  created : document'.created = document.created

theorem Carried.refl (document : VirtualDocument) : Carried [] document document :=
  ⟨fun _ => rfl, fun _ _ _ _ => rfl, Iff.rfl, fun _ => rfl, rfl⟩

theorem Carried.trans {es es' : List (FileTree.Edit ContentLeaf)} {document'' : VirtualDocument}
    (h : Carried es document document') (h' : Carried es' document' document'') :
    Carried (es ++ es') document document'' := by
  constructor
  · intro leaf
    have heq : FileTree.replayAll es (document.relativePath, leaf) =
        (document'.relativePath, (FileTree.replayAll es (document.relativePath, leaf)).2) :=
      Prod.ext (h.own leaf) rfl
    rw [FileTree.replayAll_append, heq]
    exact h'.own _
  · intro hindex rest leaf hrest
    rw [FileTree.replayAll_append, h.beside hindex rest leaf hrest]
    exact h'.beside (fun e => hindex (h.index.1 e)) rest leaf hrest
  · exact h'.index.trans h.index
  · intro hindex
    exact (h'.fixed (h.index.2 hindex)).trans (h.fixed hindex)
  · exact h'.created.trans h.created

theorem replay_rewrite_fst (path : RelPath) (content : Option ContentLeaf → ContentLeaf)
    (file : RelPath × ContentLeaf) :
    (FileTree.replayAll [.rewrite path content] file).1 = file.1 := by
  simp only [FileTree.replayAll, List.foldl_cons, List.foldl_nil, FileTree.Edit.replay]
  split <;> rfl

theorem replay_rewrite_of_ne {path : RelPath} {content : Option ContentLeaf → ContentLeaf}
    {file : RelPath × ContentLeaf} (h : file.1 ≠ path) :
    FileTree.replayAll [.rewrite path content] file = file := by
  simp [FileTree.replayAll, FileTree.Edit.replay, h]

theorem replay_move (source destination : RelPath) (file : RelPath × ContentLeaf) :
    FileTree.replayAll [.move source destination] file =
      (FileTree.movePath source destination file.1, file.2) := rfl

/-- The edits of an operation leave what is not in the document's bundles, except
for files it writes. -/
def Stays (es : List (FileTree.Edit ContentLeaf)) (documentId : DocumentId)
    (written : RelPath → Prop) : Prop :=
  ∀ path leaf, ¬ InBundle documentId path → ¬ written path →
    FileTree.replayAll es (path, leaf) = (path, leaf)

theorem stays_create (path : RelPath) (content : ContentLeaf) (written : RelPath → Prop) :
    Stays [.create path content] documentId written :=
  fun _ _ _ _ => rfl

theorem stays_rewrite (content : Option ContentLeaf → ContentLeaf) (own : RelPath) :
    Stays [.rewrite own content] documentId (· = own) :=
  fun _ _ _ h => replay_rewrite_of_ne h

theorem stays_move (hpath : document.relativePath =
      canonicalDocumentPath document.location document.created documentId)
    (hindex : document.documentType ≠ .index) (destination : RelPath)
    (written : RelPath → Prop) :
    Stays [.move document.directory destination] documentId written := by
  intro path leaf h _
  have hstay : ¬ document.directory <+: path := by
    rintro ⟨rest, rfl⟩
    exact h (inBundle_directory hpath hindex rest)
  rw [replay_move, FileTree.movePath_of_outside hstay]

theorem Stays.append {es es' : List (FileTree.Edit ContentLeaf)} {written : RelPath → Prop}
    (h : Stays es documentId written) (h' : Stays es' documentId written) :
    Stays (es ++ es') documentId written := by
  intro path leaf hpath hwritten
  rw [FileTree.replayAll_append, h path leaf hpath hwritten, h' path leaf hpath hwritten]

/-! ### What a list of operations does to files -/

/-- A document under a list of operations: it is carried along, and what no
operation asks for does not happen to it. -/
structure Kept (operations : List Operation) (documentId : DocumentId)
    (es : List (FileTree.Edit ContentLeaf)) (document document' : VirtualDocument) : Prop
    extends Carried es document document' where
  still : (∀ operation ∈ operations, ¬ operation.Relocates documentId) →
    document'.relativePath = document.relativePath
  bytes : (∀ operation ∈ operations, ¬ operation.Rewrites documentId) →
    ∀ leaf, (FileTree.replayAll es (document.relativePath, leaf)).2 = leaf

theorem Kept.trans {operations more : List Operation}
    {es es' : List (FileTree.Edit ContentLeaf)} {document'' : VirtualDocument}
    (h : Kept operations documentId es document document')
    (h' : Kept more documentId es' document' document'') :
    Kept (operations ++ more) documentId (es ++ es') document document'' := by
  refine ⟨h.toCarried.trans h'.toCarried, ?_, ?_⟩
  · intro hnone
    rw [List.forall_mem_append] at hnone
    rw [h'.still hnone.2, h.still hnone.1]
  · intro hnone leaf
    rw [List.forall_mem_append] at hnone
    have heq : FileTree.replayAll es (document.relativePath, leaf) =
        (document'.relativePath, leaf) := Prod.ext (h.own leaf) (h.bytes hnone.1 leaf)
    rw [FileTree.replayAll_append, heq, h'.bytes hnone.2]

/-- A file the operations add: a created document, or an attachment, where the
planner's last state has it. -/
def Added (input : PlanInput) (state : PlanState) (operations : List Operation)
    (file : RelPath × ContentLeaf) : Prop :=
  (∃ d content document, .createDocument d content ∈ operations ∧
      input.document state d = some document ∧ file.1 = document.relativePath) ∨
    ∃ d source name document bytes, .addAttachment d source name ∈ operations ∧
      input.document state d = some document ∧ input.packageRoot.payloadAt source = some bytes ∧
      file = (document.directory ++ [name.value], ⟨bytes, .plain⟩)

/-- The operation's document is known afterwards, and what the operation adds is
among the files the edits create. -/
def Supplied (input : PlanInput) (state : PlanState) (es : List (FileTree.Edit ContentLeaf)) :
    Operation → Prop
  | .createDocument d _ => ∃ document leaf, input.document state d = some document ∧
      (document.relativePath, leaf) ∈ FileTree.createdBy es
  | .addAttachment d source name => ∃ document bytes, input.document state d = some document ∧
      input.packageRoot.payloadAt source = some bytes ∧
      (document.directory ++ [name.value], ⟨bytes, .plain⟩) ∈ FileTree.createdBy es
  | .updateDocument d _ _ | .moveDocument d _ _ _ | .archiveDocument d _ =>
      ∃ document, input.document state d = some document

structure Followed (input : PlanInput) (state state' : PlanState) (operations : List Operation)
    (es : List (FileTree.Edit ContentLeaf)) : Prop where
  document : ∀ d document, input.document state d = some document →
    ∃ document', input.document state' d = some document' ∧
      Kept operations d es document document'
  unnamed : ∀ d, (∀ operation ∈ operations, ¬ operation.Changes d) →
    input.document state' d = input.document state d
  outside : ∀ path leaf, (∀ d, ¬ InBundle d path) → fileName path ≠ "index.md" →
    FileTree.replayAll es (path, leaf) = (path, leaf)
  added : ∀ file ∈ FileTree.createdBy es, input.Added state' operations file
  supplied : ∀ operation ∈ operations, input.Supplied state' es operation
  thawed : ∀ operation ∈ operations, ∀ d, operation.Changes d → ∀ record,
    input.index.get d = some record → ¬ Frozen (recordDocument record)

theorem document_progress {mutations : List PlannedMutation}
    (h : Progress state state' documentId document mutations) (d : DocumentId) :
    input.document state' d = if d = documentId then some document else input.document state d := by
  unfold PlanInput.document
  rw [h.documents]
  split <;> simp

theorem fileName_relativePath (hpath : document.relativePath =
      canonicalDocumentPath document.location document.created documentId) :
    fileName document.relativePath = "index.md" := by
  rw [hpath, fileName_canonicalDocumentPath]

/-- One operation: its own document is carried, the others stay. -/
theorem followed_step {tree : ContentTree} (hagrees : input.Agrees state tree)
    {operation : Operation} {written : RelPath → Prop} {mutations : List PlannedMutation}
    (hprogress : Progress state state' documentId document' mutations)
    (hstays : Stays (edits mutations) documentId written)
    (hwritten : ∀ path, written path → ∃ document,
      input.document state documentId = some document ∧ path = document.relativePath)
    (hself : ∀ document, input.document state documentId = some document →
      Kept [operation] documentId (edits mutations) document document')
    (hsame : ¬ operation.Changes documentId →
      input.document state documentId = some document')
    (hthawed : ∀ d, operation.Changes d → ∀ other, input.document state d = some other →
      ¬ Frozen other)
    (hadded : ∀ file ∈ FileTree.createdBy (edits mutations),
      input.Added state' [operation] file)
    (hsupplied : input.Supplied state' (edits mutations) operation) :
    input.Followed state state' [operation] (edits mutations) := by
  have hknown := hagrees.known
  constructor
  · intro d other hother
    rw [document_progress hprogress]
    by_cases hd : d = documentId
    · subst hd
      exact ⟨document', if_pos rfl, hself other hother⟩
    · refine ⟨other, by rw [if_neg hd, hother], ?_⟩
      have hpath := hknown.path d other hother
      have hstay : ∀ leaf, FileTree.replayAll (edits mutations) (other.relativePath, leaf) =
          (other.relativePath, leaf) := by
        refine fun leaf => hstays _ leaf ?_ ?_
        · exact fun h => hd (inBundle_of_relativePath hpath h).symm
        · intro h
          obtain ⟨document, hdocument, heq⟩ := hwritten _ h
          exact hd (hagrees.path_inj hdocument hother heq)
      refine ⟨⟨fun leaf => by rw [hstay], ?_, Iff.rfl, fun _ => rfl, rfl⟩, fun _ => rfl,
        fun _ leaf => by rw [hstay]⟩
      intro hindex rest leaf hrest
      have hin := inBundle_directory hpath hindex rest
      refine hstays _ leaf (fun h => hd (hin.unique h)) fun h => ?_
      obtain ⟨document, hdocument, heq⟩ := hwritten _ h
      exact hd (inBundle_of_relativePath (hknown.path documentId document hdocument) (heq ▸ hin))
  · intro d hd
    rw [document_progress hprogress]
    split
    · rename_i heq
      subst heq
      rw [hsame (hd operation List.mem_cons_self)]
    · rfl
  · intro path leaf hpath hfile
    refine hstays path leaf (hpath documentId) fun h => hfile ?_
    obtain ⟨document, hdocument, rfl⟩ := hwritten _ h
    exact fileName_relativePath (hknown.path documentId document hdocument)
  · exact hadded
  · intro o ho
    rw [List.mem_singleton.1 ho]
    exact hsupplied
  · intro o ho d hd record hrecord hfrozen
    rw [List.mem_singleton.1 ho] at hd
    obtain ⟨hdocument, -⟩ := hagrees.kept d record hrecord (.inr hfrozen)
    exact hthawed d hd _ hdocument hfrozen

/-- An attachment goes where its document goes. -/
theorem Carried.attachment {es : List (FileTree.Edit ContentLeaf)} {name : String}
    (h : Carried es document document')
    (hpath : document.relativePath =
      canonicalDocumentPath document.location document.created documentId)
    (houtside : ∀ path leaf, (∀ d, ¬ InBundle d path) → fileName path ≠ "index.md" →
      FileTree.replayAll es (path, leaf) = (path, leaf))
    (hdot : ¬ Undotted name) (hname : name ≠ "index.md") (leaf : ContentLeaf) :
    FileTree.replayAll es (document.directory ++ [name], leaf) =
      (document'.directory ++ [name], leaf) := by
  by_cases hindex : document.documentType = .index
  · have hsame : document'.directory = document.directory := by
      simp only [VirtualDocument.directory, h.fixed hindex]
    rw [hsame]
    refine houtside _ leaf ?_ (by rwa [fileName_concat])
    rw [directory_eq_of_canonical hpath]
    exact not_inBundle_index hindex hdot
  · exact h.beside hindex [name] leaf (by simpa using hname)

theorem Followed.trans {packagePolicy : PackagePolicy} (hvalid : input.Valid packagePolicy)
    {middle : PlanState} {operations more : List Operation}
    {es es' : List (FileTree.Edit ContentLeaf)} (hknown : input.Known middle)
    (hsub : operations ⊆ input.request.operations)
    (hfits : ∀ operation ∈ operations, input.Fits operation)
    (h : input.Followed state middle operations es)
    (h' : input.Followed middle state' more es') :
    input.Followed state state' (operations ++ more) (es ++ es') := by
  constructor
  · intro d document hdocument
    obtain ⟨document₁, hdocument₁, hcarried⟩ := h.document d document hdocument
    obtain ⟨document₂, hdocument₂, hcarried'⟩ := h'.document d document₁ hdocument₁
    exact ⟨document₂, hdocument₂, hcarried.trans hcarried'⟩
  · intro d hd
    rw [List.forall_mem_append] at hd
    rw [h'.unnamed d hd.2, h.unnamed d hd.1]
  · intro path leaf hpath hname
    rw [FileTree.replayAll_append, h.outside path leaf hpath hname, h'.outside path leaf hpath hname]
  · intro file hfile
    rw [FileTree.createdBy_append, List.mem_append] at hfile
    rcases hfile with hfile | hfile
    · obtain ⟨earlier, hearlier, rfl⟩ := List.mem_map.1 hfile
      rcases h.added earlier hearlier with
        ⟨d, content, document, hmem, hdocument, hpath⟩ |
        ⟨d, source, name, document, bytes, hmem, hdocument, hbytes, rfl⟩
      · obtain ⟨document', hdocument', hcarried⟩ := h'.document d document hdocument
        refine .inl ⟨d, content, document', List.mem_append_left _ hmem, hdocument', ?_⟩
        rw [← hcarried.own earlier.2, ← hpath]
      · obtain ⟨document', hdocument', hcarried⟩ := h'.document d document hdocument
        have hdot := attachment_dotted hvalid (hsub hmem)
        have hname := (hfits _ hmem).1
        exact .inr ⟨d, source, name, document', bytes, List.mem_append_left _ hmem, hdocument',
          hbytes, hcarried.toCarried.attachment (hknown.path d document hdocument) h'.outside hdot hname _⟩
    · rcases h'.added file hfile with
        ⟨d, content, document, hmem, hdocument, hpath⟩ |
        ⟨d, source, name, document, bytes, hmem, hdocument, hbytes, hfile⟩
      · exact .inl ⟨d, content, document, List.mem_append_right _ hmem, hdocument, hpath⟩
      · exact .inr ⟨d, source, name, document, bytes, List.mem_append_right _ hmem, hdocument,
          hbytes, hfile⟩
  · intro operation hoperation
    rcases List.mem_append.1 hoperation with hmem | hmem
    · have hfirst := h.supplied operation hmem
      cases operation with
      | createDocument d content =>
          obtain ⟨document, leaf, hdocument, hleaf⟩ := hfirst
          obtain ⟨document', hdocument', hcarried⟩ := h'.document d document hdocument
          refine ⟨document', (FileTree.replayAll es' (document.relativePath, leaf)).2, hdocument',
            ?_⟩
          rw [FileTree.createdBy_append, ← hcarried.own leaf]
          exact List.mem_append_left _ (List.mem_map_of_mem hleaf)
      | addAttachment d source name =>
          obtain ⟨document, bytes, hdocument, hbytes, hleaf⟩ := hfirst
          obtain ⟨document', hdocument', hcarried⟩ := h'.document d document hdocument
          have hdot := attachment_dotted hvalid (hsub hmem)
          have hname := (hfits _ hmem).1
          refine ⟨document', bytes, hdocument', hbytes, ?_⟩
          rw [FileTree.createdBy_append, ← hcarried.toCarried.attachment (hknown.path d document hdocument)
            h'.outside hdot hname]
          exact List.mem_append_left _ (List.mem_map_of_mem hleaf)
      | _ =>
          obtain ⟨document, hdocument⟩ := hfirst
          obtain ⟨document', hdocument', -⟩ := h'.document _ document hdocument
          exact ⟨document', hdocument'⟩
    · have hsecond := h'.supplied operation hmem
      have hright : ∀ file, file ∈ FileTree.createdBy es' →
          file ∈ FileTree.createdBy (es ++ es') := by
        intro file hfile
        rw [FileTree.createdBy_append]
        exact List.mem_append_right _ hfile
      cases operation with
      | createDocument d content =>
          obtain ⟨document, leaf, hdocument, hleaf⟩ := hsecond
          exact ⟨document, leaf, hdocument, hright _ hleaf⟩
      | addAttachment d source name =>
          obtain ⟨document, bytes, hdocument, hbytes, hleaf⟩ := hsecond
          exact ⟨document, bytes, hdocument, hbytes, hright _ hleaf⟩
      | _ => exact hsecond
  · intro operation hoperation
    rcases List.mem_append.1 hoperation with hmem | hmem
    · exact h.thawed operation hmem
    · exact h'.thawed operation hmem

theorem Followed.refl (input : PlanInput) (state : PlanState) :
    input.Followed state state [] [] := by
  constructor
  · intro d document hdocument
    exact ⟨document, hdocument, Carried.refl document, fun _ => rfl, fun _ _ => rfl⟩
  · intro d _
    rfl
  · intro path leaf _ _
    rfl
  · intro file hfile
    cases hfile
  · intro operation hoperation
    cases hoperation
  · intro operation hoperation
    cases hoperation

/-- A document whose path stays is carried by edits that stay beside it. -/
theorem carried_of_same (hrelative : document'.relativePath = document.relativePath)
    (htype : document'.documentType = document.documentType)
    (hcreated : document'.created = document.created)
    {es : List (FileTree.Edit ContentLeaf)}
    (hown : ∀ leaf, (FileTree.replayAll es (document.relativePath, leaf)).1 =
      document.relativePath)
    (hbeside : ∀ rest leaf, rest ≠ ["index.md"] →
      FileTree.replayAll es (document.directory ++ rest, leaf) =
        (document.directory ++ rest, leaf)) : Carried es document document' := by
  have hdirectory : document'.directory = document.directory := by
    simp only [VirtualDocument.directory, hrelative]
  refine ⟨fun leaf => (hown leaf).trans hrelative.symm, ?_, by rw [htype], fun _ => hrelative, hcreated⟩
  intro _ rest leaf hrest
  rw [hdirectory]
  exact hbeside rest leaf hrest

/-- Rewriting a document's own file carries it to where it is. -/
theorem carried_rewrite (hpath : document.relativePath =
      canonicalDocumentPath document.location document.created documentId)
    (hrelative : document'.relativePath = document.relativePath)
    (htype : document'.documentType = document.documentType)
    (hcreated : document'.created = document.created)
    (content : Option ContentLeaf → ContentLeaf) :
    Carried [.rewrite document.relativePath content] document document' := by
  refine carried_of_same hrelative htype hcreated (fun leaf => replay_rewrite_fst _ _ _) ?_
  intro rest leaf hrest
  refine replay_rewrite_of_ne ?_
  rw [relativePath_eq_of_canonical hpath]
  simpa using hrest

/-- A moved bundle carries its document and everything beside it. -/
theorem carried_move (hpath : document.relativePath =
      canonicalDocumentPath document.location document.created documentId)
    (hindex : document.documentType ≠ .index)
    (hpath' : document'.relativePath =
      canonicalDocumentPath document'.location document'.created documentId)
    (hindex' : document'.documentType ≠ .index) (hcreated : document'.created = document.created) :
    Carried [.move document.directory document'.directory] document document' := by
  refine ⟨?_, ?_, iff_of_false hindex' hindex, fun h => absurd h hindex, hcreated⟩
  · intro leaf
    rw [replay_move, relativePath_eq_of_canonical hpath, relativePath_eq_of_canonical hpath',
      FileTree.movePath_of_within]
  · intro _ rest leaf _
    rw [replay_move, FileTree.movePath_of_within]

/-- The step lemma. -/
theorem followed_operation {tree : ContentTree} (hagrees : input.Agrees state tree)
    {operation : Operation} (hstep : Step input state state' operation) :
    ∃ mutations, state'.plan = state.plan ++ mutations ∧
      input.Followed state state' [operation] (edits mutations) := by
  have hknown := hagrees.known
  cases hstep with
  | create absent payload decoded notArchived free progress occupied =>
      rename_i d content bytes metadata
      have hself : input.document state' d =
          some (input.createdDocument d metadata bytes) := by
        rw [document_progress progress, if_pos rfl]
      refine ⟨_, progress.plan, followed_step hagrees progress
        (stays_create _ _ fun _ => False) (fun _ h => h.elim) ?_ (fun h => absurd rfl h) ?_ ?_ ?_⟩
      · intro document hdocument
        cases absent.symm.trans hdocument
      · rintro _ rfl other hother
        cases absent.symm.trans hother
      · intro file hfile
        rw [List.mem_singleton.1 hfile]
        exact .inl ⟨d, content, _, List.mem_singleton_self _, hself, rfl⟩
      · exact ⟨_, _, hself, List.mem_singleton_self _⟩
  | update found revision live classified notLog active payload decoded created notArchived
      hasUpdate increases progress occupied =>
      have hpath := hknown.path _ _ found
      refine ⟨_, progress.plan, followed_step hagrees progress (stays_rewrite _ _)
        (fun _ h => ⟨_, found, h⟩) ?_ (fun h => absurd rfl h) ?_ ?_ ?_⟩
      · intro document hdocument
        obtain rfl := Option.some.inj (found.symm.trans hdocument)
        refine ⟨carried_rewrite hpath ?_ ?_ ?_ _, fun _ => ?_, fun h => ?_⟩
        · rfl
        · rfl
        · rfl
        · rfl
        · exact absurd rfl (h _ List.mem_cons_self)
      · rintro _ rfl other hother
        obtain rfl := Option.some.inj (found.symm.trans hother)
        exact not_frozen live notLog active
      · intro file hfile
        cases hfile
      · exact ⟨_, (document_progress progress _).trans (if_pos rfl)⟩
  | move found revision live notLog notIndex active toLog toIndex moves free progress occupied =>
      have hpath := hknown.path _ _ found
      refine ⟨_, progress.plan, followed_step hagrees progress
        (stays_move hpath notIndex _ fun _ => False) (fun _ h => h.elim) ?_
        (fun h => absurd rfl h) ?_ ?_ ?_⟩
      · intro document hdocument
        obtain rfl := Option.some.inj (found.symm.trans hdocument)
        refine ⟨carried_move hpath notIndex (movedDocument_path live) toIndex rfl, fun h => ?_,
          fun _ _ => rfl⟩
        exact absurd rfl (h _ List.mem_cons_self)
      · rintro _ rfl other hother
        obtain rfl := Option.some.inj (found.symm.trans hother)
        exact not_frozen live notLog active
      · intro file hfile
        cases hfile
      · exact ⟨_, (document_progress progress _).trans (if_pos rfl)⟩
  | archive found revision live classified notLog notIndex active loaded rewritten decoded moves
      free progress occupied =>
      have hpath := hknown.path _ _ found
      refine ⟨_, progress.plan, followed_step hagrees progress
        ((stays_rewrite _ _).append (stays_move hpath notIndex _ _))
        (fun _ h => ⟨_, found, h⟩) ?_ (fun h => absurd rfl h) ?_ ?_ ?_⟩
      · intro document hdocument
        obtain rfl := Option.some.inj (found.symm.trans hdocument)
        refine ⟨Carried.trans (carried_rewrite hpath rfl rfl rfl _)
          (carried_move hpath notIndex (archiveDocumentPath_eq notIndex hpath) notIndex rfl),
          fun h => ?_, fun h => ?_⟩
        · exact absurd rfl (h _ List.mem_cons_self)
        · exact absurd rfl (h _ List.mem_cons_self)
      · rintro _ rfl other hother
        obtain rfl := Option.some.inj (found.symm.trans hother)
        exact not_frozen live notLog active
      · intro file hfile
        cases hfile
      · exact ⟨_, (document_progress progress _).trans (if_pos rfl)⟩
  | attach found live classified active payload free progress occupied =>
      rename_i d source name document bytes
      have hself : input.document state' d = some document := by
        rw [document_progress progress, if_pos rfl]
      refine ⟨_, progress.plan, followed_step hagrees progress
        (stays_create _ _ fun _ => False) (fun _ h => h.elim) ?_ (fun _ => found)
        (fun _ h => h.elim) ?_ ?_⟩
      · intro document hdocument
        obtain rfl := Option.some.inj (found.symm.trans hdocument)
        exact ⟨carried_of_same rfl rfl rfl (fun _ => rfl) fun _ _ _ => rfl, fun _ => rfl,
          fun _ _ => rfl⟩
      · intro file hfile
        rw [List.mem_singleton.1 hfile]
        exact .inr ⟨d, source, name, document, bytes, List.mem_singleton_self _, hself, payload,
          rfl⟩
      · exact ⟨document, bytes, hself, payload, List.mem_singleton_self _⟩

/-- The run lemma: operations whose attachments fit run clear, and the planner's last
state tells what became of the files. -/
theorem followed_operations {packagePolicy : PackagePolicy} (hvalid : input.Valid packagePolicy)
    {operations : List Operation} {tree : ContentTree}
    (hsub : operations ⊆ input.request.operations)
    (hfits : ∀ operation ∈ operations, input.Fits operation) (hagrees : input.Agrees state tree)
    (hplan : input.planOperations operations state = .ok state') :
    ∃ mutations tree', state'.plan = state.plan ++ mutations ∧
      FileTree.RunsClear tree (edits mutations) tree' ∧ input.Agrees state' tree' ∧
      input.Followed state state' operations (edits mutations) := by
  induction operations generalizing state tree with
  | nil =>
      cases hplan
      exact ⟨[], tree, by simp, rfl, hagrees, Followed.refl input _⟩
  | cons operation operations ih =>
      obtain ⟨next, hnext, hrest⟩ := foldlM_cons_eq_ok.1 hplan
      obtain ⟨hmem, hsub'⟩ := List.cons_subset.1 hsub
      obtain ⟨hfit, hfits'⟩ := List.forall_mem_cons.1 hfits
      have hstep := planOperation_step hnext
      obtain ⟨mutations, hmutations, hfirst⟩ := followed_operation hagrees hstep
      obtain ⟨mutations', hmutations', hruns, -⟩ := hagrees.operation hvalid hmem hstep
      obtain rfl := List.append_cancel_left (hmutations.symm.trans hmutations')
      obtain ⟨middle, hmiddle, hagrees'⟩ := hruns hfit
      obtain ⟨more, tree', hmore, htree', hlast, hlater⟩ := ih hsub' hfits' hagrees' hrest
      refine ⟨mutations ++ more, tree', by rw [hmore, hmutations, List.append_assoc], ?_, hlast, ?_⟩
      · rw [edits, List.map_append]
        exact FileTree.runsClear_append.2 ⟨middle, hmiddle, htree'⟩
      · rw [edits, List.map_append]
        exact hfirst.trans hvalid hagrees'.known (by simpa using hmem) (by simpa using hfit) hlater

end PlanInput

end AgentKnowledge
