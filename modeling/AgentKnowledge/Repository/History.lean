import AgentKnowledge.Lib.Lineage
import AgentKnowledge.Repository.Frame

/-!
The versions of a document over many requests.

A document gets a new version when it is created, updated or archived. Within one
request the planner remembers the version in its virtual document, between requests
the tree does, and both are the same (`Current`). An update or archive names the
revision it replaces and must carry a later time. So the versions of a document form
a lineage (`history_linked`), and `no_lost_update` follows: as long as the digest
tells the document's versions apart, no revision comes back and none is replaced
twice.
-/

namespace AgentKnowledge

open Results Lineage

/-- A version of a document: its revision, the instant it was last changed, its
Markdown, and the revision it replaced. -/
abbrev DocumentVersion := Version Revision Int Bytes

/-- The operation makes a version of the document; the value is the revision it
expects to replace, if any. -/
def Operation.expectation (documentId : DocumentId) : Operation → Option (Option Revision)
  | .createDocument d _ => if d = documentId then some none else none
  | .updateDocument d expected _ | .archiveDocument d expected =>
      if d = documentId then some (some expected) else none
  | .moveDocument .. | .addAttachment .. => none

def PlannedMutation.content : PlannedMutation → Option Bytes
  | .writeNew _ bytes | .replace _ bytes => some bytes
  | .move .. => none

namespace PlanInput

variable (input : PlanInput)

/-- The version an operation gives a document, read off the planner's states around it. -/
def version (documentId : DocumentId) (state state' : PlanState) (operation : Operation) :
    Option DocumentVersion := do
  let expected ← operation.expectation documentId
  let document ← state'.documents documentId
  let mutation ← state'.plan[state.plan.length]?
  let content ← mutation.content
  pure ⟨document.revision, document.effectiveTime.instant, content, expected⟩

/-- The versions a list of operations gives a document. -/
def versions (documentId : DocumentId) : List Operation → PlanState → List DocumentVersion
  | [], _ => []
  | operation :: rest, state =>
      match input.planOperation state operation with
      | .error _ => []
      | .ok state' =>
          (version documentId state state' operation).toList ++ versions documentId rest state'

end PlanInput

/-- A request as it is applied: the package and the directory it is read from. -/
structure Submission where
  packageRoot : PackageDirectory
  package : ValidatedPackage

section Sequence

variable (x : Externals) (policy : ContentPolicy) (packagePolicy : PackagePolicy)

def Submission.apply (tree : ContentTree) (submission : Submission) :
    Except ApplyError (ContentTree × ApplyOutcome) :=
  applyRequestWithPolicy x policy packagePolicy tree submission.packageRoot submission.package

/-- The tree after a sequence of requests; a failed one leaves it unchanged. -/
def applySequence : ContentTree → List Submission → ContentTree
  | tree, [] => tree
  | tree, submission :: rest =>
      match submission.apply x policy packagePolicy tree with
      | .ok (tree', _) => applySequence tree' rest
      | .error _ => applySequence tree rest

/-- The operations that took effect, in order. -/
def effectiveOperations : ContentTree → List Submission → List Operation
  | _, [] => []
  | tree, submission :: rest =>
      match submission.apply x policy packagePolicy tree with
      | .ok (tree', _) => submission.package.request.operations ++ effectiveOperations tree' rest
      | .error _ => effectiveOperations tree rest

/-- The versions one request makes of a document. -/
def Submission.versions (tree : ContentTree) (documentId : DocumentId) (submission : Submission) :
    List DocumentVersion :=
  match ContentIndex.build x policy packagePolicy tree with
  | .error _ => []
  | .ok index =>
      (PlanInput.ofRequest x policy packagePolicy tree submission.packageRoot submission.package
        index).versions documentId submission.package.request.operations {}

/-- The versions of a document made by a sequence of requests. -/
def newVersions (documentId : DocumentId) : ContentTree → List Submission → List DocumentVersion
  | _, [] => []
  | tree, submission :: rest =>
      match submission.apply x policy packagePolicy tree with
      | .ok (tree', _) =>
          submission.versions x policy packagePolicy tree documentId ++
            newVersions documentId tree' rest
      | .error _ => newVersions documentId tree rest

/-- The version of a document a tree holds. -/
def treeVersion (tree : ContentTree) (documentId : DocumentId) : Option DocumentVersion := do
  let record ← (indexOf x policy tree).get documentId
  let leaf ← tree.fileAt record.relativePath
  pure ⟨record.revision, record.metadata.effectiveTime.instant, leaf.bytes, none⟩

/-- All versions of a document: the one of the base tree, and those made since. -/
def history (documentId : DocumentId) (base : ContentTree) (submissions : List Submission) :
    List DocumentVersion :=
  (treeVersion x policy base documentId).toList ++
    newVersions x policy packagePolicy documentId base submissions

end Sequence

/-! ### One request -/

/-- A version is what its content says. -/
def Genuine (x : Externals) (v : DocumentVersion) : Prop :=
  v.key = x.digest v.content ∧ ∃ metadata maximum,
    decodeDocumentMetadata x v.content maximum = .ok metadata ∧
      metadata.effectiveTime.instant = v.stamp

namespace PlanInput

variable {input : PlanInput} {packagePolicy : PackagePolicy} {state state' : PlanState}
  {documentId : DocumentId} {last : Option DocumentVersion} {tree : ContentTree}

/-- The planner knows the newest version. -/
def Current (input : PlanInput) (state : PlanState) (documentId : DocumentId)
    (last : Option DocumentVersion) : Prop :=
  (input.document state documentId).map
      (fun document => (document.revision, document.effectiveTime.instant)) =
    last.map fun v => (v.key, v.stamp)

/-- What one operation does to the versions of a document. -/
structure Extends (input : PlanInput) (state' : PlanState) (documentId : DocumentId)
    (last : Option DocumentVersion) (made : List DocumentVersion)
    (expected : List (Option Revision)) : Prop where
  linked : Linked last made
  current : input.Current state' documentId (newest last made)
  genuine : ∀ v ∈ made, Genuine input.x v
  expected : made.map Version.expected = expected

theorem version_eq_none {operation : Operation} (h : operation.expectation documentId = none) :
    version documentId state state' operation = none := by
  simp [version, h]

theorem version_eq_some {operation : Operation} {expected : Option Revision}
    {document : VirtualDocument} {mutation : PlannedMutation} {more : List PlannedMutation}
    {content : Bytes} (h : operation.expectation documentId = some expected)
    (hprogress : Progress state state' documentId document (mutation :: more))
    (hcontent : mutation.content = some content) :
    version documentId state state' operation =
      some ⟨document.revision, document.effectiveTime.instant, content, expected⟩ := by
  have hmutation : state'.plan[state.plan.length]? = some mutation := by
    rw [hprogress.plan, List.getElem?_append_right (Nat.le_refl _), Nat.sub_self]
    rfl
  have hdocument : state'.documents documentId = some document := by
    rw [hprogress.documents, if_pos rfl]
  simp [version, h, hdocument, hmutation, hcontent]

/-- A step that makes no version leaves the newest one. -/
theorem extends_none {operation : Operation} {d : DocumentId} {document : VirtualDocument}
    {mutations : List PlannedMutation} (hcurrent : input.Current state documentId last)
    (hprogress : Progress state state' d document mutations)
    (hexpectation : operation.expectation documentId = none)
    (hsame : d = documentId → ∃ old, input.document state documentId = some old ∧
      old.revision = document.revision ∧ old.effectiveTime = document.effectiveTime) :
    input.Extends state' documentId last (version documentId state state' operation).toList
      (operation.expectation documentId).toList := by
  rw [version_eq_none hexpectation, hexpectation]
  refine ⟨by cases last <;> trivial, ?_, by simp, rfl⟩
  unfold Current at hcurrent ⊢
  rw [newest, Option.toList_none, List.getLast?_nil, Option.none_or, ← hcurrent,
    document_progress hprogress]
  split
  · rename_i heq
    obtain ⟨old, hold, hrevision, htime⟩ := hsame heq.symm
    simp [hold, hrevision, htime]
  · rfl

/-- A step that makes a version. -/
theorem extends_some {operation : Operation} {document : VirtualDocument}
    {mutation : PlannedMutation} {more : List PlannedMutation} {content : Bytes}
    {expected : Option Revision} {metadata : DocumentMetadata} {maximum : Nat}
    (hprogress : Progress state state' documentId document (mutation :: more))
    (hexpectation : operation.expectation documentId = some expected)
    (hcontent : mutation.content = some content)
    (hrevision : document.revision = input.x.digest content)
    (hdecode : decodeDocumentMetadata input.x content maximum = .ok metadata)
    (htime : metadata.effectiveTime.instant = document.effectiveTime.instant)
    (hexpected : expected = last.map Version.key)
    (hlater : ∀ u ∈ last, u.stamp < document.effectiveTime.instant) :
    input.Extends state' documentId last (version documentId state state' operation).toList
      (operation.expectation documentId).toList := by
  rw [version_eq_some hexpectation hprogress hcontent, hexpectation]
  refine ⟨linked_singleton hexpected hlater, ?_, ?_, rfl⟩
  · unfold Current
    rw [document_progress hprogress, if_pos rfl]
    rfl
  · intro v hv
    rw [Option.toList_some, List.mem_singleton] at hv
    subst hv
    exact ⟨hrevision, metadata, maximum, hdecode, htime⟩

theorem Current.of_found (hcurrent : input.Current state documentId last)
    {document : VirtualDocument} (hfound : input.document state documentId = some document) :
    ∃ u, last = some u ∧ u.key = document.revision ∧
      u.stamp = document.effectiveTime.instant := by
  unfold Current at hcurrent
  rw [hfound] at hcurrent
  obtain ⟨u, rfl, hu⟩ := Option.map_eq_some_iff.1 hcurrent.symm
  rw [Prod.mk.injEq] at hu
  exact ⟨u, rfl, hu.1, hu.2⟩

/-- The archived Markdown is later than what it replaces. -/
theorem Agrees.archive_later (hx : input.x.YamlRoundTrips) (hagrees : input.Agrees state tree)
    {document : VirtualDocument} (hfound : input.document state documentId = some document)
    (hlive : document.archived = false) {markdown archived : Bytes} {plannedBytes : Nat}
    {metadata : DocumentMetadata} (hloaded : input.loadMarkdown document = .ok markdown)
    (hrewritten : input.archivedMarkdown markdown state.plannedBytes =
      .ok (archived, plannedBytes))
    (hdecoded : decodeDocumentMetadata input.x archived input.policy.maximumFrontMatterBytes =
      .ok metadata) :
    metadata.effectiveTime = input.operationTime ∧
      document.effectiveTime.instant < input.operationTime.instant := by
  obtain ⟨old, hold, hlater, rfl⟩ := archivedMarkdown_metadata hx hrewritten hdecoded
  obtain ⟨-, -, leaf, -, hdescribes⟩ := hagrees.placed documentId document hfound
  have hmarkdown : markdown = leaf.bytes :=
    Except.ok.inj (hloaded.symm.trans (hdescribes.markdown hlive))
  obtain ⟨current, hcurrent, -, hcreated, hupdated, -⟩ := hdescribes.metadata_of_live hlive
  rw [hmarkdown, hcurrent] at hold
  cases hold
  refine ⟨rfl, ?_⟩
  unfold DocumentMetadata.effectiveTime at hlater
  unfold VirtualDocument.effectiveTime
  rw [← hupdated]
  cases hcase : old.updated with
  | none => simpa [hcase, hcreated] using hlater
  | some updated => simpa [hcase] using hlater

/-- The step lemma. -/
theorem extends_operation (hx : input.x.YamlRoundTrips) (hagrees : input.Agrees state tree)
    (hcurrent : input.Current state documentId last) {operation : Operation}
    (hstep : Step input state state' operation) :
    input.Extends state' documentId last (version documentId state state' operation).toList
      (operation.expectation documentId).toList := by
  cases hstep with
  | create absent payload decoded notArchived free progress occupied =>
      rename_i d content bytes metadata
      by_cases hd : d = documentId
      · subst hd
        have hlast : last = none := by
          unfold Current at hcurrent
          rw [absent] at hcurrent
          simpa using hcurrent.symm
        subst hlast
        exact extends_some progress (if_pos rfl) rfl rfl decoded rfl rfl (by simp)
      · exact extends_none hcurrent progress (if_neg hd) fun h => absurd h hd
  | update found revision live classified notLog active payload decoded created notArchived
      hasUpdate increases progress occupied =>
      rename_i d expected content document bytes metadata updated
      by_cases hd : d = documentId
      · subst hd
        obtain ⟨u, rfl, hkey, hstamp⟩ := hcurrent.of_found found
        have htime : (input.updatedDocument document metadata bytes).effectiveTime = updated := by
          simp [VirtualDocument.effectiveTime, updatedDocument, hasUpdate]
        refine extends_some progress (if_pos rfl) rfl rfl decoded ?_ ?_ ?_
        · rw [htime, DocumentMetadata.effectiveTime, hasUpdate]
          rfl
        · rw [Option.map_some, hkey, revision]
        · rintro _ ⟨⟩
          rw [hstamp, htime]
          exact increases
      · exact extends_none hcurrent progress (if_neg hd) fun h => absurd h hd
  | move found revision live notLog notIndex active toLog toIndex moves free progress occupied =>
      refine extends_none hcurrent progress rfl ?_
      rintro rfl
      exact ⟨_, found, rfl, rfl⟩
  | archive found revision live classified notLog notIndex active loaded rewritten decoded moves
      free progress occupied =>
      rename_i d expected document markdown archived metadata plannedBytes
      by_cases hd : d = documentId
      · subst hd
        obtain ⟨u, rfl, hkey, hstamp⟩ := hcurrent.of_found found
        obtain ⟨htime, hlater⟩ := hagrees.archive_later hx found live loaded rewritten decoded
        refine extends_some progress (if_pos rfl) rfl rfl decoded ?_ ?_ ?_
        · rw [htime]
          rfl
        · rw [Option.map_some, hkey, revision]
        · rintro _ ⟨⟩
          rw [hstamp]
          exact hlater
      · exact extends_none hcurrent progress (if_neg hd) fun h => absurd h hd
  | attach found live classified active payload free progress occupied =>
      refine extends_none hcurrent progress rfl ?_
      rintro rfl
      exact ⟨_, found, rfl, rfl⟩

theorem Extends.append {expected expected' : List (Option Revision)}
    {made made' : List DocumentVersion} {state'' : PlanState}
    (h : input.Extends state' documentId last made expected)
    (h' : input.Extends state'' documentId (newest last made) made' expected') :
    input.Extends state'' documentId last (made ++ made') (expected ++ expected') := by
  refine ⟨linked_append.2 ⟨h.linked, h'.linked⟩, ?_, ?_, ?_⟩
  · rw [newest_append]
    exact h'.current
  · intro v hv
    rcases List.mem_append.1 hv with hv | hv
    · exact h.genuine v hv
    · exact h'.genuine v hv
  · rw [List.map_append, h.expected, h'.expected]

/-- The run lemma. -/
theorem extends_operations (hx : input.x.YamlRoundTrips) (hvalid : input.Valid packagePolicy)
    {operations : List Operation} (hsub : operations ⊆ input.request.operations)
    (hfits : ∀ operation ∈ operations, input.Fits operation) (hagrees : input.Agrees state tree)
    (hcurrent : input.Current state documentId last)
    (hplan : input.planOperations operations state = .ok state') :
    input.Extends state' documentId last (input.versions documentId operations state)
      (operations.filterMap (Operation.expectation documentId)) := by
  induction operations generalizing state tree last with
  | nil =>
      cases hplan
      exact ⟨by cases last <;> trivial, hcurrent, by simp [versions], rfl⟩
  | cons operation rest ih =>
      obtain ⟨next, hnext, hrest⟩ := foldlM_cons_eq_ok.1 hplan
      obtain ⟨hmem, hsub'⟩ := List.cons_subset.1 hsub
      obtain ⟨hfit, hfits'⟩ := List.forall_mem_cons.1 hfits
      have hstep := planOperation_step hnext
      have hfirst := extends_operation hx hagrees hcurrent hstep
      obtain ⟨mutations, -, hruns, -⟩ := hagrees.operation hvalid hmem hstep
      obtain ⟨middle, -, hagrees'⟩ := hruns hfit
      have hlater := ih hsub' hfits' hagrees' hfirst.current hrest
      simp only [versions, hnext]
      rw [show (operation :: rest).filterMap (Operation.expectation documentId) =
        (operation.expectation documentId).toList ++
          rest.filterMap (Operation.expectation documentId) by
        rw [List.filterMap_cons]
        cases operation.expectation documentId <;> rfl]
      exact hfirst.append hlater

end PlanInput

/-! ### Many requests -/

section Sequence

variable {x : Externals} {policy : ContentPolicy} {packagePolicy : PackagePolicy}
  {tree tree' : ContentTree} {documentId : DocumentId} {last : Option DocumentVersion}

/-- The tree holds the newest version. -/
def TreeCurrent (x : Externals) (policy : ContentPolicy) (tree : ContentTree)
    (documentId : DocumentId) (last : Option DocumentVersion) : Prop :=
  ((indexOf x policy tree).get documentId).map
      (fun record => (record.revision, record.metadata.effectiveTime.instant)) =
    last.map fun v => (v.key, v.stamp)

/-- Between requests the tree knows what the planner knew. -/
theorem PlanInput.Applied.treeCurrent {input : PlanInput} {state : PlanState}
    {index' : ContentIndex} (h : input.Applied packagePolicy state tree' index')
    (hx : input.x.YamlRoundTrips) (hcurrent : input.Current state documentId last) :
    TreeCurrent input.x input.policy tree' documentId last := by
  unfold TreeCurrent
  rw [← hcurrent, ← (build_eq_ok_iff.1 h.indexed).2.2]
  cases hdocument : input.document state documentId with
  | none =>
      cases hrecord : index'.get documentId with
      | none => rfl
      | some record =>
          obtain ⟨document, hfound⟩ := h.document_of_record hrecord
          cases hdocument.symm.trans hfound
  | some document =>
      obtain ⟨record, leaf, hrecord, -, -, hmarkdown, hdescribes⟩ := h.record hdocument
      obtain ⟨metadata, hmetadata, -, hcreated, hupdated, -⟩ := hdescribes.metadata fun _ => hx
      obtain ⟨hdecode, -, -, -, -, -, hrevision, -⟩ := fromMarkdown_eq_ok_iff.1 hmarkdown
      rw [hmetadata] at hdecode
      cases hdecode
      have htime : record.metadata.effectiveTime.instant = document.effectiveTime.instant := by
        unfold DocumentMetadata.effectiveTime VirtualDocument.effectiveTime
        rw [hupdated]
        cases document.updated with
        | none => exact hcreated
        | some updated => rfl
      rw [hrecord, Option.map_some, Option.map_some, htime, hrevision, hdescribes.revision]

/-- The versions one successful request makes. -/
theorem versions_of_apply (hx : x.YamlRoundTrips) {submission : Submission}
    (hreads : submission.package.Reads x packagePolicy submission.packageRoot)
    {outcome : ApplyOutcome}
    (happly : submission.apply x policy packagePolicy tree = .ok (tree', outcome))
    (hcurrent : TreeCurrent x policy tree documentId last) :
    Linked last (submission.versions x policy packagePolicy tree documentId) ∧
      TreeCurrent x policy tree' documentId
        (newest last (submission.versions x policy packagePolicy tree documentId)) ∧
      (∀ v ∈ submission.versions x policy packagePolicy tree documentId, Genuine x v) ∧
      (submission.versions x policy packagePolicy tree documentId).map Version.expected =
        submission.package.request.operations.filterMap (Operation.expectation documentId) := by
  obtain ⟨index, index', state, h, -⟩ := PlanInput.applied_of_ok hreads happly
  have hindexed : ContentIndex.build x policy packagePolicy tree = .ok index := h.valid.indexed
  have hstart : (PlanInput.ofRequest x policy packagePolicy tree submission.packageRoot
      submission.package index).Current {} documentId last := by
    unfold PlanInput.Current
    rw [← hcurrent, PlanInput.document_initial, Option.map_map,
      ← (build_eq_ok_iff.1 hindexed).2.2]
    rfl
  have hextends := PlanInput.extends_operations hx h.valid (List.Subset.refl _) h.fits
    (PlanInput.Agrees.initial h.valid) hstart h.planned
  simp only [Submission.versions, hindexed]
  exact ⟨hextends.linked, h.treeCurrent hx hextends.current, hextends.genuine, hextends.expected⟩

/-- The versions a sequence of requests makes. -/
theorem newVersions_linked (hx : x.YamlRoundTrips) {submissions : List Submission}
    (hreads : ∀ submission ∈ submissions,
      submission.package.Reads x packagePolicy submission.packageRoot)
    (hcurrent : TreeCurrent x policy tree documentId last) :
    Linked last (newVersions x policy packagePolicy documentId tree submissions) ∧
      TreeCurrent x policy (applySequence x policy packagePolicy tree submissions) documentId
        (newest last (newVersions x policy packagePolicy documentId tree submissions)) ∧
      (∀ v ∈ newVersions x policy packagePolicy documentId tree submissions, Genuine x v) ∧
      (newVersions x policy packagePolicy documentId tree submissions).map Version.expected =
        (effectiveOperations x policy packagePolicy tree submissions).filterMap
          (Operation.expectation documentId) := by
  induction submissions generalizing tree last with
  | nil => exact ⟨by cases last <;> trivial, hcurrent, by simp [newVersions], rfl⟩
  | cons submission rest ih =>
      obtain ⟨hread, hreads'⟩ := List.forall_mem_cons.1 hreads
      unfold newVersions applySequence effectiveOperations
      cases happly : submission.apply x policy packagePolicy tree with
      | error error => exact ih hreads' hcurrent
      | ok result =>
          obtain ⟨tree', outcome⟩ := result
          obtain ⟨hlinked, hcurrent', hgenuine, hexpected⟩ :=
            versions_of_apply hx hread happly hcurrent
          obtain ⟨hlinked', hlast, hgenuine', hexpected'⟩ := ih hreads' hcurrent'
          refine ⟨linked_append.2 ⟨hlinked, hlinked'⟩, ?_, ?_, ?_⟩
          · rw [newest_append]
            exact hlast
          · intro v hv
            rcases List.mem_append.1 hv with hv | hv
            · exact hgenuine v hv
            · exact hgenuine' v hv
          · rw [List.map_append, List.filterMap_append, hexpected, hexpected']

theorem treeVersion_current (documentId : DocumentId) {index : ContentIndex}
    (hindexed : ContentIndex.build x policy packagePolicy tree = .ok index) :
    TreeCurrent x policy tree documentId (treeVersion x policy tree documentId) ∧
      ∀ v ∈ treeVersion x policy tree documentId, Genuine x v ∧ v.expected = none := by
  obtain ⟨-, -, rfl⟩ := build_eq_ok_iff.1 hindexed
  unfold TreeCurrent treeVersion
  cases hrecord : (indexOf x policy tree).get documentId with
  | none => exact ⟨rfl, by simp⟩
  | some record =>
      obtain ⟨leaf, hfile, hmarkdown⟩ := file_of_get hindexed hrecord
      obtain ⟨hdecode, -, -, -, -, -, hrevision, -⟩ := fromMarkdown_eq_ok_iff.1 hmarkdown
      have hleaf : tree.fileAt record.relativePath = some leaf :=
        FileTree.fileAt_eq_some_iff.2 hfile
      simp only [Option.bind_eq_bind, Option.bind_some, hleaf]
      refine ⟨rfl, ?_⟩
      rintro v ⟨⟩
      exact ⟨⟨hrevision, record.metadata, _, hdecode, rfl⟩, rfl⟩

/-- The versions of a document form one lineage. -/
theorem history_linked (documentId : DocumentId) (hx : x.YamlRoundTrips) {base : ContentTree}
    {index : ContentIndex}
    (hindexed : ContentIndex.build x policy packagePolicy base = .ok index)
    {submissions : List Submission}
    (hreads : ∀ submission ∈ submissions,
      submission.package.Reads x packagePolicy submission.packageRoot) :
    Linked none (history x policy packagePolicy documentId base submissions) ∧
      (∀ v ∈ history x policy packagePolicy documentId base submissions, Genuine x v) := by
  obtain ⟨hcurrent, hbase⟩ := treeVersion_current documentId hindexed
  obtain ⟨hlinked, -, hgenuine, -⟩ := newVersions_linked hx hreads hcurrent
  unfold history
  constructor
  · refine linked_append.2 ⟨?_, ?_⟩
    · cases hversion : treeVersion x policy base documentId with
      | none => trivial
      | some v => exact ⟨(hbase v hversion).2, trivial⟩
    · cases hversion : treeVersion x policy base documentId with
      | none => rwa [hversion] at hlinked
      | some v => rwa [hversion] at hlinked
  · intro v hv
    rcases List.mem_append.1 hv with hv | hv
    · exact (hbase v (Option.mem_toList.1 hv)).1
    · exact hgenuine v hv

/-- No lost update and no ABA. Over a sequence of requests the versions of a document
have increasing times and distinct revisions, and at most one operation that took
effect expects a given revision. -/
theorem no_lost_update (hx : x.YamlRoundTrips) {base : ContentTree} {index : ContentIndex}
    (hindexed : ContentIndex.build x policy packagePolicy base = .ok index)
    {submissions : List Submission}
    (hreads : ∀ submission ∈ submissions,
      submission.package.Reads x packagePolicy submission.packageRoot)
    (documentId : DocumentId)
    (hcollision : ∀ u ∈ history x policy packagePolicy documentId base submissions,
      ∀ v ∈ history x policy packagePolicy documentId base submissions,
        x.digest u.content = x.digest v.content → u.content = v.content) :
    (history x policy packagePolicy documentId base submissions).Pairwise
        (fun u v => u.stamp < v.stamp) ∧
      ((history x policy packagePolicy documentId base submissions).map Version.key).Nodup ∧
      (∀ revision, (effectiveOperations x policy packagePolicy base submissions).countP
        (fun operation => operation.expectation documentId == some (some revision)) ≤ 1) ∧
      (newVersions x policy packagePolicy documentId base submissions).map Version.expected =
        (effectiveOperations x policy packagePolicy base submissions).filterMap
          (Operation.expectation documentId) ∧
      TreeCurrent x policy (applySequence x policy packagePolicy base submissions) documentId
        (history x policy packagePolicy documentId base submissions).getLast? := by
  obtain ⟨hlinked, hgenuine⟩ := history_linked documentId hx hindexed hreads
  obtain ⟨hcurrent, -⟩ := treeVersion_current documentId hindexed
  obtain ⟨-, hlast, -, hexpected⟩ := newVersions_linked hx hreads hcurrent
  -- The key is the digest of the content, and the content tells the stamp.
  have hkey : ∀ u ∈ history x policy packagePolicy documentId base submissions,
      ∀ v ∈ history x policy packagePolicy documentId base submissions,
        u.key = v.key → u.stamp = v.stamp := by
    intro u hu v hv heq
    obtain ⟨hukey, metadata, maximum, hdecode, hstamp⟩ := hgenuine u hu
    obtain ⟨hvkey, metadata', maximum', hdecode', hstamp'⟩ := hgenuine v hv
    rw [hukey, hvkey] at heq
    rw [hcollision u hu v hv heq] at hdecode
    rw [← hstamp, ← hstamp', decodeDocumentMetadata_unique hdecode hdecode']
  refine ⟨hlinked.pairwise_stamp, hlinked.nodup_keys hkey, ?_, hexpected, ?_⟩
  · intro revision
    rw [← List.count_filterMap, ← hexpected]
    refine le_trans ?_ (hlinked.count_expected_le_one hkey revision)
    rw [history, List.map_append, List.count_append]
    exact Nat.le_add_left _ _
  · unfold history
    rw [List.getLast?_append]
    cases hversion : treeVersion x policy base documentId with
    | none => simpa [newest, hversion] using hlast
    | some v => simpa [newest, hversion] using hlast

end Sequence

/-! ### An update sent twice -/

namespace Sample

def updateContent : PayloadPath := ⟨"d.md", by rfl⟩

def update : ChangeRequest := request none [.updateDocument document revision updateContent]

def updated : DocumentMetadata :=
  { metadata with updated := some (day 1), requestId := update.requestId }

def updateExternals : Externals :=
  .ofTables [([97, lineFeed], metadata), ([98, lineFeed], updated)] [([1], update)]

def updateSubmission : Submission where
  packageRoot := {
    requestJson := [1]
    payload := [⟨updateContent, markdown 98⟩]
    storedDigest := ⟨revision⟩
    acceptance := ⟨1, day 2, none, AcceptanceMetadata.first_valid⟩
    paths_nodup := by decide }
  package := {
    request := update
    digest := calculateDigest updateExternals [1] [⟨updateContent, markdown 98⟩]
    payload := [PayloadFile.metadata updateExternals ⟨updateContent, markdown 98⟩]
    acceptance := some ⟨1, day 2, none, AcceptanceMetadata.first_valid⟩ }

/-- The second time the update fails, and the decision has two versions. -/
theorem update_sent_twice :
    ((history updateExternals {} packagePolicy document (tree []) [updateSubmission,
      updateSubmission]).map Version.expected = [none, some revision]) ∧
    ((history updateExternals {} packagePolicy document (tree []) [updateSubmission,
      updateSubmission]).map Version.key).Nodup := by
  have hreads : ∀ submission ∈ [updateSubmission, updateSubmission],
      submission.package.Reads updateExternals packagePolicy submission.packageRoot := by
    unfold ValidatedPackage.Reads
    decide +kernel
  obtain ⟨index, hindexed⟩ : ∃ index,
      ContentIndex.build updateExternals {} packagePolicy (tree []) = .ok index :=
    exists_eq_ok_of_isOk (by decide +kernel)
  refine ⟨by decide +kernel, (no_lost_update ?_ hindexed hreads document ?_).2.1⟩
  · refine Externals.ofTables_roundTrip ?_
    decide +kernel
  · decide +kernel

end Sample

end AgentKnowledge
