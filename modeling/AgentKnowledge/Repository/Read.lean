import AgentKnowledge.Repository.Index

/-!
Committed reads (`crates/repository/src/read.rs`).

A snapshot pins one official commit, checked out in the canonical worktree, with its
validated index. Locks, deadlines and the attestation of the storage directories are
left out: they can only turn an answer into an error.

* `mem_list`, `mem_recent`: both listings return indexed documents that the filter
  selects; `list_perm` adds that nothing is cut off when the limit is that of the index;
* `readMarkdown_of_mem`: an indexed document can always be read;
* `bundle_eq_ok_iff`: a document is exported iff its bundle fits the package limits.
-/

namespace AgentKnowledge

open Results

/-- Failure while opening or querying an exact committed read snapshot. -/
inductive CommittedReadError where
  | invalidHistorySelector
  | repository
  | io
  | pinnedPath
  | canonicalOutOfDate (official checkedOut : String)
  | content (source : ContentIndexError)
  | invalidResultLimit
  | searchDocumentLimitExceeded (maximum : Nat)
  | searchMarkdownByteLimitExceeded (maximum : Nat)
  | bundleEntryLimitExceeded (maximum : Nat)
  | bundleByteLimitExceeded (maximum : Nat)
  | documentNotFound (documentId : DocumentId)
  | invalidMarkdownEncoding (documentId : DocumentId)
  | emptyQuery
  | queryTooLong (maximum actual : Nat)
  | contentChanged (documentId : DocumentId)
deriving DecidableEq

/-- Optional exact-match filters shared by list, recent, and search operations. -/
structure ReadFilter where
  project : Option ProjectId := none
  projects : Option (List ProjectId) := none
  tag : Option String := none
  session : Option SessionId := none
  includeArchived : Bool := false
deriving DecidableEq

def ReadFilter.matchesDocument (filter : ReadFilter) (document : DocumentRecord) : Bool :=
  (filter.includeArchived || !document.location.archived) &&
    filter.project.all (fun project => document.location.project == some project) &&
    filter.projects.all (fun projects =>
      document.location.project.any fun project => projects.contains project) &&
    filter.tag.all (fun tag => document.metadata.tags.any fun candidate => candidate == tag) &&
    filter.session.all (fun session => document.metadata.session == some session)

/-- The repository as a read finds it: the commit the official ref names, the commit checked
out in the canonical worktree with its tree, and the files of that worktree. -/
structure CommittedStore where
  official : String
  checkedOut : String
  committed : ContentTree
  worktree : ContentTree

/-- The official commit, if it is what a clean canonical worktree holds. -/
def CommittedStore.currentCommit (store : CommittedStore) : Except CommittedReadError String := do
  rejectIf (store.worktree.files ≠ store.committed.files) .repository
  rejectIf (store.checkedOut ≠ store.official)
    (.canonicalOutOfDate store.official store.checkedOut)
  pure store.official

/-- One immutable view of an exact official commit. -/
structure CommittedSnapshot where
  commit : String
  committed : ContentTree
  index : ContentIndex
  root : ContentTree
  maximumMarkdownBytes : Nat
  maximumBundleBytes : Nat
  maximumBundleEntries : Nat

/-- Pins one exact official commit and builds its validated content index. -/
def CommittedStore.snapshot (x : Externals) (policy : ContentPolicy)
    (packagePolicy : PackagePolicy) (store : CommittedStore) :
    Except CommittedReadError CommittedSnapshot := do
  let commit ← store.currentCommit
  let index ← (ContentIndex.build x policy packagePolicy store.worktree).mapError
    CommittedReadError.content
  pure {
    commit
    committed := store.committed
    index
    root := store.worktree
    maximumMarkdownBytes := policy.maximumMarkdownBytes
    maximumBundleBytes := packagePolicy.limits.maximumTotalBytes
    maximumBundleEntries := packagePolicy.limits.maximumFileCount }

/-- The attachments in the directory of a document. -/
def ContentIndex.attachmentsBeside (index : ContentIndex) (document : DocumentRecord) :
    List AttachmentRecord :=
  index.attachments.filter fun attachment =>
    attachment.relativePath.dropLast == document.relativePath.dropLast

/-- One regular file in a committed document bundle. -/
structure CommittedBundleEntry where
  name : String
  bytes : Bytes
deriving DecidableEq

/-- One committed document bundle, `index.md` first and attachments by name. -/
structure CommittedBundle where
  record : DocumentRecord
  entries : List CommittedBundleEntry
deriving DecidableEq

/-- The files beside a document exceed the byte limit, counted in order. -/
def bundleBytes (maximum total : Nat) : List AttachmentRecord → Except CommittedReadError Unit
  | [] => .ok ()
  | attachment :: rest =>
      if maximum < total + attachment.byteLength then .error (.bundleByteLimitExceeded maximum)
      else bundleBytes maximum (total + attachment.byteLength) rest

namespace CommittedSnapshot

variable (x : Externals) (snapshot : CommittedSnapshot)

/-- Documents a filter selects, in index order. -/
def selected (filter : ReadFilter) : List DocumentRecord :=
  snapshot.index.documents.filter filter.matchesDocument

/-- Lists matching documents in canonical path order. -/
def list (filter : ReadFilter) (maximumResults : Nat) :
    Except CommittedReadError (List DocumentRecord) := do
  rejectIf (maximumResults = 0) .invalidResultLimit
  let sorted := (snapshot.selected filter).mergeSort fun left right =>
    decide (left.relativePath ≤ right.relativePath)
  pure (sorted.take maximumResults)

/-- The order of `recent`: the later change first, then the smaller identifier. -/
def recentBefore (left right : DocumentRecord) : Bool :=
  let leftTime := left.metadata.effectiveTime.instant
  let rightTime := right.metadata.effectiveTime.instant
  rightTime < leftTime ||
    (rightTime == leftTime &&
      left.metadata.documentId.ulid.value ≤ right.metadata.documentId.ulid.value)

/-- Lists matching documents from most recently changed to oldest. -/
def recent (filter : ReadFilter) (maximumResults : Nat) :
    Except CommittedReadError (List DocumentRecord) := do
  rejectIf (maximumResults = 0) .invalidResultLimit
  pure (((snapshot.selected filter).mergeSort recentBefore).take maximumResults)

/-- A regular file with safe attributes below the pinned root. -/
def openRegular (path : RelPath) : Except CommittedReadError ContentLeaf := do
  let leaf ← ofOption (snapshot.root.fileAt path) .pinnedPath
  rejectIf (leaf.kind = .special) .pinnedPath
  rejectIf (leaf.kind ≠ .plain) .io
  pure leaf

def readMarkdown (record : DocumentRecord) : Except CommittedReadError Bytes := do
  let file ← snapshot.openRegular record.relativePath
  rejectIf (snapshot.maximumMarkdownBytes < file.bytes.length)
    (.contentChanged record.metadata.documentId)
  rejectIf (x.digest file.bytes ≠ record.revision) (.contentChanged record.metadata.documentId)
  pure file.bytes

/-- Retrieves exact Markdown bytes for one permanent document identity. -/
def get (documentId : DocumentId) : Except CommittedReadError (DocumentRecord × Bytes) := do
  let record ← ofOption (snapshot.index.get documentId) (.documentNotFound documentId)
  let markdown ← snapshot.readMarkdown x record
  pure (record, markdown)

/-- The blob of an attachment in the pinned commit. -/
def readCommittedAttachment (documentId : DocumentId) (attachment : AttachmentRecord) :
    Except CommittedReadError Bytes := do
  let blob ← ofOption (snapshot.committed.fileAt attachment.relativePath) .repository
  rejectIf (blob.bytes.length ≠ attachment.byteLength) (.contentChanged documentId)
  pure blob.bytes

def readAttachment (document : DocumentRecord) (attachment : AttachmentRecord) :
    Except CommittedReadError CommittedBundleEntry := do
  let documentId := document.metadata.documentId
  let file ← snapshot.openRegular attachment.relativePath
  rejectIf (file.bytes.length ≠ attachment.byteLength) (.contentChanged documentId)
  let committed ← snapshot.readCommittedAttachment documentId attachment
  rejectIf (file.bytes.length ≠ committed.length ∨ x.digest file.bytes ≠ x.digest committed)
    (.contentChanged documentId)
  pure ⟨fileName attachment.relativePath, file.bytes⟩

/-- Retrieves one document and every attachment stored beside it. -/
def bundle (documentId : DocumentId) : Except CommittedReadError CommittedBundle := do
  let record ← ofOption (snapshot.index.get documentId) (.documentNotFound documentId)
  let attachments := (snapshot.index.attachmentsBeside record).mergeSort fun left right =>
    decide (left.relativePath ≤ right.relativePath)
  rejectIf (snapshot.maximumBundleEntries < attachments.length + 1)
    (.bundleEntryLimitExceeded snapshot.maximumBundleEntries)
  bundleBytes snapshot.maximumBundleBytes record.byteLength attachments
  let markdown ← snapshot.readMarkdown x record
  let entries ← attachments.mapM (snapshot.readAttachment x record)
  pure ⟨record, ⟨"index.md", markdown⟩ :: entries⟩

end CommittedSnapshot

/-! ### Pinned snapshots -/

section Pinned

variable {x : Externals} {policy : ContentPolicy} {packagePolicy : PackagePolicy}
  {store : CommittedStore} {snapshot : CommittedSnapshot}

theorem snapshot_eq_ok_iff :
    store.snapshot x policy packagePolicy = .ok snapshot ↔
      store.worktree.files = store.committed.files ∧ store.checkedOut = store.official ∧
        ContentIndex.build x policy packagePolicy store.worktree = .ok snapshot.index ∧
        snapshot.commit = store.official ∧ snapshot.committed = store.committed ∧
        snapshot.root = store.worktree ∧
        snapshot.maximumMarkdownBytes = policy.maximumMarkdownBytes ∧
        snapshot.maximumBundleBytes = packagePolicy.limits.maximumTotalBytes ∧
        snapshot.maximumBundleEntries = packagePolicy.limits.maximumFileCount := by
  unfold CommittedStore.snapshot CommittedStore.currentCommit
  simp only [bind_eq_ok, exists_unit, rejectIf_eq_ok, mapError_eq_ok, pure_eq_ok, Except.ok.injEq,
    ne_eq, not_not]
  constructor
  · rintro ⟨commit, ⟨hclean, hcurrent, rfl⟩, index, hindex, rfl⟩
    exact ⟨hclean, hcurrent, hindex, rfl, rfl, rfl, rfl, rfl, rfl⟩
  · rintro ⟨hclean, hcurrent, hindex, hcommit, hcommitted, hroot, hmarkdown, hbytes, hentries⟩
    refine ⟨_, ⟨hclean, hcurrent, rfl⟩, _, hindex, ?_⟩
    rw [← hcommit, ← hcommitted, ← hroot, ← hmarkdown, ← hbytes, ← hentries]

theorem length_documents_le {tree : ContentTree} {index : ContentIndex}
    (h : ContentIndex.build x policy packagePolicy tree = .ok index) :
    index.documents.length ≤ policy.maximumEntryCount := by
  obtain ⟨hcount, -, rfl⟩ := build_eq_ok_iff.1 h
  calc (documentsOf x policy (filesAmong tree tree.walk)).length
      ≤ (filesAmong tree tree.walk).length := List.length_filterMap_le _ _
    _ ≤ tree.walk.length := List.length_filterMap_le _ _
    _ = tree.entryCount := tree.length_walk
    _ ≤ policy.maximumEntryCount := hcount

end Pinned

/-! ### Listings -/

section Listings

variable {snapshot : CommittedSnapshot} {filter : ReadFilter} {maximum : Nat}
  {records : List DocumentRecord}

theorem mem_selected {record : DocumentRecord} :
    record ∈ snapshot.selected filter ↔
      record ∈ snapshot.index.documents ∧ filter.matchesDocument record := by
  simp [CommittedSnapshot.selected]

theorem mem_list (h : snapshot.list filter maximum = .ok records) {record : DocumentRecord}
    (hrecord : record ∈ records) : record ∈ snapshot.selected filter := by
  unfold CommittedSnapshot.list at h
  simp only [bind_eq_ok, exists_unit, pure_eq_ok, Except.ok.injEq] at h
  obtain ⟨-, rfl⟩ := h
  exact (List.mergeSort_perm _ _).mem_iff.1 (List.mem_of_mem_take hrecord)

theorem mem_recent (h : snapshot.recent filter maximum = .ok records) {record : DocumentRecord}
    (hrecord : record ∈ records) : record ∈ snapshot.selected filter := by
  unfold CommittedSnapshot.recent at h
  simp only [bind_eq_ok, exists_unit, pure_eq_ok, Except.ok.injEq] at h
  obtain ⟨-, rfl⟩ := h
  exact (List.mergeSort_perm _ _).mem_iff.1 (List.mem_of_mem_take hrecord)

/-- A listing that may hold the whole index leaves nothing out. -/
theorem list_perm (h : snapshot.list filter maximum = .ok records)
    (hmaximum : snapshot.index.documents.length ≤ maximum) :
    records.Perm (snapshot.selected filter) := by
  unfold CommittedSnapshot.list at h
  simp only [bind_eq_ok, exists_unit, pure_eq_ok, Except.ok.injEq] at h
  obtain ⟨-, rfl⟩ := h
  have hlength : ((snapshot.selected filter).mergeSort fun left right =>
      decide (left.relativePath ≤ right.relativePath)).length ≤ maximum := by
    rw [List.length_mergeSort]
    exact (List.length_filter_le _ _).trans hmaximum
  rw [List.take_of_length_le hlength]
  exact List.mergeSort_perm _ _

end Listings

/-! ### Exported bundles -/

section Bundles

variable {x : Externals} {policy : ContentPolicy} {packagePolicy : PackagePolicy}
  {store : CommittedStore} {snapshot : CommittedSnapshot} {documentId : DocumentId}
  {record : DocumentRecord}

/-- The order of the attachments does not matter: only their sum can pass the limit. -/
theorem bundleBytes_eq_ok_iff {maximum total : Nat} {attachments : List AttachmentRecord} :
    bundleBytes maximum total attachments = .ok () ↔
      (attachments ≠ [] → total + (attachments.map AttachmentRecord.byteLength).sum ≤ maximum) := by
  induction attachments generalizing total with
  | nil => simp [bundleBytes]
  | cons attachment rest ih =>
      simp only [bundleBytes, ne_eq, reduceCtorEq, not_false_eq_true, forall_const, List.map_cons,
        List.sum_cons]
      split
      · simp only [reduceCtorEq, false_iff]
        omega
      · rw [ih]
        cases rest with
        | nil =>
            simp only [ne_eq, not_true_eq_false, false_implies, List.map_nil, List.sum_nil,
              true_iff]
            omega
        | cons => simp [Nat.add_assoc]

/-- A file of the pinned worktree that the index accepted opens as it is. -/
theorem openRegular_of_plain {path : RelPath} {leaf : ContentLeaf}
    (hfile : snapshot.root.node path = some (.file leaf)) (hplain : leaf.kind = .plain) :
    snapshot.openRegular path = .ok leaf := by
  simp [CommittedSnapshot.openRegular, FileTree.fileAt_eq_some_iff.2 hfile, hplain]

/-- An indexed document can always be read. -/
theorem readMarkdown_of_mem (h : store.snapshot x policy packagePolicy = .ok snapshot)
    (hrecord : record ∈ snapshot.index.documents) :
    ∃ markdown, snapshot.readMarkdown x record = .ok markdown := by
  obtain ⟨-, -, hindexed, -, -, hroot, hmaximum, -, -⟩ := snapshot_eq_ok_iff.1 h
  rw [← hroot] at hindexed
  obtain ⟨leaf, hfile, hmd, hfrom⟩ := (mem_documents_iff hindexed).1 hrecord
  obtain ⟨hplain, hvalid⟩ := file_of_build hindexed hfile
  simp only [hmd, if_true] at hvalid
  obtain ⟨-, -, -, -, -, -, hrevision, -⟩ := fromMarkdown_eq_ok_iff.1 hfrom
  refine ⟨leaf.bytes, ?_⟩
  simp [CommittedSnapshot.readMarkdown, openRegular_of_plain hfile hplain, hmaximum, hvalid.1,
    Nat.not_lt.2, hrevision]

theorem mem_attachments_iff {tree : ContentTree} {index : ContentIndex}
    (h : ContentIndex.build x policy packagePolicy tree = .ok index)
    {attachment : AttachmentRecord} :
    attachment ∈ index.attachments ↔
      ∃ leaf, tree.node attachment.relativePath = some (.file leaf) ∧
        ¬ isMarkdown attachment.relativePath ∧ attachment.byteLength = leaf.bytes.length := by
  obtain ⟨-, -, rfl⟩ := build_eq_ok_iff.1 h
  simp only [indexOf, attachmentsOf, ((filesAmong_walk_perm tree).filterMap _).mem_iff,
    List.mem_filterMap, Prod.exists, FileTree.mem_files, attachmentOf]
  constructor
  · rintro ⟨path, leaf, hfile, hattachment⟩
    split at hattachment
    · cases hattachment
    · rename_i hmd
      cases hattachment
      exact ⟨leaf, hfile, hmd, rfl⟩
  · rintro ⟨leaf, hfile, hmd, hlength⟩
    refine ⟨attachment.relativePath, leaf, hfile, ?_⟩
    rw [if_neg hmd, ← hlength]

/-- An indexed attachment can always be read. -/
theorem readAttachment_of_mem (h : store.snapshot x policy packagePolicy = .ok snapshot)
    {attachment : AttachmentRecord} (hattachment : attachment ∈ snapshot.index.attachments) :
    ∃ entry, snapshot.readAttachment x record attachment = .ok entry := by
  obtain ⟨hclean, -, hindexed, -, hcommitted, hroot, -, -, -⟩ := snapshot_eq_ok_iff.1 h
  rw [← hroot] at hindexed hclean
  obtain ⟨leaf, hfile, -, hlength⟩ := (mem_attachments_iff hindexed).1 hattachment
  have hsame : snapshot.committed.fileAt attachment.relativePath = some leaf := by
    rw [FileTree.fileAt_eq_some_iff, ← FileTree.mem_files, hcommitted, ← hclean,
      FileTree.mem_files]
    exact hfile
  refine ⟨⟨fileName attachment.relativePath, leaf.bytes⟩, ?_⟩
  simp [CommittedSnapshot.readAttachment, CommittedSnapshot.readCommittedAttachment,
    openRegular_of_plain hfile (file_of_build hindexed hfile).1, hlength, hsame]

/-- A document is exported iff its bundle fits the package limits. -/
theorem bundle_eq_ok_iff (h : store.snapshot x policy packagePolicy = .ok snapshot)
    (hrecord : snapshot.index.get documentId = some record) :
    (∃ bundle, snapshot.bundle x documentId = .ok bundle) ↔
      (snapshot.index.attachmentsBeside record).length + 1 ≤
          packagePolicy.limits.maximumFileCount ∧
        (snapshot.index.attachmentsBeside record ≠ [] →
          record.byteLength +
              ((snapshot.index.attachmentsBeside record).map AttachmentRecord.byteLength).sum ≤
            packagePolicy.limits.maximumTotalBytes) := by
  obtain ⟨-, -, hindexed, -, -, -, -, hbytes, hentries⟩ := snapshot_eq_ok_iff.1 h
  obtain ⟨markdown, hmarkdown⟩ := readMarkdown_of_mem h ((get_eq_some_iff hindexed).1 hrecord).1
  -- The attachments are counted and read in path order.
  have hsorted := List.mergeSort_perm (snapshot.index.attachmentsBeside record)
    fun left right => decide (left.relativePath ≤ right.relativePath)
  have hnil : (snapshot.index.attachmentsBeside record).mergeSort
      (fun left right => decide (left.relativePath ≤ right.relativePath)) = [] ↔
      snapshot.index.attachmentsBeside record = [] := by
    rw [← List.length_eq_zero_iff, hsorted.length_eq, List.length_eq_zero_iff]
  obtain ⟨entries, hread⟩ := exists_mapM_eq_ok (f := snapshot.readAttachment x record)
    fun attachment hmem => readAttachment_of_mem h
      (List.mem_of_mem_filter (hsorted.mem_iff.1 hmem))
  unfold CommittedSnapshot.bundle
  simp only [hrecord, ofOption_some, ok_bind, bind_eq_ok, exists_unit, rejectIf_eq_ok,
    bundleBytes_eq_ok_iff, hmarkdown, hread, pure_eq_ok, Except.ok.injEq, hentries, hbytes,
    Nat.not_lt, hsorted.length_eq, (hsorted.map AttachmentRecord.byteLength).sum_nat,
    ne_eq, hnil]
  exact ⟨fun ⟨_, hcount, hsum, _⟩ => ⟨hcount, hsum⟩,
    fun ⟨hcount, hsum⟩ => ⟨_, hcount, hsum, rfl⟩⟩

end Bundles

end AgentKnowledge
