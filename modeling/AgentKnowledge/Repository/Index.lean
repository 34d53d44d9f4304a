import AgentKnowledge.Lib.Results
import AgentKnowledge.Queue.Package
import AgentKnowledge.Repository.Layout

/-!
The content index (`crates/repository/src/index.rs`).

`ContentIndex.build` walks a content tree in the source's order and stops at the
first entry it must reject. What it accepts does not depend on that order:

* `build_eq_ok_iff`: a tree is indexed iff its files are valid (`FilesValid`, a
  statement about the files only) and its entries fit the entry limit;
* `build_of_filesValid`: with valid files the entry limit is the only possible
  refusal;
* `IndexOf` collects what later modules use: which documents and attachments the
  index of an accepted tree holds.
-/

namespace AgentKnowledge

open Results

/-- What stands at a path that is not a directory. -/
inductive LeafKind where
  | plain
  | executable
  | hardLinked
  | special
deriving DecidableEq, Repr

/-- A file of a content tree: its bytes, and whether it is a regular file with
safe attributes. -/
structure ContentLeaf where
  bytes : Bytes
  kind : LeafKind
deriving DecidableEq, Repr

/-- A content tree below its root. The `.git` entry of a worktree, which every
scan skips, is not part of it. -/
abbrev ContentTree := FileTree ContentLeaf

/-- Limits used while indexing one committed content tree. -/
structure ContentPolicy where
  maximumEntryCount : Nat := 1000000
  maximumMarkdownBytes : Nat := 32 * 1024 * 1024
  maximumTotalMarkdownBytes : Nat := 8 * 1024 * 1024 * 1024
  maximumFrontMatterBytes : Nat := 64 * 1024
  document : DocumentLimits := {}
deriving DecidableEq, Repr

/-- A canonical content hierarchy or index construction failure. -/
inductive ContentIndexError where
  | io
  | invalidDocumentPath (path : RelPath)
  | invalidEntryType (path : RelPath)
  | executableFile (path : RelPath)
  | hardLinkedFile (path : RelPath)
  | unsupportedAttachment (path : RelPath)
  | invalidAttachmentPath (path : RelPath)
  | attachmentTooLarge (path : RelPath) (maximum actual : Nat)
  | orphanAttachment (path : RelPath)
  | archiveStatusMismatch (path : RelPath)
  | entryLimitExceeded (maximum : Nat)
  | markdownTooLarge (path : RelPath) (maximum actual : Nat)
  | markdownByteLimitExceeded (maximum : Nat)
  | invalidDocument (path : RelPath) (source : DocumentParseError)
  | invalidMetadata (path : RelPath) (source : DocumentValidationError)
  | duplicateDocumentId (documentId : DocumentId) (firstPath secondPath : RelPath)
deriving DecidableEq

/-- Indexed identity and revision for one canonical Markdown document. -/
structure DocumentRecord where
  relativePath : RelPath
  location : DocumentLocation
  metadata : DocumentMetadata
  revision : Revision
  byteLength : Nat
deriving DecidableEq

/-- Indexed path and length for one validated attachment. -/
structure AttachmentRecord where
  relativePath : RelPath
  byteLength : Nat
deriving DecidableEq

def DocumentRecord.fromMarkdown (x : Externals) (policy : ContentPolicy) (path : RelPath)
    (bytes : Bytes) : Except ContentIndexError DocumentRecord := do
  let document ← (decodeDocumentMetadata x bytes policy.maximumFrontMatterBytes).mapError
    (ContentIndexError.invalidDocument path)
  let location ← ofOption (classifyDocumentPath path) (.invalidDocumentPath path)
  rejectIf (path ≠ canonicalDocumentPath location document.created document.documentId)
    (.invalidDocumentPath path)
  rejectIf (location.archived ≠ (document.status == .archived)) (.archiveStatusMismatch path)
  (document.validate location.documentType policy.document).mapError
    (ContentIndexError.invalidMetadata path)
  pure {
    relativePath := path
    location
    metadata := document
    revision := x.digest bytes
    byteLength := bytes.length }

/-- A complete identity index for one content tree. -/
structure ContentIndex where
  documents : List DocumentRecord
  attachments : List AttachmentRecord
deriving DecidableEq

/-- The uniquely indexed document, if present. -/
def ContentIndex.get (index : ContentIndex) (documentId : DocumentId) : Option DocumentRecord :=
  index.documents.find? fun record => record.metadata.documentId == documentId

def isMarkdown (path : RelPath) : Bool := fileExtension (fileName path) == some "md"

/-- The running totals of a scan. -/
structure ScanState where
  documents : List DocumentRecord := []
  attachments : List AttachmentRecord := []
  entryCount : Nat := 0
  markdownBytes : Nat := 0

section Build

variable (x : Externals) (policy : ContentPolicy) (packagePolicy : PackagePolicy)

/-- A file that is neither a directory nor a plain regular file is refused. -/
def validateRegularFileMetadata (path : RelPath) (leaf : ContentLeaf) : Except ContentIndexError Unit :=
  match leaf.kind with
  | .special => .error (.invalidEntryType path)
  | .executable => .error (.executableFile path)
  | .hardLinked => .error (.hardLinkedFile path)
  | .plain => .ok ()

def scanAttachment (path : RelPath) (leaf : ContentLeaf) (state : ScanState) :
    Except ContentIndexError ScanState :=
  let maximum := packagePolicy.limits.maximumFileBytes
  if maximum < leaf.bytes.length then
    .error (.attachmentTooLarge path maximum leaf.bytes.length)
  else if ¬ packagePolicy.allowsAttachmentName (fileName path) then
    .error (.unsupportedAttachment path)
  else .ok { state with attachments := state.attachments ++ [⟨path, leaf.bytes.length⟩] }

def scanMarkdown (path : RelPath) (leaf : ContentLeaf) (state : ScanState) :
    Except ContentIndexError ScanState := do
  rejectIf (policy.maximumMarkdownBytes < leaf.bytes.length)
    (.markdownTooLarge path policy.maximumMarkdownBytes leaf.bytes.length)
  rejectIf (policy.maximumTotalMarkdownBytes - state.markdownBytes < leaf.bytes.length)
    (.markdownByteLimitExceeded policy.maximumTotalMarkdownBytes)
  let record ← DocumentRecord.fromMarkdown x policy path leaf.bytes
  match state.documents.find? fun existing =>
      existing.metadata.documentId == record.metadata.documentId with
  | some existing =>
      .error (.duplicateDocumentId record.metadata.documentId existing.relativePath path)
  | none =>
      pure { state with
        documents := state.documents ++ [record]
        markdownBytes := state.markdownBytes + leaf.bytes.length }

def scanFile (path : RelPath) (leaf : ContentLeaf) (state : ScanState) :
    Except ContentIndexError ScanState := do
  validateRegularFileMetadata path leaf
  if isMarkdown path then scanMarkdown x policy path leaf state
  else scanAttachment packagePolicy path leaf state

/-- One entry of a directory. A directory found here is scanned in its own turn. -/
def scanEntry (tree : ContentTree) (state : ScanState) (path : RelPath) :
    Except ContentIndexError ScanState :=
  let counted := { state with entryCount := state.entryCount + 1 }
  if policy.maximumEntryCount < counted.entryCount then
    .error (.entryLimitExceeded policy.maximumEntryCount)
  else
    match tree.fileAt path with
    | none => .ok counted
    | some leaf => scanFile x policy packagePolicy path leaf counted

/-- One directory: its entries must fit what is left of the limit. -/
def scanDirectory (tree : ContentTree) (state : ScanState) (directory : RelPath) :
    Except ContentIndexError ScanState :=
  if policy.maximumEntryCount - state.entryCount < (tree.childPaths directory).length then
    .error (.entryLimitExceeded policy.maximumEntryCount)
  else (tree.childPaths directory).foldlM (scanEntry x policy packagePolicy tree) state

/-- `projects/<project>/assets/…` with visible names. -/
def isProjectAsset (path : RelPath) : Bool :=
  match path with
  | "projects" :: project :: "assets" :: rest =>
      !rest.isEmpty && rest.length ≤ packagePolicy.limits.maximumPathComponents &&
        (validateProjectId project).isOk &&
        rest.all (fun component => (validateAttachmentName component).isOk) &&
        (validateRelativePath (String.intercalate "/" rest)).isOk
  | _ => false

def validateAttachmentLocation (documents : List DocumentRecord) (attachment : AttachmentRecord) :
    Except ContentIndexError Unit :=
  let path := attachment.relativePath
  if ¬ (validateAttachmentName (fileName path)).isOk then .error (.invalidAttachmentPath path)
  else if ¬ documents.any (fun document => document.relativePath.dropLast == path.dropLast) ∧
      ¬ isProjectAsset packagePolicy path then
    .error (.orphanAttachment path)
  else .ok ()

/-- Build an index while rejecting unsafe entries and duplicate identities. -/
def ContentIndex.build (tree : ContentTree) : Except ContentIndexError ContentIndex := do
  let state ← tree.directories.foldlM (scanDirectory x policy packagePolicy tree) {}
  state.attachments.forM (validateAttachmentLocation packagePolicy state.documents)
  pure ⟨state.documents, state.attachments⟩

end Build

/-! ### Valid files -/

section Valid

variable (x : Externals) (policy : ContentPolicy) (packagePolicy : PackagePolicy)

/-- The checks on one file that need no other file. -/
def fileValid (path : RelPath) (leaf : ContentLeaf) : Prop :=
  leaf.kind = .plain ∧
    if isMarkdown path then
      leaf.bytes.length ≤ policy.maximumMarkdownBytes ∧
        ∃ record, DocumentRecord.fromMarkdown x policy path leaf.bytes = .ok record
    else
      leaf.bytes.length ≤ packagePolicy.limits.maximumFileBytes ∧
        packagePolicy.allowsAttachmentName (fileName path)

/-- The record of a Markdown file that decodes. -/
def recordOf (file : RelPath × ContentLeaf) : Option DocumentRecord :=
  if isMarkdown file.1 then (DocumentRecord.fromMarkdown x policy file.1 file.2.bytes).toOption
  else none

def documentsOf (files : List (RelPath × ContentLeaf)) : List DocumentRecord :=
  files.filterMap (recordOf x policy)

def attachmentOf (file : RelPath × ContentLeaf) : Option AttachmentRecord :=
  if isMarkdown file.1 then none else some ⟨file.1, file.2.bytes.length⟩

def attachmentsOf (files : List (RelPath × ContentLeaf)) : List AttachmentRecord :=
  files.filterMap attachmentOf

def markdownLength (file : RelPath × ContentLeaf) : Nat :=
  if isMarkdown file.1 then file.2.bytes.length else 0

def markdownTotal (files : List (RelPath × ContentLeaf)) : Nat :=
  (files.map markdownLength).sum

/-- The files of a tree the index accepts, whatever directories stand around them. -/
structure FilesValid (files : List (RelPath × ContentLeaf)) : Prop where
  each : ∀ file ∈ files, fileValid x policy packagePolicy file.1 file.2
  total : markdownTotal files ≤ policy.maximumTotalMarkdownBytes
  distinct : ((documentsOf x policy files).map fun record => record.metadata.documentId).Nodup
  located : ∀ attachment ∈ attachmentsOf files,
    validateAttachmentLocation packagePolicy (documentsOf x policy files) attachment = .ok ()

/-- The state of a scan after some more files among `count` more entries. -/
def ScanState.after (state : ScanState) (files : List (RelPath × ContentLeaf)) (count : Nat) :
    ScanState where
  documents := state.documents ++ documentsOf x policy files
  attachments := state.attachments ++ attachmentsOf files
  entryCount := state.entryCount + count
  markdownBytes := state.markdownBytes + markdownTotal files

/-- The files fit a scan that has got as far as `state`. -/
structure ScanState.Fits (state : ScanState) (files : List (RelPath × ContentLeaf)) : Prop where
  each : ∀ file ∈ files, fileValid x policy packagePolicy file.1 file.2
  total : state.markdownBytes + markdownTotal files ≤ policy.maximumTotalMarkdownBytes
  distinct : ((state.documents ++ documentsOf x policy files).map
    fun record => record.metadata.documentId).Nodup

variable {x policy packagePolicy}

theorem validateRegularFileMetadata_eq_ok {path : RelPath} {leaf : ContentLeaf} :
    validateRegularFileMetadata path leaf = .ok () ↔ leaf.kind = .plain := by
  unfold validateRegularFileMetadata
  split <;> simp_all

theorem scanAttachment_eq_ok {path : RelPath} {leaf : ContentLeaf} {state state' : ScanState} :
    scanAttachment packagePolicy path leaf state = .ok state' ↔
      leaf.bytes.length ≤ packagePolicy.limits.maximumFileBytes ∧
        packagePolicy.allowsAttachmentName (fileName path) ∧
        state' = { state with
          attachments := state.attachments ++ [⟨path, leaf.bytes.length⟩] } := by
  unfold scanAttachment
  by_cases hsize : packagePolicy.limits.maximumFileBytes < leaf.bytes.length
  · simp [hsize, Nat.not_le.2 hsize]
  · by_cases hname : packagePolicy.allowsAttachmentName (fileName path)
    · simp [hsize, Nat.not_lt.1 hsize, hname, eq_comm]
    · simp [hsize, hname]

theorem scanMarkdown_eq_ok {path : RelPath} {leaf : ContentLeaf} {state state' : ScanState} :
    scanMarkdown x policy path leaf state = .ok state' ↔
      leaf.bytes.length ≤ policy.maximumMarkdownBytes ∧
        leaf.bytes.length ≤ policy.maximumTotalMarkdownBytes - state.markdownBytes ∧
        ∃ record, DocumentRecord.fromMarkdown x policy path leaf.bytes = .ok record ∧
          (∀ existing ∈ state.documents,
            existing.metadata.documentId ≠ record.metadata.documentId) ∧
          state' = { state with
            documents := state.documents ++ [record]
            markdownBytes := state.markdownBytes + leaf.bytes.length } := by
  unfold scanMarkdown
  simp only [bind_eq_ok, exists_unit, rejectIf_eq_ok, Nat.not_lt]
  refine and_congr_right fun _ => and_congr_right fun _ => ?_
  refine exists_congr fun record => and_congr_right fun _ => ?_
  cases hfind : state.documents.find? fun existing =>
      existing.metadata.documentId == record.metadata.documentId with
  | none =>
      rw [List.find?_eq_none] at hfind
      simp only [beq_iff_eq] at hfind
      simp only [pure_eq_ok, Except.ok.injEq]
      exact ⟨fun h => ⟨hfind, h.symm⟩, fun h => h.2.symm⟩
  | some existing =>
      have hid : existing.metadata.documentId = record.metadata.documentId := by
        simpa using List.find?_some hfind
      have hmem := List.mem_of_find?_eq_some hfind
      simp only [reduceCtorEq, false_iff]
      rintro ⟨hfresh, -⟩
      exact hfresh existing hmem hid

theorem ScanState.fits_nil {state : ScanState} (h : state.Fits x policy packagePolicy []) :
    state.markdownBytes ≤ policy.maximumTotalMarkdownBytes ∧
      (state.documents.map fun record => record.metadata.documentId).Nodup :=
  ⟨by simpa [markdownTotal] using h.total, by simpa [documentsOf] using h.distinct⟩

theorem recordOf_eq_some {path : RelPath} {leaf : ContentLeaf} {record : DocumentRecord} :
    recordOf x policy (path, leaf) = some record ↔
      isMarkdown path ∧ DocumentRecord.fromMarkdown x policy path leaf.bytes = .ok record := by
  unfold recordOf
  by_cases hmd : isMarkdown path
  · cases DocumentRecord.fromMarkdown x policy path leaf.bytes <;> simp [hmd, Except.toOption]
  · simp [hmd]

theorem ScanState.fits_markdown {path : RelPath} {leaf : ContentLeaf} {state : ScanState}
    (hstate : state.Fits x policy packagePolicy []) (hmd : isMarkdown path)
    {record : DocumentRecord}
    (hrecord : DocumentRecord.fromMarkdown x policy path leaf.bytes = .ok record) :
    state.Fits x policy packagePolicy [(path, leaf)] ↔
      leaf.kind = .plain ∧ leaf.bytes.length ≤ policy.maximumMarkdownBytes ∧
        leaf.bytes.length ≤ policy.maximumTotalMarkdownBytes - state.markdownBytes ∧
        ∀ existing ∈ state.documents,
          existing.metadata.documentId ≠ record.metadata.documentId := by
  obtain ⟨hbytes, hnodup⟩ := ScanState.fits_nil hstate
  have hof : documentsOf x policy [(path, leaf)] = [record] := by
    simp [documentsOf, recordOf_eq_some.2 ⟨hmd, hrecord⟩]
  have htotal : markdownTotal [(path, leaf)] = leaf.bytes.length := by
    simp [markdownTotal, markdownLength, hmd]
  constructor
  · rintro ⟨heach, hsum, hdistinct⟩
    obtain ⟨hkind, hvalid⟩ := heach (path, leaf) (by simp)
    simp only [hmd, if_true] at hvalid
    rw [htotal] at hsum
    refine ⟨hkind, hvalid.1, by omega, ?_⟩
    intro existing hexisting
    rw [hof, List.map_append, List.nodup_append] at hdistinct
    exact hdistinct.2.2 _ (List.mem_map_of_mem hexisting) _ (by simp)
  · rintro ⟨hkind, hsize, hsum, hfresh⟩
    refine ⟨?_, by rw [htotal]; omega, ?_⟩
    · simpa [fileValid, hmd, hkind, hsize] using ⟨record, hrecord⟩
    · simpa [hof, List.nodup_append, hnodup] using hfresh

theorem ScanState.fits_attachment {path : RelPath} {leaf : ContentLeaf} {state : ScanState}
    (hstate : state.Fits x policy packagePolicy []) (hmd : ¬ isMarkdown path) :
    state.Fits x policy packagePolicy [(path, leaf)] ↔
      leaf.kind = .plain ∧ leaf.bytes.length ≤ packagePolicy.limits.maximumFileBytes ∧
        packagePolicy.allowsAttachmentName (fileName path) := by
  obtain ⟨hbytes, hnodup⟩ := ScanState.fits_nil hstate
  have hof : documentsOf x policy [(path, leaf)] = [] := by simp [documentsOf, recordOf, hmd]
  have htotal : markdownTotal [(path, leaf)] = 0 := by simp [markdownTotal, markdownLength, hmd]
  constructor
  · intro h
    simpa [fileValid, hmd] using h.each (path, leaf) (by simp)
  · intro h
    exact ⟨by simpa [fileValid, hmd] using h, by simpa [htotal] using hbytes,
      by simpa [hof] using hnodup⟩

theorem scanFile_eq_ok {path : RelPath} {leaf : ContentLeaf} {state state' : ScanState}
    (hstate : state.Fits x policy packagePolicy []) :
    scanFile x policy packagePolicy path leaf state = .ok state' ↔
      state.Fits x policy packagePolicy [(path, leaf)] ∧
        state' = state.after x policy [(path, leaf)] 0 := by
  unfold scanFile
  rw [bind_eq_ok, exists_unit, validateRegularFileMetadata_eq_ok]
  by_cases hmd : isMarkdown path
  · rw [if_pos hmd, scanMarkdown_eq_ok]
    have hafter : ∀ record, DocumentRecord.fromMarkdown x policy path leaf.bytes = .ok record →
        state.after x policy [(path, leaf)] 0 = { state with
          documents := state.documents ++ [record]
          markdownBytes := state.markdownBytes + leaf.bytes.length } := by
      intro record hrecord
      simp [ScanState.after, documentsOf, attachmentsOf, attachmentOf, markdownTotal,
        markdownLength, recordOf_eq_some.2 ⟨hmd, hrecord⟩, hmd]
    constructor
    · rintro ⟨hkind, hsize, hsum, record, hrecord, hfresh, rfl⟩
      exact ⟨(ScanState.fits_markdown hstate hmd hrecord).2 ⟨hkind, hsize, hsum, hfresh⟩,
        (hafter record hrecord).symm⟩
    · rintro ⟨hfits, rfl⟩
      obtain ⟨-, hvalid⟩ := hfits.each (path, leaf) (by simp)
      simp only [hmd, if_true] at hvalid
      obtain ⟨-, record, hrecord⟩ := hvalid
      obtain ⟨hkind, hsize, hsum, hfresh⟩ := (ScanState.fits_markdown hstate hmd hrecord).1 hfits
      exact ⟨hkind, hsize, hsum, record, hrecord, hfresh, hafter record hrecord⟩
  · rw [if_neg hmd, scanAttachment_eq_ok, ScanState.fits_attachment hstate hmd]
    have hafter : state.after x policy [(path, leaf)] 0 = { state with
        attachments := state.attachments ++ [⟨path, leaf.bytes.length⟩] } := by
      simp [ScanState.after, documentsOf, recordOf, attachmentsOf, attachmentOf, markdownTotal,
        markdownLength, hmd]
    rw [hafter]
    tauto

/-! ### Scanning many entries -/

theorem ScanState.fits_append {state : ScanState} {files more : List (RelPath × ContentLeaf)}
    {count : Nat} :
    state.Fits x policy packagePolicy (files ++ more) ↔
      state.Fits x policy packagePolicy files ∧
        (state.after x policy files count).Fits x policy packagePolicy more := by
  have htotal : markdownTotal (files ++ more) = markdownTotal files + markdownTotal more := by
    simp [markdownTotal]
  have hdocs : documentsOf x policy (files ++ more) =
      documentsOf x policy files ++ documentsOf x policy more := by simp [documentsOf]
  constructor
  · rintro ⟨heach, hsum, hdistinct⟩
    rw [htotal] at hsum
    rw [hdocs, ← List.append_assoc] at hdistinct
    refine ⟨⟨fun f hf => heach f (by simp [hf]), by omega, ?_⟩,
      ⟨fun f hf => heach f (by simp [hf]), ?_, hdistinct⟩⟩
    · rw [List.map_append] at hdistinct
      exact (List.nodup_append.1 hdistinct).1
    · simp only [ScanState.after]
      omega
  · rintro ⟨⟨heach, -, -⟩, ⟨heach', hsum', hdistinct'⟩⟩
    refine ⟨?_, ?_, ?_⟩
    · intro f hf
      rcases List.mem_append.1 hf with hf | hf
      · exact heach f hf
      · exact heach' f hf
    · simp only [ScanState.after] at hsum'
      omega
    · rw [hdocs, ← List.append_assoc]
      exact hdistinct'

theorem ScanState.after_append {state : ScanState} {files more : List (RelPath × ContentLeaf)}
    {count count' : Nat} :
    (state.after x policy files count).after x policy more count' =
      state.after x policy (files ++ more) (count + count') := by
  simp [ScanState.after, documentsOf, attachmentsOf, markdownTotal, Nat.add_assoc]

theorem ScanState.Fits.nil_of {state : ScanState} {files : List (RelPath × ContentLeaf)}
    (h : state.Fits x policy packagePolicy files) : state.Fits x policy packagePolicy [] := by
  obtain ⟨-, htotal, hdistinct⟩ := h
  rw [List.map_append] at hdistinct
  refine ⟨by simp, ?_, by simpa [documentsOf] using (List.nodup_append.1 hdistinct).1⟩
  simp only [markdownTotal, List.map_nil, List.sum_nil]
  omega

theorem ScanState.Fits.after_nil {state : ScanState} {files : List (RelPath × ContentLeaf)}
    (h : state.Fits x policy packagePolicy files) (count : Nat) :
    (state.after x policy files count).Fits x policy packagePolicy [] := by
  rw [← List.append_nil files] at h
  exact (ScanState.fits_append.1 h).2

/-- The files among a list of paths. -/
def filesAmong (tree : ContentTree) (paths : List RelPath) : List (RelPath × ContentLeaf) :=
  paths.filterMap fun path => (tree.fileAt path).map fun leaf => (path, leaf)

theorem scanEntry_eq_ok {tree : ContentTree} {path : RelPath} {state state' : ScanState}
    (hstate : state.Fits x policy packagePolicy []) :
    scanEntry x policy packagePolicy tree state path = .ok state' ↔
      state.entryCount + 1 ≤ policy.maximumEntryCount ∧
        state.Fits x policy packagePolicy (filesAmong tree [path]) ∧
        state' = state.after x policy (filesAmong tree [path]) 1 := by
  unfold scanEntry
  by_cases hcount : policy.maximumEntryCount < state.entryCount + 1
  · simp [hcount, Nat.not_le.2 hcount]
  · simp only [hcount, if_false, Nat.not_lt.1 hcount, true_and]
    cases hleaf : tree.fileAt path with
    | none =>
        have hfiles : filesAmong tree [path] = [] := by simp [filesAmong, hleaf]
        rw [hfiles]
        simp [hstate, ScanState.after, documentsOf, attachmentsOf, markdownTotal, eq_comm]
    | some leaf =>
        have hfiles : filesAmong tree [path] = [(path, leaf)] := by simp [filesAmong, hleaf]
        have hcounted : ScanState.Fits x policy packagePolicy
            { state with entryCount := state.entryCount + 1 } [] :=
          ⟨hstate.each, hstate.total, hstate.distinct⟩
        rw [hfiles]
        simp only [scanFile_eq_ok hcounted]
        constructor
        · rintro ⟨⟨heach, hsum, hdistinct⟩, rfl⟩
          exact ⟨⟨heach, hsum, hdistinct⟩, by simp [ScanState.after]⟩
        · rintro ⟨⟨heach, hsum, hdistinct⟩, rfl⟩
          exact ⟨⟨heach, hsum, hdistinct⟩, by simp [ScanState.after]⟩

theorem filesAmong_cons (tree : ContentTree) (path : RelPath) (paths : List RelPath) :
    filesAmong tree (path :: paths) = filesAmong tree [path] ++ filesAmong tree paths := by
  unfold filesAmong
  rw [← List.filterMap_append]
  rfl

theorem scanEntries_eq_ok {tree : ContentTree} {paths : List RelPath} {state state' : ScanState}
    (hstate : state.Fits x policy packagePolicy [])
    (hcount : state.entryCount ≤ policy.maximumEntryCount) :
    paths.foldlM (scanEntry x policy packagePolicy tree) state = .ok state' ↔
      state.entryCount + paths.length ≤ policy.maximumEntryCount ∧
        state.Fits x policy packagePolicy (filesAmong tree paths) ∧
        state' = state.after x policy (filesAmong tree paths) paths.length := by
  induction paths generalizing state with
  | nil =>
      simp [filesAmong, hcount, hstate, ScanState.after, documentsOf, attachmentsOf,
        markdownTotal, eq_comm]
  | cons path rest ih =>
      rw [foldlM_cons_eq_ok, filesAmong_cons, List.length_cons]
      constructor
      · rintro ⟨next, hnext, hrest⟩
        obtain ⟨hone, hfits, rfl⟩ := (scanEntry_eq_ok hstate).1 hnext
        obtain ⟨hmany, hmore, rfl⟩ := (ih (hfits.after_nil 1) hone).1 hrest
        simp only [ScanState.after] at hmany
        refine ⟨by omega, ScanState.fits_append.2 ⟨hfits, hmore⟩, ?_⟩
        rw [ScanState.after_append, Nat.add_comm 1]
      · rintro ⟨hlimit, hfits, rfl⟩
        obtain ⟨hone, hmore⟩ := ScanState.fits_append.1 hfits
        refine ⟨_, (scanEntry_eq_ok hstate).2 ⟨by omega, hone, rfl⟩, ?_⟩
        refine (ih hmore.nil_of ?_).2 ⟨?_, hmore, ?_⟩
        · simp only [ScanState.after]
          omega
        · simp only [ScanState.after]
          omega
        · rw [ScanState.after_append, Nat.add_comm 1]

theorem scanDirectory_eq_ok {tree : ContentTree} {directory : RelPath} {state state' : ScanState}
    (hstate : state.Fits x policy packagePolicy [])
    (hcount : state.entryCount ≤ policy.maximumEntryCount) :
    scanDirectory x policy packagePolicy tree state directory = .ok state' ↔
      state.entryCount + (tree.childPaths directory).length ≤ policy.maximumEntryCount ∧
        state.Fits x policy packagePolicy (filesAmong tree (tree.childPaths directory)) ∧
        state' = state.after x policy (filesAmong tree (tree.childPaths directory))
          (tree.childPaths directory).length := by
  unfold scanDirectory
  split
  · rename_i hlimit
    simp only [reduceCtorEq, false_iff]
    rintro ⟨hle, -⟩
    omega
  · exact scanEntries_eq_ok hstate hcount

theorem scanDirectories_eq_ok {tree : ContentTree} {directories : List RelPath}
    {state state' : ScanState} (hstate : state.Fits x policy packagePolicy [])
    (hcount : state.entryCount ≤ policy.maximumEntryCount) :
    directories.foldlM (scanDirectory x policy packagePolicy tree) state = .ok state' ↔
      state.entryCount + (directories.flatMap tree.childPaths).length ≤
          policy.maximumEntryCount ∧
        state.Fits x policy packagePolicy
          (filesAmong tree (directories.flatMap tree.childPaths)) ∧
        state' = state.after x policy (filesAmong tree (directories.flatMap tree.childPaths))
          (directories.flatMap tree.childPaths).length := by
  induction directories generalizing state with
  | nil =>
      simp [filesAmong, hcount, hstate, ScanState.after, documentsOf, attachmentsOf,
        markdownTotal, eq_comm]
  | cons directory rest ih =>
      have hsplit : filesAmong tree ((directory :: rest).flatMap tree.childPaths) =
          filesAmong tree (tree.childPaths directory) ++
            filesAmong tree (rest.flatMap tree.childPaths) := by
        simp [filesAmong]
      rw [foldlM_cons_eq_ok, hsplit, List.flatMap_cons, List.length_append]
      constructor
      · rintro ⟨next, hnext, hrest⟩
        obtain ⟨hone, hfits, rfl⟩ := (scanDirectory_eq_ok hstate hcount).1 hnext
        obtain ⟨hmany, hmore, rfl⟩ := (ih (hfits.after_nil _) hone).1 hrest
        simp only [ScanState.after] at hmany
        exact ⟨by omega, ScanState.fits_append.2 ⟨hfits, hmore⟩, ScanState.after_append⟩
      · rintro ⟨hlimit, hfits, rfl⟩
        obtain ⟨hone, hmore⟩ := ScanState.fits_append.1 hfits
        refine ⟨_, (scanDirectory_eq_ok hstate hcount).2 ⟨by omega, hone, rfl⟩, ?_⟩
        refine (ih hmore.nil_of ?_).2 ⟨?_, hmore, ScanState.after_append.symm⟩
        · simp only [ScanState.after]
          omega
        · simp only [ScanState.after]
          omega

/-! ### What the index accepts and holds -/

theorem mem_filesAmong {tree : ContentTree} {paths : List RelPath} {path : RelPath}
    {leaf : ContentLeaf} :
    (path, leaf) ∈ filesAmong tree paths ↔ path ∈ paths ∧ tree.fileAt path = some leaf := by
  simp only [filesAmong, List.mem_filterMap, Option.map_eq_some_iff, Prod.mk.injEq]
  constructor
  · rintro ⟨p, hp, l, hl, rfl, rfl⟩
    exact ⟨hp, hl⟩
  · rintro ⟨hp, hl⟩
    exact ⟨path, hp, leaf, hl, rfl, rfl⟩

theorem filesAmong_walk_perm (tree : ContentTree) :
    (filesAmong tree tree.walk).Perm tree.files := by
  have hnodup : (filesAmong tree tree.walk).Nodup := by
    refine tree.nodup_walk.filterMap ?_
    rintro a b ⟨p, leaf⟩ ha hb
    simp only [Option.mem_def, Option.map_eq_some_iff, Prod.mk.injEq] at ha hb
    obtain ⟨-, -, rfl, -⟩ := ha
    obtain ⟨-, -, rfl, -⟩ := hb
    rfl
  rw [List.perm_ext_iff_of_nodup hnodup tree.nodup_files]
  rintro ⟨path, leaf⟩
  rw [mem_filesAmong, FileTree.mem_walk, FileTree.mem_files, FileTree.fileAt_eq_some_iff]
  refine ⟨fun h => h.2, fun h => ⟨⟨?_, by simp [h]⟩, h⟩⟩
  rintro rfl
  simp at h

/-- The order in which files are met does not matter. -/
theorem FilesValid.perm {files files' : List (RelPath × ContentLeaf)} (hperm : files.Perm files')
    (h : FilesValid x policy packagePolicy files) : FilesValid x policy packagePolicy files' := by
  have hdocs : (documentsOf x policy files).Perm (documentsOf x policy files') :=
    hperm.filterMap _
  refine ⟨fun f hf => h.each f (hperm.mem_iff.2 hf), ?_, ?_, ?_⟩
  · rw [markdownTotal, ← (hperm.map markdownLength).sum_nat]
    exact h.total
  · exact (hdocs.map _).nodup_iff.1 h.distinct
  · intro attachment hattachment
    have hmem : attachment ∈ attachmentsOf files :=
      (hperm.filterMap attachmentOf).mem_iff.2 hattachment
    have hany : ∀ p : DocumentRecord → Bool,
        (documentsOf x policy files').any p = (documentsOf x policy files).any p := by
      intro p
      rw [Bool.eq_iff_iff, List.any_eq_true, List.any_eq_true]
      simp only [hdocs.mem_iff]
    have := h.located attachment hmem
    unfold validateAttachmentLocation at this ⊢
    simpa only [hany] using this

theorem fits_and_located_iff {files : List (RelPath × ContentLeaf)} :
    (ScanState.Fits x policy packagePolicy {} files ∧
      ∀ attachment ∈ attachmentsOf files,
        validateAttachmentLocation packagePolicy (documentsOf x policy files) attachment = .ok ()) ↔
      FilesValid x policy packagePolicy files := by
  constructor
  · rintro ⟨⟨heach, htotal, hdistinct⟩, hlocated⟩
    exact ⟨heach, by simpa using htotal, by simpa using hdistinct, hlocated⟩
  · rintro ⟨heach, htotal, hdistinct, hlocated⟩
    exact ⟨⟨heach, by simpa using htotal, by simpa using hdistinct⟩, hlocated⟩

/-- The index of a tree, if the tree is accepted. -/
def indexOf (x : Externals) (policy : ContentPolicy) (tree : ContentTree) : ContentIndex where
  documents := documentsOf x policy (filesAmong tree tree.walk)
  attachments := attachmentsOf (filesAmong tree tree.walk)

theorem build_eq_ok_iff {tree : ContentTree} {index : ContentIndex} :
    ContentIndex.build x policy packagePolicy tree = .ok index ↔
      tree.entryCount ≤ policy.maximumEntryCount ∧
        FilesValid x policy packagePolicy tree.files ∧ index = indexOf x policy tree := by
  have hstart : ScanState.Fits x policy packagePolicy {} [] :=
    ⟨by simp, by simp [markdownTotal], by simp [documentsOf]⟩
  have hvalid : FilesValid x policy packagePolicy (filesAmong tree tree.walk) ↔
      FilesValid x policy packagePolicy tree.files :=
    ⟨FilesValid.perm (filesAmong_walk_perm tree), FilesValid.perm (filesAmong_walk_perm tree).symm⟩
  have hlength : (tree.directories.flatMap tree.childPaths).length = tree.entryCount :=
    tree.length_walk
  unfold ContentIndex.build
  rw [bind_eq_ok, ← hvalid, ← fits_and_located_iff]
  simp only [scanDirectories_eq_ok hstart (Nat.zero_le _), bind_eq_ok, exists_unit,
    forM_eq_ok, pure_eq_ok, Except.ok.injEq, hlength, Nat.zero_add]
  constructor
  · rintro ⟨state, ⟨hcount, hfits, rfl⟩, hlocated, rfl⟩
    exact ⟨hcount, ⟨hfits, by simpa [ScanState.after, FileTree.walk] using hlocated⟩,
      by simp [ScanState.after, indexOf, FileTree.walk]⟩
  · rintro ⟨hcount, ⟨hfits, hlocated⟩, rfl⟩
    exact ⟨_, ⟨hcount, hfits, rfl⟩, by simpa [ScanState.after, FileTree.walk] using hlocated,
      by simp [ScanState.after, indexOf, FileTree.walk]⟩

theorem fromMarkdown_eq_ok_iff {path : RelPath} {bytes : Bytes} {record : DocumentRecord} :
    DocumentRecord.fromMarkdown x policy path bytes = .ok record ↔
      decodeDocumentMetadata x bytes policy.maximumFrontMatterBytes = .ok record.metadata ∧
        classifyDocumentPath path = some record.location ∧
        path = canonicalDocumentPath record.location record.metadata.created
          record.metadata.documentId ∧
        record.location.archived = (record.metadata.status == .archived) ∧
        record.metadata.validate record.location.documentType policy.document = .ok () ∧
        record.relativePath = path ∧ record.revision = x.digest bytes ∧
        record.byteLength = bytes.length := by
  unfold DocumentRecord.fromMarkdown
  simp only [bind_eq_ok, exists_unit, mapError_eq_ok, ofOption_eq_ok, rejectIf_eq_ok,
    pure_eq_ok, Except.ok.injEq, ne_eq, not_not]
  constructor
  · rintro ⟨metadata, hdecode, location, hlocation, hpath, harchived, hvalid, rfl⟩
    exact ⟨hdecode, hlocation, hpath, harchived, hvalid, rfl, rfl, rfl⟩
  · rintro ⟨hdecode, hlocation, hpath, harchived, hvalid, hrelative, hrevision, hlength⟩
    refine ⟨_, hdecode, _, hlocation, hpath, harchived, hvalid, ?_⟩
    rw [← hrelative, ← hrevision, ← hlength]

/-- What stands at the path of a file of an accepted tree. -/
theorem file_of_build {tree : ContentTree} {index : ContentIndex}
    (h : ContentIndex.build x policy packagePolicy tree = .ok index) {path : RelPath}
    {leaf : ContentLeaf} (hfile : tree.node path = some (.file leaf)) :
    fileValid x policy packagePolicy path leaf :=
  (build_eq_ok_iff.1 h).2.1.each (path, leaf) (FileTree.mem_files.2 hfile)

theorem mem_documents_iff {tree : ContentTree} {index : ContentIndex}
    (h : ContentIndex.build x policy packagePolicy tree = .ok index) {record : DocumentRecord} :
    record ∈ index.documents ↔
      ∃ leaf, tree.node record.relativePath = some (.file leaf) ∧ isMarkdown record.relativePath ∧
        DocumentRecord.fromMarkdown x policy record.relativePath leaf.bytes = .ok record := by
  obtain ⟨-, -, rfl⟩ := build_eq_ok_iff.1 h
  simp only [indexOf, documentsOf, ((filesAmong_walk_perm tree).filterMap _).mem_iff,
    List.mem_filterMap, Prod.exists, FileTree.mem_files, recordOf_eq_some]
  constructor
  · rintro ⟨path, leaf, hfile, hmd, hrecord⟩
    obtain ⟨-, -, -, -, -, rfl, -, -⟩ := fromMarkdown_eq_ok_iff.1 hrecord
    exact ⟨leaf, hfile, hmd, hrecord⟩
  · rintro ⟨leaf, hfile, hmd, hrecord⟩
    exact ⟨_, leaf, hfile, hmd, hrecord⟩

theorem nodup_documents {tree : ContentTree} {index : ContentIndex}
    (h : ContentIndex.build x policy packagePolicy tree = .ok index) :
    (index.documents.map fun record => record.metadata.documentId).Nodup := by
  obtain ⟨-, hvalid, rfl⟩ := build_eq_ok_iff.1 h
  exact (hvalid.perm (filesAmong_walk_perm tree).symm).distinct

/-- The index finds a document by its identity, which no other document has. -/
theorem get_eq_some_iff {tree : ContentTree} {index : ContentIndex}
    (h : ContentIndex.build x policy packagePolicy tree = .ok index) {documentId : DocumentId}
    {record : DocumentRecord} :
    index.get documentId = some record ↔
      record ∈ index.documents ∧ record.metadata.documentId = documentId := by
  constructor
  · intro hget
    exact ⟨List.mem_of_find?_eq_some hget, by simpa using List.find?_some hget⟩
  · rintro ⟨hmem, rfl⟩
    obtain ⟨found, hfound⟩ : ∃ found, index.get record.metadata.documentId = some found := by
      refine Option.isSome_iff_exists.1 (List.find?_isSome.2 ⟨record, hmem, ?_⟩)
      simp
    have hid : found.metadata.documentId = record.metadata.documentId := by
      simpa using List.find?_some hfound
    have heq := List.inj_on_of_nodup_map (nodup_documents h)
      (List.mem_of_find?_eq_some hfound) hmem hid
    rw [hfound, heq]

/-- The record of an indexed document is made from the file at its path. -/
theorem file_of_get {tree : ContentTree} {index : ContentIndex}
    (h : ContentIndex.build x policy packagePolicy tree = .ok index) {documentId : DocumentId}
    {record : DocumentRecord} (hget : index.get documentId = some record) :
    ∃ leaf, tree.node record.relativePath = some (.file leaf) ∧
      DocumentRecord.fromMarkdown x policy record.relativePath leaf.bytes = .ok record := by
  obtain ⟨hmem, -⟩ := (get_eq_some_iff h).1 hget
  obtain ⟨leaf, hfile, -, hrecord⟩ := (mem_documents_iff h).1 hmem
  exact ⟨leaf, hfile, hrecord⟩

/-- One path holds one document. -/
theorem get_inj_path {tree : ContentTree} {index : ContentIndex}
    (h : ContentIndex.build x policy packagePolicy tree = .ok index) {d d' : DocumentId}
    {record record' : DocumentRecord} (hget : index.get d = some record)
    (hget' : index.get d' = some record')
    (hpath : record.relativePath = record'.relativePath) : d = d' := by
  obtain ⟨leaf, hfile, hrecord⟩ := file_of_get h hget
  obtain ⟨leaf', hfile', hrecord'⟩ := file_of_get h hget'
  rw [hpath] at hfile hrecord
  rw [hfile] at hfile'
  cases hfile'
  rw [hrecord] at hrecord'
  cases hrecord'
  rw [← ((get_eq_some_iff h).1 hget).2, ← ((get_eq_some_iff h).1 hget').2]

theorem get_of_markdown {tree : ContentTree} {index : ContentIndex}
    (h : ContentIndex.build x policy packagePolicy tree = .ok index) {path : RelPath}
    {leaf : ContentLeaf} (hfile : tree.node path = some (.file leaf)) (hmd : isMarkdown path) :
    ∃ documentId record, index.get documentId = some record ∧ record.relativePath = path := by
  obtain ⟨-, hvalid⟩ := file_of_build h hfile
  simp only [hmd, if_true] at hvalid
  obtain ⟨-, record, hrecord⟩ := hvalid
  obtain ⟨-, -, -, -, -, rfl, -, -⟩ := fromMarkdown_eq_ok_iff.1 hrecord
  exact ⟨_, record, (get_eq_some_iff h).2
    ⟨(mem_documents_iff h).2 ⟨leaf, hfile, hmd, hrecord⟩, rfl⟩, rfl⟩

theorem relativePath_of_get {tree : ContentTree} {index : ContentIndex}
    (h : ContentIndex.build x policy packagePolicy tree = .ok index) {documentId : DocumentId}
    {record : DocumentRecord} (hget : index.get documentId = some record) :
    record.relativePath = record.relativePath.dropLast ++ ["index.md"] := by
  obtain ⟨leaf, -, hrecord⟩ := file_of_get h hget
  obtain ⟨-, -, hpath, -⟩ := fromMarkdown_eq_ok_iff.1 hrecord
  rw [hpath, canonicalDocumentPath_eq, List.dropLast_concat]

theorem dotted_of_fileExtension {name extension : String}
    (h : fileExtension name = some extension) : ¬ Undotted name := by
  intro hdot
  have hnil : name.toList.rdropWhile (· != '.') = [] := by
    rw [List.rdropWhile_eq_nil_iff]
    intro c hc
    simp only [bne_iff_ne, ne_eq]
    rintro rfl
    exact hdot hc
  simp [fileExtension, hnil] at h

/-- Every file of an accepted tree has an extension, so its name has a dot. -/
theorem dotted_of_file {tree : ContentTree} {index : ContentIndex}
    (h : ContentIndex.build x policy packagePolicy tree = .ok index) {path : RelPath}
    {leaf : ContentLeaf} (hfile : tree.node path = some (.file leaf)) :
    ¬ Undotted (fileName path) := by
  obtain ⟨-, hvalid⟩ := file_of_build h hfile
  by_cases hmd : isMarkdown path
  · exact dotted_of_fileExtension (eq_of_beq hmd)
  · simp only [hmd, Bool.false_eq_true, if_false] at hvalid
    have hallowed := hvalid.2
    unfold PackagePolicy.allowsAttachmentName at hallowed
    split at hallowed
    · rename_i extension hextension
      exact dotted_of_fileExtension hextension
    · cases hallowed

theorem eq_of_isProjectAsset {path : RelPath} (h : isProjectAsset packagePolicy path) :
    ∃ project above name, path = "projects" :: project :: "assets" :: (above ++ [name]) := by
  unfold isProjectAsset at h
  split at h
  · rename_i project rest
    have hrest : rest ≠ [] := by
      rintro rfl
      simp at h
    exact ⟨project, rest.dropLast, rest.getLast hrest, by rw [List.dropLast_append_getLast]⟩
  · cases h

/-- Every file of an accepted tree has a document beside it or is an asset of a project. -/
theorem document_beside_or_asset {tree : ContentTree} {index : ContentIndex}
    (h : ContentIndex.build x policy packagePolicy tree = .ok index) {path : RelPath}
    {leaf : ContentLeaf} (hfile : tree.node path = some (.file leaf)) :
    (∃ record ∈ index.documents, record.relativePath.dropLast = path.dropLast) ∨
      isProjectAsset packagePolicy path := by
  obtain ⟨-, hvalid, rfl⟩ := build_eq_ok_iff.1 h
  by_cases hmd : isMarkdown path
  · obtain ⟨-, hlimits⟩ := hvalid.each (path, leaf) (FileTree.mem_files.2 hfile)
    simp only [hmd, if_true] at hlimits
    obtain ⟨-, record, hrecord⟩ := hlimits
    obtain ⟨-, -, -, -, -, rfl, -, -⟩ := fromMarkdown_eq_ok_iff.1 hrecord
    exact .inl ⟨record, (mem_documents_iff h).2 ⟨leaf, hfile, hmd, hrecord⟩, rfl⟩
  · have hattachment : (⟨path, leaf.bytes.length⟩ : AttachmentRecord) ∈
        attachmentsOf tree.files :=
      List.mem_filterMap.2 ⟨(path, leaf), FileTree.mem_files.2 hfile, by simp [attachmentOf, hmd]⟩
    have hlocated := hvalid.located _ hattachment
    simp only [validateAttachmentLocation] at hlocated
    split at hlocated
    · cases hlocated
    · split at hlocated
      · cases hlocated
      · rename_i hplace
        rw [not_and_or, not_not, not_not] at hplace
        refine hplace.imp_left fun hany => ?_
        obtain ⟨record, hmem, hdirectory⟩ := List.any_eq_true.1 hany
        have hdocs := ((filesAmong_walk_perm tree).filterMap (recordOf x policy)).mem_iff.2 hmem
        exact ⟨record, hdocs, by simpa using hdirectory⟩

/-- Every file in a bundle stands beside the document the bundle is named after. -/
theorem file_in_bundle {tree : ContentTree} {index : ContentIndex}
    (h : ContentIndex.build x policy packagePolicy tree = .ok index) {path : RelPath}
    {leaf : ContentLeaf} (hfile : tree.node path = some (.file leaf)) {documentId : DocumentId}
    (hbundle : InBundle documentId path) :
    ∃ record, index.get documentId = some record ∧ record.location.documentType ≠ .index ∧
      path = record.relativePath.dropLast ++ [fileName path] := by
  have hne : path ≠ [] := by
    rintro rfl
    simp at hfile
  have hsplit : path = path.dropLast ++ [fileName path] := by
    rw [fileName, List.getLastD_eq_getLast?, List.getLast?_eq_some_getLast hne, Option.getD_some,
      List.dropLast_append_getLast hne]
  have hdot := dotted_of_file h hfile
  -- A document in the same directory has the identity of the bundle.
  have hbeside : ∀ record ∈ index.documents, record.relativePath.dropLast = path.dropLast →
      record.metadata.documentId = documentId ∧ record.location.documentType ≠ .index := by
    intro record hmem hdirectory
    obtain ⟨leaf', -, -, hrecord⟩ := (mem_documents_iff h).1 hmem
    obtain ⟨-, -, hpath, -⟩ := fromMarkdown_eq_ok_iff.1 hrecord
    rw [hsplit, ← hdirectory, hpath, ← documentDirectory] at hbundle
    refine ⟨(inBundle_of_documentDirectory hdot hbundle).symm, fun hindex => ?_⟩
    exact not_inBundle_index hindex hdot documentId hbundle
  have hfound : ∃ record ∈ index.documents, record.relativePath.dropLast = path.dropLast := by
    rcases document_beside_or_asset h hfile with hfound | hasset
    · exact hfound
    · obtain ⟨project, above, name, rfl⟩ := eq_of_isProjectAsset hasset
      exact absurd hbundle (not_inBundle_asset _ _ documentId)
  obtain ⟨record, hmem, hdirectory⟩ := hfound
  obtain ⟨hid, hindex⟩ := hbeside record hmem hdirectory
  exact ⟨record, (get_eq_some_iff h).2 ⟨hmem, hid⟩, hindex, hdirectory ▸ hsplit⟩

end Valid

end AgentKnowledge
