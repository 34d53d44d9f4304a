import AgentKnowledge.Repository.Read

/-!
Bounded reads of official history (`crates/repository/src/read/history.rs`).

A reader is pinned to an anchor and counts the tree entries and Markdown bytes of all its
reads. What it finds at a commit does not depend on the budget that is left
(`document_eq_ok`), and a tree whose Markdown is in order can only fail a read by a budget
(`document_eq_error`).
-/

namespace AgentKnowledge

open Results

/-- What Git answers about the objects of a repository. -/
structure GitObjects where
  /-- `merge-base --is-ancestor commit anchor`. -/
  isAncestor : String → String → Bool
  /-- `rev-list --first-parent commit`, the commit itself first. -/
  firstParents : String → List String
  /-- The tree of a commit. -/
  tree : String → ContentTree

/-- An exact historical Markdown document and its validated identity. -/
structure HistoricalDocument where
  record : DocumentRecord
  markdown : Bytes
deriving DecidableEq

/-- A pinned official ancestry. -/
structure HistoryReader where
  git : GitObjects
  anchor : String
  policy : ContentPolicy
  bytesRead : Nat := 0
  entriesRead : Nat := 0

/-- Pins an official commit and bounds cumulative historical inspection work. -/
def CommittedStore.historyReader (store : CommittedStore) (git : GitObjects)
    (policy : ContentPolicy) : Except CommittedReadError HistoryReader := do
  let anchor ← store.currentCommit
  pure { git, anchor, policy }

def isLowercaseHex (c : Char) : Bool := isAsciiDigit c || ('a' ≤ c && c ≤ 'f')

/-- The length of the line of a file in `ls-tree -r -z`: mode, type, object, path. -/
def listingLength (objectLength : Nat) (path : RelPath) : Nat :=
  "100644 blob ".length + objectLength + 1 + (String.intercalate "/" path).utf8ByteSize + 1

def maximumListingBytes : Nat := 16 * 1024 * 1024

/-- The path ends in `.md`. -/
def namesMarkdown (path : RelPath) : Bool := decide (".md".toList <:+ (fileName path).toList)

namespace HistoryReader

variable (x : Externals) (reader : HistoryReader)

/-- A full object name of an ancestor of the anchor. -/
def validateCommit (commit : String) : Except CommittedReadError Unit := do
  rejectIf (commit.utf8ByteSize ≠ reader.anchor.utf8ByteSize ∨ ¬ commit.toList.all isLowercaseHex)
    .invalidHistorySelector
  rejectIf (¬ reader.git.isAncestor commit reader.anchor) .invalidHistorySelector

/-- Restricts later reads to an earlier official snapshot, for stable pagination. -/
def restrictTo (commit : String) : Except CommittedReadError HistoryReader := do
  reader.validateCommit commit
  pure { reader with anchor := commit }

/-- Lists at most `maximum` first-parent commits, starting at the cursor. -/
def commits (cursor : Option String) (maximum : Nat) : Except CommittedReadError (List String) := do
  rejectIf (maximum = 0 ∨ 102 < maximum) .invalidResultLimit
  let start := cursor.getD reader.anchor
  reader.validateCommit start
  pure ((reader.git.firstParents start).take maximum)

/-- The bytes of Markdown that may still be read. -/
def remaining : Nat := reader.policy.maximumTotalMarkdownBytes - reader.bytesRead

def byteLimit : Nat :=
  if reader.remaining < reader.policy.maximumMarkdownBytes then
    reader.policy.maximumTotalMarkdownBytes
  else reader.policy.maximumMarkdownBytes

/-- A Markdown file of a listing, within the budget. -/
def readBlob (path : RelPath) (leaf : ContentLeaf) :
    Except CommittedReadError (DocumentRecord × HistoryReader) := do
  -- executables and links have another mode than `100644 blob`
  rejectIf (leaf.kind = .executable ∨ leaf.kind = .special) .invalidHistorySelector
  rejectIf (min reader.policy.maximumMarkdownBytes reader.remaining < leaf.bytes.length)
    (.searchMarkdownByteLimitExceeded reader.byteLimit)
  let record ← (DocumentRecord.fromMarkdown x reader.policy path leaf.bytes).mapError
    CommittedReadError.content
  pure (record, { reader with bytesRead := reader.bytesRead + leaf.bytes.length })

/-- A document that is looked for, found a second time or not valid text. -/
def keep (id : DocumentId) (found : Option HistoricalDocument) (record : DocumentRecord)
    (bytes : Bytes) : Except CommittedReadError (Option HistoricalDocument) :=
  if record.metadata.documentId = id then
    match found with
    | some previous =>
        .error (.content (.duplicateDocumentId id previous.record.relativePath record.relativePath))
    | none =>
        if Bytes.validUtf8 bytes then .ok (some ⟨record, bytes⟩)
        else .error (.invalidMarkdownEncoding id)
  else .ok found

/-- One entry of the listing. -/
def readEntry (id : DocumentId) (state : HistoryReader × Option HistoricalDocument)
    (entry : RelPath × ContentLeaf) :
    Except CommittedReadError (HistoryReader × Option HistoricalDocument) := do
  let reader := { state.1 with entriesRead := state.1.entriesRead + 1 }
  rejectIf (reader.policy.maximumEntryCount < reader.entriesRead)
    (.searchDocumentLimitExceeded reader.policy.maximumEntryCount)
  if ¬ namesMarkdown entry.1 then pure (reader, state.2)
  else do
    let (record, reader) ← reader.readBlob x entry.1 entry.2
    let found ← keep id state.2 record entry.2.bytes
    pure (reader, found)

/-- Resolves identity from Markdown front matter, including across moves. -/
def document (commit : String) (id : DocumentId) :
    Except CommittedReadError (HistoryReader × Option HistoricalDocument) := do
  reader.validateCommit commit
  let files := (reader.git.tree commit).files
  rejectIf (maximumListingBytes <
    (files.map fun entry => listingLength reader.anchor.utf8ByteSize entry.1).sum) .repository
  files.foldlM (readEntry x id) (reader, none)

end HistoryReader

/-! ### What a read finds -/

/-- The document a file holds, if it is the one looked for. -/
def historicalAt (x : Externals) (policy : ContentPolicy) (id : DocumentId)
    (entry : RelPath × ContentLeaf) : Option HistoricalDocument :=
  if namesMarkdown entry.1 then
    match DocumentRecord.fromMarkdown x policy entry.1 entry.2.bytes with
    | .ok record => if record.metadata.documentId = id then some ⟨record, entry.2.bytes⟩ else none
    | .error _ => none
  else none

/-- The document with an identifier in a tree. -/
def historicalIn (x : Externals) (policy : ContentPolicy) (id : DocumentId) (tree : ContentTree) :
    Option HistoricalDocument :=
  tree.files.findSome? (historicalAt x policy id)

theorem historicalAt_eq_some {x : Externals} {policy : ContentPolicy} {id : DocumentId}
    {entry : RelPath × ContentLeaf} {document : HistoricalDocument} :
    historicalAt x policy id entry = some document ↔
      namesMarkdown entry.1 ∧
        DocumentRecord.fromMarkdown x policy entry.1 entry.2.bytes = .ok document.record ∧
        document.record.metadata.documentId = id ∧ document.markdown = entry.2.bytes := by
  unfold historicalAt
  by_cases hmarkdown : namesMarkdown entry.1
  · cases hrecord : DocumentRecord.fromMarkdown x policy entry.1 entry.2.bytes with
    | error e => simp
    | ok record =>
        obtain ⟨found, markdown⟩ := document
        simp only [hmarkdown, if_true, Option.ite_none_right_eq_some, Option.some.injEq,
          HistoricalDocument.mk.injEq, Except.ok.injEq, true_and]
        constructor
        · rintro ⟨hid, rfl, rfl⟩
          exact ⟨rfl, hid, rfl⟩
        · rintro ⟨rfl, hid, rfl⟩
          exact ⟨hid, rfl, rfl⟩
  · simp [hmarkdown]

/-- Markdown in order: plain files that decode, one for an identifier. -/
structure OrderlyMarkdown (x : Externals) (policy : ContentPolicy) (id : DocumentId)
    (files : List (RelPath × ContentLeaf)) : Prop where
  plain : ∀ entry ∈ files, namesMarkdown entry.1 →
    entry.2.kind ≠ .executable ∧ entry.2.kind ≠ .special
  decodes : ∀ entry ∈ files, namesMarkdown entry.1 →
    ∃ record, DocumentRecord.fromMarkdown x policy entry.1 entry.2.bytes = .ok record
  unique : (files.filterMap (historicalAt x policy id)).length ≤ 1

/-- Outside hidden files the name `….md` is the extension `md`. -/
theorem isMarkdown_of_namesMarkdown {path : RelPath} (h : namesMarkdown path)
    (hvisible : (fileName path).toList ≠ ".md".toList) : isMarkdown path := by
  obtain ⟨stem, hstem⟩ := of_decide_eq_true h
  have hne : stem ≠ [] := by
    rintro rfl
    exact hvisible hstem.symm
  exact beq_iff_eq.2 (fileExtension_of_toList hstem.symm hne (by decide))

theorem isMarkdown_of_fileValid {x : Externals} {policy : ContentPolicy}
    {packagePolicy : PackagePolicy} {path : RelPath} {leaf : ContentLeaf}
    (hvalid : fileValid x policy packagePolicy path leaf) (h : namesMarkdown path) :
    isMarkdown path := by
  by_contra hother
  have hname : (fileName path).toList = ".md".toList := by
    by_contra hvisible
    exact hother (isMarkdown_of_namesMarkdown h hvisible)
  have hextension : fileExtension (fileName path) = none := by
    simp only [fileExtension, hname]
    rfl
  have hallowed := hvalid.2
  simp [hother, PackagePolicy.allowsAttachmentName, hextension] at hallowed

theorem map_filterMap_sublist {α β γ : Type} {f : α → Option β} {g : α → Option γ} {h : β → γ}
    {l : List α} (hfg : ∀ a ∈ l, ∀ b ∈ f a, g a = some (h b)) :
    ((l.filterMap f).map h).Sublist (l.filterMap g) := by
  induction l with
  | nil => simp
  | cons a l ih =>
      have hrest := ih fun a ha => hfg a (List.mem_cons_of_mem _ ha)
      cases hfa : f a with
      | none =>
          rw [List.filterMap_cons_none hfa]
          exact hrest.trans (List.Sublist.filterMap g (List.sublist_cons_self a l))
      | some b =>
          rw [List.filterMap_cons_some hfa, List.filterMap_cons_some (hfg a (by simp) b hfa)]
          exact hrest.cons_cons _

/-- A tree that can be indexed can be read. -/
theorem OrderlyMarkdown.of_filesValid {x : Externals} {policy : ContentPolicy}
    {packagePolicy : PackagePolicy} {files : List (RelPath × ContentLeaf)} (id : DocumentId)
    (h : FilesValid x policy packagePolicy files) : OrderlyMarkdown x policy id files := by
  have hrecord : ∀ entry ∈ files, namesMarkdown entry.1 →
      ∃ record, DocumentRecord.fromMarkdown x policy entry.1 entry.2.bytes = .ok record := by
    intro entry hentry hmarkdown
    have hvalid := h.each entry hentry
    have hdecodes := hvalid.2
    rw [if_pos (isMarkdown_of_fileValid hvalid hmarkdown)] at hdecodes
    exact hdecodes.2
  refine ⟨fun entry hentry _ => by simp [(h.each entry hentry).1], hrecord, ?_⟩
  -- every find is the record of a file, and records have distinct identifiers
  have hfind : ∀ entry ∈ files, ∀ found ∈ historicalAt x policy id entry,
      recordOf x policy entry = some found.record ∧ found.record.metadata.documentId = id := by
    intro entry hentry found hfound
    have hmarkdown : namesMarkdown entry.1 := by
      by_contra hother
      simp [historicalAt, hother] at hfound
    obtain ⟨record, hdecoded⟩ := hrecord entry hentry hmarkdown
    simp only [historicalAt, hmarkdown, if_true, hdecoded, Option.mem_def,
      Option.ite_none_right_eq_some, Option.some.injEq] at hfound
    obtain ⟨hid, rfl⟩ := hfound
    exact ⟨recordOf_eq_some.2 ⟨isMarkdown_of_fileValid (h.each entry hentry) hmarkdown, hdecoded⟩,
      hid⟩
  have hsub := map_filterMap_sublist fun entry hentry found hfound =>
    (hfind entry hentry found hfound).1
  have hnodup := h.distinct.sublist (hsub.map fun record => record.metadata.documentId)
  have hall : ∀ other ∈ ((files.filterMap (historicalAt x policy id)).map
      HistoricalDocument.record).map (fun record => record.metadata.documentId), other = id := by
    simp only [List.mem_map, List.mem_filterMap]
    rintro other ⟨record, ⟨found, ⟨entry, hentry, hfound⟩, rfl⟩, rfl⟩
    exact (hfind entry hentry found hfound).2
  rw [List.eq_replicate_of_mem hall, List.nodup_replicate] at hnodup
  simpa using hnodup

namespace OrderlyMarkdown

variable {x : Externals} {policy : ContentPolicy} {id : DocumentId}
  {entry : RelPath × ContentLeaf} {rest : List (RelPath × ContentLeaf)}

theorem head (h : OrderlyMarkdown x policy id (entry :: rest)) :
    OrderlyMarkdown x policy id [entry] := by
  refine ⟨?_, ?_, (List.length_filterMap_le _ _).trans (by simp)⟩
  · exact List.forall_mem_singleton.2 (h.plain entry (by simp))
  · exact List.forall_mem_singleton.2 (h.decodes entry (by simp))

theorem tail (h : OrderlyMarkdown x policy id (entry :: rest)) :
    OrderlyMarkdown x policy id rest := by
  refine ⟨fun e he => h.plain e (by simp [he]), fun e he => h.decodes e (by simp [he]), ?_⟩
  refine le_trans ?_ h.unique
  rw [List.filterMap_cons]
  split <;> simp

/-- Once the document is found, no further file has it. -/
theorem none_after (h : OrderlyMarkdown x policy id (entry :: rest))
    {found : Option HistoricalDocument}
    (hfresh : found.isSome → (entry :: rest).filterMap (historicalAt x policy id) = [])
    (hkept : (found.or (historicalAt x policy id entry)).isSome) :
    rest.filterMap (historicalAt x policy id) = [] := by
  cases hat : historicalAt x policy id entry with
  | none =>
      have := hfresh (by simpa [hat] using hkept)
      simpa [hat] using this
  | some document =>
      have hunique := h.unique
      rw [List.filterMap_cons, hat] at hunique
      simpa using hunique

end OrderlyMarkdown

/-- The errors of a reader that ran out of budget. -/
inductive CommittedReadError.IsBudget : CommittedReadError → Prop
  | entries (maximum : Nat) : IsBudget (.searchDocumentLimitExceeded maximum)
  | bytes (maximum : Nat) : IsBudget (.searchMarkdownByteLimitExceeded maximum)
  | listing : IsBudget .repository

namespace HistoryReader

/-- Readers that are pinned alike, whatever they have read. -/
structure Alike (reader reader' : HistoryReader) : Prop where
  git : reader'.git = reader.git
  anchor : reader'.anchor = reader.anchor
  policy : reader'.policy = reader.policy

theorem Alike.refl (reader : HistoryReader) : Alike reader reader := ⟨rfl, rfl, rfl⟩

theorem Alike.trans {reader reader' reader'' : HistoryReader} (h : Alike reader reader')
    (h' : Alike reader' reader'') : Alike reader reader'' :=
  ⟨h'.git.trans h.git, h'.anchor.trans h.anchor, h'.policy.trans h.policy⟩

section Entries

variable {x : Externals} {reader reader' : HistoryReader} {id : DocumentId}
  {found found' : Option HistoricalDocument} {entry : RelPath × ContentLeaf}

theorem validateCommit_eq_ok {commit : String} :
    reader.validateCommit commit = .ok () ↔
      commit.utf8ByteSize = reader.anchor.utf8ByteSize ∧ commit.toList.all isLowercaseHex ∧
        reader.git.isAncestor commit reader.anchor := by
  unfold validateCommit
  simp only [bind_eq_ok, exists_unit, rejectIf_eq_ok, not_or, not_not, ne_eq, and_assoc]

theorem readBlob_eq_ok {path : RelPath} {leaf : ContentLeaf} {record : DocumentRecord}
    (h : reader.readBlob x path leaf = .ok (record, reader')) :
    DocumentRecord.fromMarkdown x reader.policy path leaf.bytes = .ok record ∧
      Alike reader reader' := by
  unfold readBlob at h
  simp only [bind_eq_ok, exists_unit, rejectIf_eq_ok, mapError_eq_ok, pure_eq_ok, Except.ok.injEq,
    Prod.mk.injEq] at h
  obtain ⟨-, -, decoded, hdecoded, rfl, rfl⟩ := h
  exact ⟨hdecoded, rfl, rfl, rfl⟩

theorem historicalAt_of_decoded {policy : ContentPolicy} {record : DocumentRecord}
    (hmarkdown : namesMarkdown entry.1)
    (h : DocumentRecord.fromMarkdown x policy entry.1 entry.2.bytes = .ok record) :
    historicalAt x policy id entry =
      if record.metadata.documentId = id then some ⟨record, entry.2.bytes⟩ else none := by
  simp [historicalAt, hmarkdown, h]

/-- Metadata is decoded from well-formed text only. -/
theorem validUtf8_of_decoded {policy : ContentPolicy} {path : RelPath} {bytes : Bytes}
    {record : DocumentRecord} (h : DocumentRecord.fromMarkdown x policy path bytes = .ok record) :
    Bytes.validUtf8 bytes := by
  have hdecode := (fromMarkdown_eq_ok_iff.1 h).1
  unfold decodeDocumentMetadata at hdecode
  by_contra hinvalid
  simp [hinvalid] at hdecode

/-- What one more file adds to what was found. -/
theorem readEntry_eq_ok (h : readEntry x id (reader, found) entry = .ok (reader', found')) :
    Alike reader reader' ∧ found' = found.or (historicalAt x reader.policy id entry) := by
  unfold readEntry at h
  rw [bind_eq_ok] at h
  obtain ⟨-, -, h⟩ := h
  split at h
  · rename_i hmarkdown
    simp only [pure_eq_ok, Except.ok.injEq, Prod.mk.injEq] at h
    obtain ⟨rfl, rfl⟩ := h
    exact ⟨⟨rfl, rfl, rfl⟩, by simp [historicalAt, hmarkdown]⟩
  · rename_i hmarkdown
    rw [bind_eq_ok] at h
    obtain ⟨⟨record, read⟩, hread, h⟩ := h
    obtain ⟨hdecoded, halike⟩ := readBlob_eq_ok hread
    rw [bind_eq_ok] at h
    obtain ⟨kept, hkept, h⟩ := h
    simp only [pure_eq_ok, Except.ok.injEq, Prod.mk.injEq] at h
    obtain ⟨rfl, rfl⟩ := h
    refine ⟨⟨halike.git, halike.anchor, halike.policy⟩, ?_⟩
    rw [historicalAt_of_decoded (by simpa using hmarkdown) hdecoded]
    unfold keep at hkept
    split at hkept
    · cases found with
      | some previous => simp at hkept
      | none =>
          simp only [validUtf8_of_decoded hdecoded, if_true, Except.ok.injEq] at hkept
          simp [*]
    · simp only [Except.ok.injEq] at hkept
      simp [*]

theorem readEntries_eq_ok {entries : List (RelPath × ContentLeaf)}
    (h : entries.foldlM (readEntry x id) (reader, found) = .ok (reader', found')) :
    Alike reader reader' ∧
      found' = found.or (entries.findSome? (historicalAt x reader.policy id)) := by
  induction entries generalizing reader found with
  | nil =>
      simp only [List.foldlM_nil, pure_eq_ok, Except.ok.injEq, Prod.mk.injEq] at h
      obtain ⟨rfl, rfl⟩ := h
      exact ⟨.refl _, by simp⟩
  | cons entry rest ih =>
      obtain ⟨⟨next, kept⟩, hnext, hrest⟩ := foldlM_cons_eq_ok.1 h
      obtain ⟨halike, rfl⟩ := readEntry_eq_ok hnext
      obtain ⟨halike', rfl⟩ := ih hrest
      refine ⟨halike.trans halike', ?_⟩
      rw [halike.policy, List.findSome?_cons, Option.or_assoc]
      cases historicalAt x reader.policy id entry <;> simp

/-- The bytes of a file that are charged to the budget. -/
def chargedLength (entry : RelPath × ContentLeaf) : Nat :=
  if namesMarkdown entry.1 then entry.2.bytes.length else 0

/-- The budgets that are left suffice for some files. -/
structure Affords (reader : HistoryReader) (entries : List (RelPath × ContentLeaf)) : Prop where
  count : reader.entriesRead + entries.length ≤ reader.policy.maximumEntryCount
  total : reader.bytesRead + (entries.map chargedLength).sum ≤
    reader.policy.maximumTotalMarkdownBytes
  each : ∀ entry ∈ entries, chargedLength entry ≤ reader.policy.maximumMarkdownBytes

theorem Affords.tail {rest : List (RelPath × ContentLeaf)} (h : reader.Affords (entry :: rest))
    (hread : readEntry x id (reader, found) entry = .ok (reader', found')) :
    reader'.Affords rest := by
  obtain ⟨hcount, htotal, heach⟩ := h
  simp only [List.length_cons, List.map_cons, List.sum_cons] at hcount htotal
  have heach' := fun e he => heach e (List.mem_cons_of_mem _ he)
  unfold readEntry at hread
  rw [bind_eq_ok] at hread
  obtain ⟨-, -, hread⟩ := hread
  split at hread
  · simp only [pure_eq_ok, Except.ok.injEq, Prod.mk.injEq] at hread
    obtain ⟨rfl, rfl⟩ := hread
    exact ⟨by simp only; omega, by simp only; omega, heach'⟩
  · rename_i hmarkdown
    simp only [readBlob, bind_eq_ok, exists_unit, rejectIf_eq_ok, mapError_eq_ok, pure_eq_ok,
      Except.ok.injEq, Prod.exists, Prod.mk.injEq] at hread
    obtain ⟨-, -, ⟨-, -, -, -, -, rfl⟩, -, -, rfl, -⟩ := hread
    have hcharged : chargedLength entry = entry.2.bytes.length := if_pos (not_not.1 hmarkdown)
    exact ⟨by simp only; omega, by simp only; omega, heach'⟩

/-- An entry in order is refused for want of budget only. -/
theorem readEntry_eq_error {e : CommittedReadError}
    (hentry : OrderlyMarkdown x reader.policy id [entry])
    (hfresh : found.isSome → historicalAt x reader.policy id entry = none)
    (h : readEntry x id (reader, found) entry = .error e) :
    e.IsBudget ∧ ∀ rest, ¬ reader.Affords (entry :: rest) := by
  unfold readEntry at h
  rw [bind_eq_error, rejectIf_eq_error] at h
  rcases h with ⟨hentries, rfl⟩ | ⟨-, -, h⟩
  · refine ⟨.entries _, fun rest hafford => ?_⟩
    have hcount := hafford.count
    simp only [List.length_cons] at hcount hentries
    omega
  split at h
  · cases h
  rename_i hmarkdown
  replace hmarkdown : namesMarkdown entry.1 := by simpa using hmarkdown
  obtain ⟨hnotExecutable, hnotSpecial⟩ := hentry.plain entry (by simp) hmarkdown
  obtain ⟨record, hrecord⟩ := hentry.decodes entry (by simp) hmarkdown
  rw [historicalAt_of_decoded hmarkdown hrecord] at hfresh
  rw [bind_eq_error] at h
  rcases h with hread | ⟨⟨read, next⟩, hread, h⟩
  · simp only [readBlob, hnotExecutable, hnotSpecial, or_self, rejectIf_false, ok_bind, hrecord,
      Except.mapError, pure_eq_ok, bind_eq_error, rejectIf_eq_error, reduceCtorEq, and_false,
      exists_false, or_false] at hread
    obtain ⟨hbytes, rfl⟩ := hread
    refine ⟨.bytes _, fun rest hafford => ?_⟩
    have hcharged : chargedLength entry = entry.2.bytes.length := if_pos hmarkdown
    have htotal := hafford.total
    have heach := hafford.each entry (by simp)
    rw [List.map_cons, List.sum_cons] at htotal
    simp only [remaining] at hbytes
    omega
  · obtain ⟨hdecoded, -⟩ := readBlob_eq_ok hread
    obtain rfl : record = read := Except.ok.inj (hrecord.symm.trans hdecoded)
    simp only [bind_eq_error, pure_eq_ok, reduceCtorEq, and_false, exists_false, or_false] at h
    unfold keep at h
    split at h
    · rename_i hid
      cases found with
      | some previous => simp [hid] at hfresh
      | none => simp [validUtf8_of_decoded hrecord] at h
    · cases h

theorem readEntries_eq_error {entries : List (RelPath × ContentLeaf)} {e : CommittedReadError}
    (hentries : OrderlyMarkdown x reader.policy id entries)
    (hfresh : found.isSome → entries.filterMap (historicalAt x reader.policy id) = [])
    (h : entries.foldlM (readEntry x id) (reader, found) = .error e) :
    e.IsBudget ∧ ¬ reader.Affords entries := by
  induction entries generalizing reader found with
  | nil => simp at h
  | cons entry rest ih =>
      have hhere : found.isSome → historicalAt x reader.policy id entry = none := by
        intro hsome
        have := hfresh hsome
        cases hat : historicalAt x reader.policy id entry with
        | none => rfl
        | some document => simp [hat] at this
      rw [List.foldlM_cons, bind_eq_error] at h
      rcases h with h | ⟨⟨next, kept⟩, hnext, hrest⟩
      · obtain ⟨hbudget, hafford⟩ := readEntry_eq_error hentries.head hhere h
        exact ⟨hbudget, hafford rest⟩
      obtain ⟨halike, rfl⟩ := readEntry_eq_ok hnext
      obtain ⟨hbudget, hafford⟩ := ih (halike.policy ▸ hentries.tail)
        (halike.policy ▸ hentries.none_after hfresh) hrest
      exact ⟨hbudget, fun hall => hafford (hall.tail hnext)⟩

end Entries

section Document

variable {x : Externals} {reader reader' : HistoryReader} {commit : String} {id : DocumentId}
  {found : Option HistoricalDocument}

/-- A read finds what the tree holds, whatever was read before. -/
theorem document_eq_ok (h : reader.document x commit id = .ok (reader', found)) :
    Alike reader reader' ∧ found = historicalIn x reader.policy id (reader.git.tree commit) := by
  unfold document at h
  simp only [bind_eq_ok, exists_unit] at h
  obtain ⟨-, -, h⟩ := h
  obtain ⟨halike, hfound⟩ := readEntries_eq_ok h
  exact ⟨halike, by simpa [historicalIn] using hfound⟩

/-- A read of an ancestor in order fails for want of budget only. -/
theorem document_eq_error {e : CommittedReadError} (hcommit : reader.validateCommit commit = .ok ())
    (htree : OrderlyMarkdown x reader.policy id (reader.git.tree commit).files)
    (h : reader.document x commit id = .error e) : e.IsBudget := by
  unfold document at h
  rw [hcommit, ok_bind, bind_eq_error, rejectIf_eq_error] at h
  rcases h with ⟨-, rfl⟩ | ⟨-, -, h⟩
  · exact .listing
  · exact (readEntries_eq_error htree (by simp) h).1

/-- A read that can be afforded fails only if the listing is too long. -/
theorem document_eq (hcommit : reader.validateCommit commit = .ok ())
    (htree : OrderlyMarkdown x reader.policy id (reader.git.tree commit).files)
    (hafford : reader.Affords (reader.git.tree commit).files) :
    if ((reader.git.tree commit).files.map fun entry =>
        listingLength reader.anchor.utf8ByteSize entry.1).sum ≤ maximumListingBytes then
      ∃ reader', reader.document x commit id =
        .ok (reader', historicalIn x reader.policy id (reader.git.tree commit))
    else reader.document x commit id = .error .repository := by
  split
  · rename_i hlisting
    cases hread : reader.document x commit id with
    | ok result =>
        obtain ⟨reader', found⟩ := result
        exact ⟨reader', by rw [(document_eq_ok hread).2]⟩
    | error e =>
        unfold document at hread
        rw [hcommit, ok_bind, bind_eq_error, rejectIf_eq_error] at hread
        rcases hread with ⟨hlong, -⟩ | ⟨-, -, hread⟩
        · exact absurd hlisting (Nat.not_le.2 hlong)
        · exact absurd hafford (readEntries_eq_error htree (by simp) hread).2
  · rename_i hlisting
    unfold document
    rw [hcommit, ok_bind, bind_eq_error, rejectIf_eq_error]
    exact .inl ⟨Nat.not_le.1 hlisting, rfl⟩

theorem historicalIn_documentId {policy : ContentPolicy} {tree : ContentTree}
    {document : HistoricalDocument} (h : historicalIn x policy id tree = some document) :
    document.record.metadata.documentId = id ∧ ∃ path,
      DocumentRecord.fromMarkdown x policy path document.markdown = .ok document.record := by
  obtain ⟨entry, -, hentry⟩ := List.exists_of_findSome?_eq_some h
  obtain ⟨-, hrecord, hid, hbytes⟩ := historicalAt_eq_some.1 hentry
  exact ⟨hid, entry.1, hbytes ▸ hrecord⟩

end Document

end HistoryReader

end AgentKnowledge
