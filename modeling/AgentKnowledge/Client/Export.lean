import AgentKnowledge.Lib.Tar
import AgentKnowledge.Repository.Conflict
import AgentKnowledge.Repository.Read

/-!
Exported bundles and the client's check of them (`crates/gateway/src/read.rs`,
`crates/client/src/lib.rs`).

The gateway writes a bundle as an archive of regular entries with fixed headers. The client
reads the archive, checks every entry and writes it again while comparing, so that it accepts
only what a writer like the gateway's produces. Every exported bundle is accepted
(`bundle_accepted`), and an accepted archive is what the writer makes of its entries
(`validated_archive`).

The names of the entries are compared as paths, of which `index.md` has other spellings. An
accepted archive is one of the gateway's exactly when its first entry has the plain one.
-/

namespace AgentKnowledge

open Results

/-! ### Writing -/

/-- The header of every exported entry. -/
def regularExportHeader (size : Nat) : Tar.Header where
  entryType := .regular
  mode := 0o644
  uid := 0
  gid := 0
  mtime := 0
  size := size

def CommittedBundleEntry.record (entry : CommittedBundleEntry) : Tar.Record :=
  ⟨regularExportHeader entry.bytes.length, entry.name, entry.bytes⟩

def writeExportArchive (format : Tar.Format) (entries : List CommittedBundleEntry) :
    Except Tar.Failure Bytes :=
  format.build (entries.map CommittedBundleEntry.record)

/-! ### Checking -/

namespace Client

/-- Why an archive is refused. All but the last are invalid export archives. -/
inductive ExportError where
  | archive (source : Tar.Failure)
  | tooManyEntries
  | nonRegularEntry
  | invalidOrDuplicatePath
  | fileLimit
  | byteLimit
  | indexNotFirst
  | unsupportedAttachmentName
  | unorderedAttachments
  | truncatedIndex
  | document (source : DocumentParseError)
  | notCanonical
  | trailingData
  | documentMismatch
deriving DecidableEq

/-- A write of the comparing writer: the bytes must be the next ones of the archive. -/
def writeCanonical (expected : Bytes) (position : Nat) (buffer : Bytes) :
    Except ExportError Nat := do
  rejectIf ((expected.drop position).take buffer.length ≠ buffer) .notCanonical
  pure (position + buffer.length)

/-- What is carried from entry to entry. -/
structure ExportState where
  names : List (List String) := []
  totalBytes : Nat := 0
  documentId : Option DocumentId := none
  previousAttachment : Option String := none
  position : Nat := 0

section Validate

variable (x : Externals) (format : Tar.Format) (archive : Bytes)

/-- Write an entry again, with the header of an export. -/
def appendCanonical (path : String) (entry : Tar.Entry) (position : Nat) :
    Except ExportError Nat := do
  let block ← (format.append ⟨regularExportHeader entry.size, path, entry.bytes⟩).mapError .archive
  writeCanonical archive position block

def validateAttachment (path : String) (entry : Tar.Entry) (state : ExportState) :
    Except ExportError ExportState := do
  rejectIf (¬ ((validateAttachmentName path).isOk ∧
    PackagePolicy.default.allowsAttachmentName path)) .unsupportedAttachmentName
  rejectIf (state.previousAttachment.any fun previous => path ≤ previous) .unorderedAttachments
  let position ← appendCanonical format archive path entry state.position
  pure { state with previousAttachment := some path, position }

def validateIndex (path : String) (entry : Tar.Entry) (state : ExportState) :
    Except ExportError ExportState := do
  rejectIf (entry.bytes.length ≠ entry.size) .truncatedIndex
  let metadata ← (decodeDocumentMetadata x entry.bytes
    PackagePolicy.default.limits.maximumFrontMatterBytes).mapError ExportError.document
  let position ← appendCanonical format archive path entry state.position
  pure { state with documentId := some metadata.documentId, position }

/-- One entry. A name that is not UTF-8 is neither the index nor an attachment. -/
def validateEntry (index : Nat) (item : Except Tar.Failure Tar.Entry) (state : ExportState) :
    Except ExportError ExportState := do
  let limits := PackagePolicy.default.limits
  rejectIf (limits.maximumFileCount ≤ index) .tooManyEntries
  let entry ← item.mapError ExportError.archive
  rejectIf (entry.entryType ≠ .regular) .nonRegularEntry
  rejectIf (entry.path.any fun path =>
    (Tar.components path).length ≠ 1 ∨ Tar.components path ∈ state.names) .invalidOrDuplicatePath
  rejectIf (limits.maximumFileBytes < entry.size) .fileLimit
  rejectIf (limits.maximumTotalBytes < state.totalBytes + entry.size) .byteLimit
  let path ← ofOption entry.path
    (if index = 0 then .indexNotFirst else .unsupportedAttachmentName)
  rejectIf (index = 0 ∧ Tar.components path ≠ ["index.md"]) .indexNotFirst
  let counted := { state with
    names := Tar.components path :: state.names
    totalBytes := state.totalBytes + entry.size }
  if Tar.components path ≠ ["index.md"] then validateAttachment format archive path entry counted
  else validateIndex x format archive path entry counted

def validateEntries : Nat → List (Except Tar.Failure Tar.Entry) → ExportState →
    Except ExportError ExportState
  | _, [], state => pure state
  | index, item :: rest, state => do
      let state ← validateEntry x format archive index item state
      validateEntries (index + 1) rest state

def validateExportArchive (expectedDocumentId : DocumentId) : Except ExportError Unit := do
  let state ← validateEntries x format archive 0 (format.entries archive) {}
  let position ← writeCanonical archive state.position format.finish
  rejectIf (position ≠ archive.length) .trailingData
  rejectIf (state.documentId ≠ some expectedDocumentId) .documentMismatch

end Validate

/-! ### One entry -/

section Step

variable {x : Externals} {format : Tar.Format} {archive : Bytes}

theorem writeCanonical_eq_ok {position position' : Nat} {buffer : Bytes} :
    writeCanonical archive position buffer = .ok position' ↔
      archive.drop position = buffer ++ archive.drop position' ∧
        position' = position + buffer.length := by
  simp only [writeCanonical, bind_eq_ok, exists_unit, rejectIf_eq_ok, ne_eq, not_not, pure_eq_ok,
    Except.ok.injEq, eq_comm (a := position')]
  refine and_congr_left fun hposition => ?_
  subst hposition
  constructor
  · intro htake
    rw [← List.drop_drop]
    conv_lhs => rw [← List.take_append_drop buffer.length (archive.drop position), htake]
  · intro hdrop
    rw [hdrop]
    simp

/-- A name an attachment may have. -/
def AttachmentText (name : String) : Prop :=
  (validateAttachmentName name).isOk ∧ PackagePolicy.default.allowsAttachmentName name

/-- A record as the client writes it again, between two places of the archive. -/
structure Rewritten (format : Tar.Format) (archive : Bytes) (record : Tar.Record)
    (position position' : Nat) : Prop where
  header : record.header = regularExportHeader record.header.size
  written : ∃ block, format.append record = .ok block ∧
    archive.drop position = block ++ archive.drop position' ∧ position' = position + block.length

theorem appendCanonical_eq_ok {path : String} {entry : Tar.Entry} {position position' : Nat} :
    appendCanonical format archive path entry position = .ok position' ↔
      Rewritten format archive ⟨regularExportHeader entry.size, path, entry.bytes⟩ position
        position' := by
  simp only [appendCanonical, bind_eq_ok, mapError_eq_ok, writeCanonical_eq_ok]
  exact ⟨fun h => ⟨rfl, h⟩, fun h => h.written⟩

theorem validateAttachment_eq_ok {path : String} {entry : Tar.Entry} {state state' : ExportState} :
    validateAttachment format archive path entry state = .ok state' ↔
      AttachmentText path ∧ (∀ previous ∈ state.previousAttachment, previous < path) ∧
        Rewritten format archive ⟨regularExportHeader entry.size, path, entry.bytes⟩ state.position
          state'.position ∧
        state' = { state with previousAttachment := some path, position := state'.position } := by
  have hprevious : (¬ state.previousAttachment.any fun previous => path ≤ previous) ↔
      ∀ previous ∈ state.previousAttachment, previous < path := by
    cases state.previousAttachment <;> simp
  simp only [validateAttachment, bind_eq_ok, exists_unit, rejectIf_eq_ok, not_not, hprevious,
    appendCanonical_eq_ok, pure_eq_ok, Except.ok.injEq, AttachmentText]
  constructor
  · rintro ⟨htext, horder, position, hrewritten, rfl⟩
    exact ⟨htext, horder, hrewritten, rfl⟩
  · rintro ⟨htext, horder, hrewritten, hstate⟩
    exact ⟨htext, horder, _, hrewritten, hstate.symm⟩

theorem validateIndex_eq_ok {path : String} {entry : Tar.Entry} {state state' : ExportState} :
    validateIndex x format archive path entry state = .ok state' ↔
      entry.bytes.length = entry.size ∧ ∃ metadata,
        decodeDocumentMetadata x entry.bytes
          PackagePolicy.default.limits.maximumFrontMatterBytes = .ok metadata ∧
        Rewritten format archive ⟨regularExportHeader entry.size, path, entry.bytes⟩ state.position
          state'.position ∧
        state' = { state with
          documentId := some metadata.documentId, position := state'.position } := by
  simp only [validateIndex, bind_eq_ok, exists_unit, rejectIf_eq_ok, ne_eq, not_not,
    mapError_eq_ok, appendCanonical_eq_ok, pure_eq_ok, Except.ok.injEq]
  constructor
  · rintro ⟨hlength, metadata, hmetadata, position, hrewritten, rfl⟩
    exact ⟨hlength, metadata, hmetadata, hrewritten, rfl⟩
  · rintro ⟨hlength, metadata, hmetadata, hrewritten, hstate⟩
    exact ⟨hlength, metadata, hmetadata, _, hrewritten, hstate.symm⟩

/-- The checks on a record that do not depend on what it is. -/
structure Admitted (index : Nat) (record : Tar.Record) (state : ExportState) : Prop where
  count : index < PackagePolicy.default.limits.maximumFileCount
  single : (Tar.components record.name).length = 1
  fresh : Tar.components record.name ∉ state.names
  file : record.header.size ≤ PackagePolicy.default.limits.maximumFileBytes
  total : state.totalBytes + record.header.size ≤ PackagePolicy.default.limits.maximumTotalBytes
  first : index = 0 → Tar.components record.name = ["index.md"]

/-- The state after an entry, whatever it is. -/
def ExportState.counted (state : ExportState) (record : Tar.Record) (position : Nat) : ExportState :=
  { state with
    names := Tar.components record.name :: state.names
    totalBytes := state.totalBytes + record.header.size
    position }

/-- What an accepted entry does. -/
structure StepsTo (x : Externals) (format : Tar.Format) (archive : Bytes) (index : Nat)
    (record : Tar.Record) (state state' : ExportState) : Prop where
  admitted : Admitted index record state
  rewritten : Rewritten format archive record state.position state'.position
  content :
    if Tar.components record.name = ["index.md"] then
      record.bytes.length = record.header.size ∧ ∃ metadata,
        decodeDocumentMetadata x record.bytes
          PackagePolicy.default.limits.maximumFrontMatterBytes = .ok metadata ∧
        state' = { state.counted record state'.position with
          documentId := some metadata.documentId }
    else
      AttachmentText record.name ∧ (∀ previous ∈ state.previousAttachment, previous < record.name) ∧
        state' = { state.counted record state'.position with
          previousAttachment := some record.name }

theorem validateEntry_eq_ok {index : Nat} {item : Except Tar.Failure Tar.Entry}
    {state state' : ExportState} :
    validateEntry x format archive index item state = .ok state' ↔
      ∃ record : Tar.Record, item = .ok record.entry ∧
        StepsTo x format archive index record state state' := by
  unfold validateEntry
  simp only [bind_eq_ok, exists_unit, rejectIf_eq_ok, mapError_eq_ok, ofOption_eq_ok, Nat.not_le,
    Nat.not_lt, ne_eq, not_not]
  constructor
  · rintro ⟨hcount, ⟨entryType, path, size, bytes⟩, rfl, htype, hpath, hfile, htotal, name, hname,
      hfirst, h⟩
    dsimp only at htype hname hpath hfile htotal h
    subst htype hname
    simp only [Option.any_some, decide_eq_true_eq, not_or, not_not] at hpath
    have hadmitted : Admitted index ⟨regularExportHeader size, name, bytes⟩ state :=
      ⟨hcount, hpath.1, hpath.2, hfile, htotal,
        fun hzero => by_contra fun hne => hfirst ⟨hzero, hne⟩⟩
    refine ⟨⟨regularExportHeader size, name, bytes⟩, rfl, ?_⟩
    split at h
    · rename_i hother
      obtain ⟨htext, horder, hrewritten, hstate⟩ := validateAttachment_eq_ok.1 h
      exact ⟨hadmitted, hrewritten, by rw [if_neg hother]; exact ⟨htext, horder, hstate⟩⟩
    · rename_i hindex
      rw [not_not] at hindex
      obtain ⟨hlength, metadata, hmetadata, hrewritten, hstate⟩ := validateIndex_eq_ok.1 h
      exact ⟨hadmitted, hrewritten, by
        rw [if_pos hindex]
        exact ⟨hlength, metadata, hmetadata, hstate⟩⟩
  · rintro ⟨record, rfl, hadmitted, hrewritten, hcontent⟩
    have htype : record.entry.entryType = .regular := by
      rw [Tar.Record.entry, hrewritten.header]
      rfl
    have hrecord : (⟨regularExportHeader record.entry.size, record.name, record.entry.bytes⟩ :
        Tar.Record) = record := by
      conv_rhs => rw [← show (⟨record.header, record.name, record.bytes⟩ : Tar.Record) = record
        from rfl, hrewritten.header]
      rfl
    refine ⟨hadmitted.count, _, rfl, htype, ?_, hadmitted.file, hadmitted.total, _, rfl, ?_, ?_⟩
    · simpa [Tar.Record.entry, hadmitted.single] using hadmitted.fresh
    · exact fun hboth => hboth.2 (hadmitted.first hboth.1)
    · split at hcontent
      · rename_i hindex
        rw [if_neg (not_not.2 hindex), validateIndex_eq_ok, hrecord]
        obtain ⟨hlength, metadata, hmetadata, hstate⟩ := hcontent
        exact ⟨hlength, metadata, hmetadata, hrewritten, hstate⟩
      · rename_i hother
        rw [if_pos hother, validateAttachment_eq_ok, hrecord]
        exact ⟨hcontent.1, hcontent.2.1, hrewritten, hcontent.2.2⟩

end Step

/-! ### Names -/

section Names

/-- An attachment name is stored as it is. -/
theorem AttachmentText.plain {name : String} (h : AttachmentText name) : Tar.Plain name := by
  obtain ⟨⟨⟩, hvalid⟩ := exists_eq_ok_of_isOk h.1
  obtain ⟨hslash, -, hcomponent, -⟩ := validateAttachmentName_eq_ok_iff.1 hvalid
  obtain ⟨hempty, -, -, hcontrol⟩ := validateComponent_eq_ok_iff.1 hcomponent
  refine ⟨?_, hslash, fun hnul => ?_⟩
  · rintro rfl
    exact hempty rfl
  · exact absurd (hcontrol _ hnul) (by decide)

/-- No attachment is an index: its extension is not allowed. -/
theorem AttachmentText.ne_index {name : String} (h : AttachmentText name) : name ≠ "index.md" := by
  rintro rfl
  exact absurd h.2 (by decide)

theorem AttachmentText.components {name : String} (h : AttachmentText name) :
    Tar.components name = [name] :=
  Tar.components_plain h.plain

theorem plain_index : Tar.Plain "index.md" := ⟨by decide, by decide, by decide⟩

theorem AttachmentText.components_ne_index {name : String} (h : AttachmentText name) :
    Tar.components name ≠ ["index.md"] := by
  rw [h.components]
  simpa using h.ne_index

end Names

/-! ### Runs over the entries -/

section Run

variable {x : Externals} {format : Tar.Format} {archive : Bytes}

/-- The attachments of an accepted archive, between two places of it. -/
structure Attached (format : Tar.Format) (archive : Bytes) (records : List Tar.Record)
    (position position' : Nat) : Prop where
  written : ∃ blocks, records.mapM format.append = .ok blocks ∧
    archive.drop position = blocks.flatten ++ archive.drop position'
  header : ∀ record ∈ records, record.header = regularExportHeader record.header.size
  text : ∀ record ∈ records, AttachmentText record.name
  ordered : (records.map Tar.Record.name).Pairwise (· < ·)

/-- After the index, only attachments with increasing names are accepted. -/
theorem validateEntries_attached {index : Nat} {items : List (Except Tar.Failure Tar.Entry)}
    {state state' : ExportState} (hindex : ["index.md"] ∈ state.names)
    (h : validateEntries x format archive index items state = .ok state') :
    ∃ records : List Tar.Record, (items = records.map fun record => .ok record.entry) ∧
      Attached format archive records state.position state'.position ∧
      (∀ previous ∈ state.previousAttachment, ∀ record ∈ records, previous < record.name) ∧
      state'.documentId = state.documentId := by
  induction items generalizing index state with
  | nil =>
      obtain rfl := Except.ok.inj h
      exact ⟨[], rfl, ⟨⟨[], rfl, rfl⟩, by simp, by simp, by simp⟩, by simp, rfl⟩
  | cons item rest ih =>
      simp only [validateEntries, bind_eq_ok] at h
      obtain ⟨next, hnext, h⟩ := h
      obtain ⟨record, rfl, hadmitted, ⟨hheader, block, hblock, hdrop, -⟩, hcontent⟩ :=
        validateEntry_eq_ok.1 hnext
      have hother : Tar.components record.name ≠ ["index.md"] := by
        intro heq
        exact hadmitted.fresh (heq ▸ hindex)
      rw [if_neg hother] at hcontent
      obtain ⟨htext, horder, hstate⟩ := hcontent
      have hnames : ["index.md"] ∈ next.names := by
        rw [hstate]
        exact List.mem_cons_of_mem _ hindex
      obtain ⟨records, hitems, ⟨⟨blocks, hblocks, hwritten⟩, hheaders, htexts, hordered⟩, hafter,
        hdocument⟩ := ih hnames h
      have hprevious : next.previousAttachment = some record.name := by rw [hstate]
      refine ⟨record :: records, by rw [hitems, List.map_cons],
        ⟨⟨block :: blocks, ?_, ?_⟩, ?_, ?_, ?_⟩, ?_, ?_⟩
      · simp [List.mapM_cons, hblock, hblocks]
      · rw [hdrop, hwritten, List.flatten_cons, List.append_assoc]
      · exact List.forall_mem_cons.2 ⟨hheader, hheaders⟩
      · exact List.forall_mem_cons.2 ⟨htext, htexts⟩
      · rw [List.map_cons, List.pairwise_cons]
        refine ⟨fun name hname => ?_, hordered⟩
        obtain ⟨later, hlater, rfl⟩ := List.mem_map.1 hname
        exact hafter _ hprevious later hlater
      · intro previous hprev
        refine List.forall_mem_cons.2 ⟨horder previous hprev, fun later hlater => ?_⟩
        exact (horder previous hprev).trans (hafter _ hprevious later hlater)
      · rw [hdocument, hstate]
        rfl

/-- What an accepted archive is: its records, written one after another, the index first. -/
theorem validated_archive {documentId : DocumentId}
    (h : validateExportArchive x format archive documentId = .ok ()) :
    ∃ (first : Tar.Record) (rest : List Tar.Record),
      format.build (first :: rest) = .ok archive ∧
      (format.entries archive = (first :: rest).map fun record => .ok record.entry) ∧
      Tar.components first.name = ["index.md"] ∧
      (∀ record ∈ first :: rest, record.header = regularExportHeader record.bytes.length) ∧
      (∀ record ∈ rest, AttachmentText record.name) ∧
      (rest.map Tar.Record.name).Pairwise (· < ·) := by
  simp only [validateExportArchive, bind_eq_ok, exists_unit, rejectIf_eq_ok, ne_eq, not_not,
    writeCanonical_eq_ok] at h
  obtain ⟨state, hentries, position, ⟨hfinish, -⟩, rfl, hdocument⟩ := h
  rw [List.drop_length, List.append_nil] at hfinish
  cases hitems : format.entries archive with
  | nil =>
      rw [hitems] at hentries
      obtain rfl := Except.ok.inj hentries
      cases hdocument
  | cons item items =>
      rw [hitems] at hentries
      simp only [validateEntries, bind_eq_ok] at hentries
      obtain ⟨next, hnext, hentries⟩ := hentries
      obtain ⟨first, rfl, hadmitted, ⟨hheader, block, hblock, hdrop, -⟩, hcontent⟩ :=
        validateEntry_eq_ok.1 hnext
      have hindex := hadmitted.first rfl
      rw [if_pos hindex] at hcontent
      obtain ⟨-, metadata, -, hstate⟩ := hcontent
      have hnames : ["index.md"] ∈ next.names := by
        rw [hstate, ← hindex]
        exact List.mem_cons_self
      obtain ⟨rest, rfl, ⟨⟨blocks, hblocks, hwritten⟩, hheaders, htexts, hordered⟩, -, -⟩ :=
        validateEntries_attached hnames hentries
      have hbuild : format.build (first :: rest) = .ok archive := by
        refine Tar.Format.build_eq_ok.2 ⟨block :: blocks, ?_, ?_⟩
        · simp [List.mapM_cons, hblock, hblocks]
        · rw [show archive = archive.drop 0 from rfl, hdrop, hwritten, hfinish]
          simp
      refine ⟨first, rest, hbuild, rfl, hindex, fun record hrecord => ?_, htexts, hordered⟩
      rw [← Tar.Format.size_of_build hbuild hitems hrecord]
      rcases List.mem_cons.1 hrecord with rfl | hrecord
      · exact hheader
      · exact hheaders record hrecord

end Run

/-! ### Accepted archives -/

section Accepted

variable {x : Externals} {format : Tar.Format} {archive : Bytes}

/-- The entries of an export: the index, then attachments with increasing names. -/
structure CanonicalBundle (entries : List CommittedBundleEntry) : Prop where
  index : (entries.head?).map CommittedBundleEntry.name = some "index.md"
  text : ∀ entry ∈ entries.tail, AttachmentText entry.name
  ordered : (entries.tail.map CommittedBundleEntry.name).Pairwise (· < ·)

/-- The first entry is called `index.md`, not by another spelling of that path. -/
def PlainIndex (format : Tar.Format) (archive : Bytes) : Prop :=
  ∀ entry, (format.entries archive).head? = some (.ok entry) → entry.path = some "index.md"

/-- What an archive says: its entries, by path. -/
def decodedBundle (format : Tar.Format) (archive : Bytes) : List (List String × Bytes) :=
  (format.entries archive).filterMap fun item =>
    match item with
    | .ok entry => entry.path.map fun path => (Tar.components path, entry.bytes)
    | .error _ => none

theorem CanonicalBundle.faithful {entries : List CommittedBundleEntry}
    (h : CanonicalBundle entries) :
    ∀ record ∈ entries.map CommittedBundleEntry.record, record.Faithful := by
  intro record hrecord
  obtain ⟨entry, hentry, rfl⟩ := List.mem_map.1 hrecord
  refine ⟨?_, rfl⟩
  cases entries with
  | nil => cases hentry
  | cons first rest =>
      rcases List.mem_cons.1 hentry with rfl | hrest
      · have hname : entry.name = "index.md" := by simpa using h.index
        exact (congrArg Tar.Plain hname).mpr plain_index
      · exact (h.text entry hrest).plain

/-- An accepted archive is what the gateway's writer makes of its entries. -/
theorem accepted_entries {documentId : DocumentId}
    (h : validateExportArchive x format archive documentId = .ok ()) :
    ∃ (first : CommittedBundleEntry) (rest : List CommittedBundleEntry),
      writeExportArchive format (first :: rest) = .ok archive ∧
      (format.entries archive = (first :: rest).map fun entry => .ok entry.record.entry) ∧
      Tar.components first.name = ["index.md"] ∧
      (∀ entry ∈ rest, AttachmentText entry.name) ∧
      (rest.map CommittedBundleEntry.name).Pairwise (· < ·) := by
  obtain ⟨first, rest, hbuild, hentries, hindex, hheaders, htexts, hordered⟩ := validated_archive h
  have hrecords : (first :: rest).map (fun record : Tar.Record =>
      (⟨record.name, record.bytes⟩ : CommittedBundleEntry).record) = first :: rest := by
    refine (List.map_congr_left fun record hmem => ?_).trans (List.map_id _)
    rw [CommittedBundleEntry.record, ← hheaders record hmem]
    rfl
  refine ⟨⟨first.name, first.bytes⟩, rest.map fun record => ⟨record.name, record.bytes⟩, ?_, ?_,
    hindex, ?_, ?_⟩
  · rw [writeExportArchive, List.map_cons, List.map_map, ← hbuild, ← hrecords]
    rfl
  · rw [hentries, ← hrecords]
    simp
  · simpa using htexts
  · rw [List.map_map]
    exact hordered

/-- An accepted archive is one of the gateway's exactly when its first entry is spelled as the
gateway spells it. -/
theorem canonical_iff_plainIndex {documentId : DocumentId}
    (h : validateExportArchive x format archive documentId = .ok ()) :
    (∃ entries, CanonicalBundle entries ∧ writeExportArchive format entries = .ok archive) ↔
      PlainIndex format archive := by
  constructor
  · rintro ⟨entries, hcanonical, hwrite⟩ entry hentry
    obtain ⟨archive', hbuild, hentries⟩ :=
      format.build_faithful hcanonical.faithful
    obtain rfl : archive' = archive := Except.ok.inj (hbuild.symm.trans hwrite)
    cases entries with
    | nil => cases hcanonical.index
    | cons first rest =>
        have hname : first.name = "index.md" := by simpa using hcanonical.index
        rw [hentries] at hentry
        obtain rfl : first.record.entry = entry := by simpa using hentry
        exact congrArg some hname
  · intro hplain
    obtain ⟨first, rest, hwrite, hentries, -, htexts, hordered⟩ := accepted_entries h
    have hname : some first.name = some "index.md" := hplain first.record.entry (by simp [hentries])
    exact ⟨first :: rest, ⟨hname, htexts, hordered⟩, hwrite⟩

theorem decodedBundle_of_entries {entries : List CommittedBundleEntry}
    (h : format.entries archive = entries.map fun entry => .ok entry.record.entry) :
    decodedBundle format archive =
      entries.map fun entry => (Tar.components entry.name, entry.bytes) := by
  rw [decodedBundle, h, List.filterMap_map]
  exact congrFun List.filterMap_eq_map entries

/-- Archives that say the same are the same, if both spell the index as the gateway does. -/
theorem eq_of_decodedBundle_eq {archive' : Bytes} {documentId documentId' : DocumentId}
    (h : validateExportArchive x format archive documentId = .ok ())
    (h' : validateExportArchive x format archive' documentId' = .ok ())
    (hplain : PlainIndex format archive) (hplain' : PlainIndex format archive')
    (hsame : decodedBundle format archive = decodedBundle format archive') : archive = archive' := by
  obtain ⟨first, rest, hwrite, hentries, -, htexts, -⟩ := accepted_entries h
  obtain ⟨first', rest', hwrite', hentries', -, htexts', -⟩ := accepted_entries h'
  have hname : some first.name = some "index.md" := hplain first.record.entry (by simp [hentries])
  have hname' : some first'.name = some "index.md" :=
    hplain' first'.record.entry (by simp [hentries'])
  rw [decodedBundle_of_entries hentries, decodedBundle_of_entries hentries', List.map_cons,
    List.map_cons, List.cons.injEq] at hsame
  obtain ⟨hfirst, hrest⟩ := hsame
  have hfirsts : first = first' := by
    cases first
    cases first'
    simp_all
  have hrests : rest = rest' := by
    have hname : ∀ l : List CommittedBundleEntry, (∀ entry ∈ l, AttachmentText entry.name) →
        l.map (fun entry => (Tar.components entry.name, entry.bytes)) =
          l.map fun entry => ([entry.name], entry.bytes) := fun l hl =>
      List.map_congr_left fun entry hentry => by rw [(hl entry hentry).components]
    rw [hname rest htexts, hname rest' htexts'] at hrest
    refine List.map_injective_iff.2 (fun entry entry' heq => ?_) hrest
    cases entry
    cases entry'
    simp_all
  subst hfirsts hrests
  exact Except.ok.inj (hwrite.symm.trans hwrite')

end Accepted

/-! ### Every export is accepted -/

section Exported

variable {x : Externals} {format : Tar.Format} {archive : Bytes}

/-- Attachments with increasing names that fit the limits are accepted one after another. -/
theorem validateEntries_of_attached {entries : List CommittedBundleEntry} {blocks : List Bytes}
    {after : Bytes} (index : Nat) (state : ExportState) (hindex : 0 < index)
    (hcount : index + entries.length ≤ PackagePolicy.default.limits.maximumFileCount)
    (htext : ∀ entry ∈ entries, AttachmentText entry.name)
    (hordered : (entries.map CommittedBundleEntry.name).Pairwise (· < ·))
    (hprevious : ∀ previous ∈ state.previousAttachment, ∀ entry ∈ entries, previous < entry.name)
    (hfresh : ∀ entry ∈ entries, [entry.name] ∉ state.names)
    (hfile : ∀ entry ∈ entries,
      entry.bytes.length ≤ PackagePolicy.default.limits.maximumFileBytes)
    (htotal : state.totalBytes + (entries.map fun entry => entry.bytes.length).sum ≤
      PackagePolicy.default.limits.maximumTotalBytes)
    (hblocks : (entries.map CommittedBundleEntry.record).mapM format.append = .ok blocks)
    (hdrop : archive.drop state.position = blocks.flatten ++ after) :
    ∃ state', validateEntries x format archive index
        (entries.map fun entry => .ok entry.record.entry) state = .ok state' ∧
      archive.drop state'.position = after ∧ state'.documentId = state.documentId := by
  induction entries generalizing blocks index state with
  | nil =>
      obtain rfl := Except.ok.inj hblocks
      exact ⟨state, rfl, by simpa using hdrop, rfl⟩
  | cons entry rest ih =>
      simp only [List.map_cons, List.mapM_cons, bind_eq_ok, pure_eq_ok, Except.ok.injEq] at hblocks
      obtain ⟨block, hblock, blocks, hblocks, rfl⟩ := hblocks
      rw [List.flatten_cons, List.append_assoc] at hdrop
      rw [List.map_cons, List.pairwise_cons] at hordered
      rw [List.map_cons, List.sum_cons] at htotal
      rw [List.length_cons] at hcount
      have hhere := htext entry List.mem_cons_self
      have hnext : archive.drop (state.position + block.length) = blocks.flatten ++ after := by
        rw [← List.drop_drop, hdrop, List.drop_left]
      let next : ExportState := { state.counted entry.record (state.position + block.length) with
        previousAttachment := some entry.name }
      have hstep : validateEntry x format archive index (.ok entry.record.entry) state =
          .ok next := by
        refine validateEntry_eq_ok.2 ⟨entry.record, rfl, ⟨by omega, ?_, ?_, ?_, ?_, by omega⟩,
          ⟨rfl, block, hblock, ?_, rfl⟩, ?_⟩
        · exact congrArg List.length hhere.components
        · have := hfresh entry List.mem_cons_self
          rwa [← hhere.components] at this
        · exact hfile entry List.mem_cons_self
        · exact Nat.le_trans (Nat.add_le_add_left (Nat.le_add_right _ _) _) htotal
        · change _ = block ++ archive.drop (state.position + block.length)
          rw [hnext, hdrop]
        · rw [if_neg (show Tar.components entry.record.name ≠ ["index.md"] from
            hhere.components_ne_index)]
          exact ⟨hhere, fun previous hprev => hprevious previous hprev entry List.mem_cons_self,
            rfl⟩
      have hlater : ∀ later ∈ rest, entry.name < later.name := fun later hmem =>
        hordered.1 _ (List.mem_map_of_mem hmem)
      have hseen : ∀ later ∈ rest, [later.name] ∉ next.names := by
        intro later hmem hseen
        rcases List.mem_cons.1 hseen with hsame | hseen
        · rw [show Tar.components entry.record.name = [entry.name] from hhere.components,
            List.singleton_inj] at hsame
          exact (hlater later hmem).ne' hsame
        · exact hfresh later (List.mem_cons_of_mem _ hmem) hseen
      have hbytes : next.totalBytes + (rest.map fun entry => entry.bytes.length).sum ≤
          PackagePolicy.default.limits.maximumTotalBytes := by
        change state.totalBytes + entry.bytes.length + _ ≤ _
        rwa [Nat.add_assoc]
      have hafter : ∀ previous ∈ next.previousAttachment, ∀ later ∈ rest, previous < later.name := by
        intro previous hprev
        obtain rfl := Option.mem_some.1 hprev
        exact hlater
      obtain ⟨state', hrun, hstop, hdocument⟩ := ih (index + 1) next (Nat.succ_pos _) (by omega)
        (fun later hmem => htext later (List.mem_cons_of_mem _ hmem)) hordered.2 hafter hseen
        (fun later hmem => hfile later (List.mem_cons_of_mem _ hmem)) hbytes hblocks hnext
      refine ⟨state', ?_, hstop, hdocument⟩
      rw [List.map_cons, validateEntries, hstep, ok_bind]
      exact hrun

/-- A bundle the package limits allow. -/
structure FittingBundle (x : Externals) (documentId : DocumentId) (markdown : Bytes)
    (attachments : List CommittedBundleEntry) : Prop where
  canonical : CanonicalBundle (⟨"index.md", markdown⟩ :: attachments)
  count : attachments.length + 1 ≤ PackagePolicy.default.limits.maximumFileCount
  files : ∀ entry ∈ attachments,
    entry.bytes.length ≤ PackagePolicy.default.limits.maximumFileBytes
  index : markdown.length ≤ PackagePolicy.default.limits.maximumFileBytes
  total : markdown.length + (attachments.map fun entry => entry.bytes.length).sum ≤
    PackagePolicy.default.limits.maximumTotalBytes
  metadata : ∃ metadata, decodeDocumentMetadata x markdown
      PackagePolicy.default.limits.maximumFrontMatterBytes = .ok metadata ∧
    metadata.documentId = documentId

theorem FittingBundle.accepted {documentId : DocumentId} {markdown : Bytes}
    {attachments : List CommittedBundleEntry} (h : FittingBundle x documentId markdown attachments) :
    ∃ archive, writeExportArchive format (⟨"index.md", markdown⟩ :: attachments) = .ok archive ∧
      validateExportArchive x format archive documentId = .ok () := by
  obtain ⟨archive, hbuild, hentries⟩ :=
    format.build_faithful h.canonical.faithful
  refine ⟨archive, hbuild, ?_⟩
  obtain ⟨blocks, hblocks, harchive⟩ := Tar.Format.build_eq_ok.1 hbuild
  simp only [List.map_cons, List.mapM_cons, bind_eq_ok, pure_eq_ok, Except.ok.injEq] at hblocks
  obtain ⟨block, hblock, blocks, hblocks, rfl⟩ := hblocks
  obtain ⟨metadata, hmetadata, hid⟩ := h.metadata
  let index : CommittedBundleEntry := ⟨"index.md", markdown⟩
  have hcomponents : Tar.components index.record.name = ["index.md"] :=
    Tar.components_plain plain_index
  have hnext : archive.drop (0 + block.length) = blocks.flatten ++ format.finish := by
    rw [harchive, Nat.zero_add, List.flatten_cons, List.append_assoc, List.drop_left]
  let next : ExportState := { ({} : ExportState).counted index.record (0 + block.length) with
    documentId := some metadata.documentId }
  have hstep : validateEntry x format archive 0 (.ok index.record.entry) {} = .ok next := by
    refine validateEntry_eq_ok.2 ⟨index.record, rfl, ⟨by decide, ?_, by simp, h.index, ?_,
      fun _ => hcomponents⟩, ⟨rfl, block, hblock, ?_, rfl⟩, ?_⟩
    · rw [hcomponents]
      rfl
    · have := h.total
      change 0 + markdown.length ≤ _
      omega
    · change archive = block ++ archive.drop (0 + block.length)
      rw [hnext, harchive, List.flatten_cons, List.append_assoc]
    · rw [if_pos hcomponents]
      exact ⟨rfl, metadata, hmetadata, rfl⟩
  have hnames : next.names = [["index.md"]] := congrArg (· :: []) hcomponents
  have hfresh : ∀ entry ∈ attachments, [entry.name] ∉ next.names := by
    intro entry hentry
    rw [hnames]
    simpa using (h.canonical.text entry hentry).ne_index
  have hbytes : next.totalBytes + (attachments.map fun entry => entry.bytes.length).sum ≤
      PackagePolicy.default.limits.maximumTotalBytes := by
    change 0 + markdown.length + _ ≤ _
    have := h.total
    omega
  have hcount : 1 + attachments.length ≤ PackagePolicy.default.limits.maximumFileCount := by
    have := h.count
    omega
  obtain ⟨state, hrun, hafter, hdocument⟩ := validateEntries_of_attached (x := x) 1 next
    Nat.one_pos hcount h.canonical.text h.canonical.ordered (fun _ hprevious => by cases hprevious)
    hfresh h.files hbytes hblocks hnext
  have hpositive : format.finish.length ≠ 0 := mt List.length_eq_zero_iff.1 format.finish_ne_nil
  have hlength := congrArg List.length hafter
  rw [List.length_drop] at hlength
  have hfinish : writeCanonical archive state.position format.finish = .ok archive.length :=
    writeCanonical_eq_ok.2 ⟨by simp [hafter], by omega⟩
  have hall : validateEntries x format archive 0 (format.entries archive) {} = .ok state := by
    rw [hentries, List.map_cons, List.map_cons, validateEntries, hstep, ok_bind, List.map_map]
    exact hrun
  simp [validateExportArchive, hall, hfinish, hdocument, hid, next]

end Exported

/-! ### Bundles of a pinned snapshot -/

section Bundle

variable {x : Externals} {policy : ContentPolicy} {store : CommittedStore}
  {snapshot : CommittedSnapshot} {documentId : DocumentId} {record : DocumentRecord}

theorem readAttachment_eq_ok {attachment : AttachmentRecord} {entry : CommittedBundleEntry}
    (h : snapshot.readAttachment x record attachment = .ok entry) :
    entry.name = fileName attachment.relativePath ∧
      entry.bytes.length = attachment.byteLength := by
  simp only [CommittedSnapshot.readAttachment, bind_eq_ok, exists_unit, rejectIf_eq_ok, ne_eq,
    not_not, pure_eq_ok, Except.ok.injEq] at h
  obtain ⟨file, -, hlength, committed, -, -, rfl⟩ := h
  exact ⟨rfl, hlength⟩

/-- What is read of an indexed document is the file its record was made from. -/
theorem readMarkdown_decodes (h : store.snapshot x policy .default = .ok snapshot)
    (hrecord : record ∈ snapshot.index.documents) {markdown : Bytes}
    (hmarkdown : snapshot.readMarkdown x record = .ok markdown) :
    decodeDocumentMetadata x markdown policy.maximumFrontMatterBytes = .ok record.metadata ∧
      markdown.length = record.byteLength ∧ markdown.length ≤ policy.maximumMarkdownBytes := by
  obtain ⟨-, -, hindexed, -, -, hroot, hmaximum, -, -⟩ := snapshot_eq_ok_iff.1 h
  rw [← hroot] at hindexed
  obtain ⟨leaf, hfile, -, hfrom⟩ := (mem_documents_iff hindexed).1 hrecord
  obtain ⟨hplain, -⟩ := file_of_build hindexed hfile
  obtain ⟨hdecode, -, -, -, -, -, -, hlength⟩ := fromMarkdown_eq_ok_iff.1 hfrom
  simp only [CommittedSnapshot.readMarkdown, openRegular_of_plain hfile hplain, ok_bind, bind_eq_ok,
    exists_unit, rejectIf_eq_ok, Nat.not_lt, pure_eq_ok, Except.ok.injEq, hmaximum] at hmarkdown
  obtain ⟨hle, -, rfl⟩ := hmarkdown
  exact ⟨hdecode, hlength.symm, hle⟩

/-- The name and the size of an indexed attachment. -/
theorem attachment_valid (h : store.snapshot x policy .default = .ok snapshot)
    {attachment : AttachmentRecord} (hattachment : attachment ∈ snapshot.index.attachments) :
    AttachmentText (fileName attachment.relativePath) ∧
      attachment.byteLength ≤ PackagePolicy.default.limits.maximumFileBytes := by
  obtain ⟨-, -, hindexed, -⟩ := snapshot_eq_ok_iff.1 h
  obtain ⟨leaf, hfile, hmd, hlength⟩ := (mem_attachments_iff hindexed).1 hattachment
  obtain ⟨-, hvalid⟩ := file_of_build hindexed hfile
  rw [if_neg hmd] at hvalid
  obtain ⟨-, hfiles, -⟩ := build_eq_ok_iff.1 hindexed
  have hlocated := hfiles.located attachment (List.mem_filterMap.2
    ⟨(attachment.relativePath, leaf), FileTree.mem_files.2 hfile, by simp [attachmentOf, hmd, ← hlength]⟩)
  have hname : (validateAttachmentName (fileName attachment.relativePath)).isOk := by
    by_contra hname
    simp [validateAttachmentLocation, hname] at hlocated
  exact ⟨⟨hname, hvalid.2⟩, hlength ▸ hvalid.1⟩

theorem attachmentsOf_sublist (files : List (RelPath × ContentLeaf)) :
    ((attachmentsOf files).map AttachmentRecord.relativePath).Sublist (files.map Prod.fst) := by
  induction files with
  | nil => exact .slnil
  | cons file rest ih =>
      by_cases hmd : isMarkdown file.1
      · simpa [attachmentsOf, attachmentOf, hmd] using ih.cons file.1
      · simpa [attachmentsOf, attachmentOf, hmd] using ih

/-- Attachments have distinct paths. -/
theorem nodup_attachments {tree : ContentTree} {index : ContentIndex}
    {packagePolicy : PackagePolicy}
    (h : ContentIndex.build x policy packagePolicy tree = .ok index) :
    (index.attachments.map AttachmentRecord.relativePath).Nodup := by
  obtain ⟨-, -, rfl⟩ := build_eq_ok_iff.1 h
  have hpaths : ((filesAmong tree tree.walk).map Prod.fst).Sublist tree.walk := by
    generalize tree.walk = paths
    induction paths with
    | nil => exact .slnil
    | cons path rest ih =>
        cases hleaf : tree.fileAt path with
        | none => simpa [filesAmong, hleaf] using ih.cons path
        | some leaf => simpa [filesAmong, hleaf] using ih
  exact tree.nodup_walk.sublist ((attachmentsOf_sublist _).trans hpaths)

theorem eq_append_fileName {path directory : RelPath} (hne : path ≠ [])
    (hin : path.dropLast = directory) : path = directory ++ [fileName path] := by
  rw [fileName, List.getLastD_eq_getLast?, List.getLast?_eq_some_getLast hne, Option.getD_some,
    ← hin, List.dropLast_append_getLast hne]

/-- In one directory the order of the paths is the order of the names. -/
theorem fileName_lt {directory left right : RelPath} (hleft : left = directory ++ [fileName left])
    (hright : right = directory ++ [fileName right]) (hle : left ≤ right) (hne : left ≠ right) :
    fileName left < fileName right := by
  rcases lt_trichotomy (fileName left) (fileName right) with hlt | heq | hgt
  · exact hlt
  · exact absurd (by rw [hleft, hright, heq]) hne
  · have hlt : right < left := by
      rw [hleft, hright]
      exact List.Lex.append_left _ (.rel hgt) directory
    exact absurd hle (not_le_of_gt hlt)

/-- The attachments beside a document, as a bundle lists them. -/
def sortedAttachments (snapshot : CommittedSnapshot) (record : DocumentRecord) :
    List AttachmentRecord :=
  (snapshot.index.attachmentsBeside record).mergeSort fun left right =>
    decide (left.relativePath ≤ right.relativePath)

theorem mem_sortedAttachments {attachment : AttachmentRecord} :
    attachment ∈ sortedAttachments snapshot record ↔
      attachment ∈ snapshot.index.attachments ∧
        attachment.relativePath.dropLast = record.relativePath.dropLast := by
  simp [sortedAttachments, (List.mergeSort_perm _ _).mem_iff, ContentIndex.attachmentsBeside]

theorem sortedAttachments_ordered (h : store.snapshot x policy .default = .ok snapshot) :
    ((sortedAttachments snapshot record).map fun attachment =>
      fileName attachment.relativePath).Pairwise (· < ·) := by
  obtain ⟨-, -, hindexed, -⟩ := snapshot_eq_ok_iff.1 h
  have hsorted : (sortedAttachments snapshot record).Pairwise fun left right =>
      decide (left.relativePath ≤ right.relativePath) := by
    refine List.pairwise_mergeSort (fun a b c hab hbc => ?_) (fun a b => ?_) _
    · rw [decide_eq_true_eq] at hab hbc ⊢
      exact hab.trans hbc
    · simpa using le_total a.relativePath b.relativePath
  have hnodup : ((sortedAttachments snapshot record).map AttachmentRecord.relativePath).Nodup := by
    rw [sortedAttachments, ((List.mergeSort_perm _ _).map _).nodup_iff]
    exact (nodup_attachments hindexed).sublist (List.filter_sublist.map _)
  refine List.pairwise_map.2 ((hsorted.and (List.pairwise_map.1 hnodup)).imp_of_mem ?_)
  rintro left right hleft hright ⟨hle, hne⟩
  have hpath : ∀ attachment ∈ sortedAttachments snapshot record, attachment.relativePath =
      record.relativePath.dropLast ++ [fileName attachment.relativePath] := by
    intro attachment hmem
    obtain ⟨hattachment, hin⟩ := mem_sortedAttachments.1 hmem
    refine eq_append_fileName ?_ hin
    intro hnil
    obtain ⟨leaf, hfile, -⟩ := (mem_attachments_iff hindexed).1 hattachment
    simp [hnil] at hfile
  exact fileName_lt (hpath left hleft) (hpath right hright) (of_decide_eq_true hle) hne

/-- A bundle of a snapshot that was indexed under the default limits fits them. -/
theorem bundle_fits (hmarkdown : policy.maximumMarkdownBytes = 32 * 1024 * 1024)
    (hfrontMatter : policy.maximumFrontMatterBytes = 64 * 1024)
    (h : store.snapshot x policy .default = .ok snapshot) {bundle : CommittedBundle}
    (hbundle : snapshot.bundle x documentId = .ok bundle) :
    ∃ markdown attachments, bundle.entries = ⟨"index.md", markdown⟩ :: attachments ∧
      FittingBundle x documentId markdown attachments := by
  obtain ⟨-, -, hindexed, -, -, -, -, hbytes, hentries⟩ := snapshot_eq_ok_iff.1 h
  simp only [CommittedSnapshot.bundle, bind_eq_ok, exists_unit, ofOption_eq_ok, rejectIf_eq_ok,
    Nat.not_lt, pure_eq_ok, Except.ok.injEq] at hbundle
  obtain ⟨record, hget, hcount, htotal, markdown, hread, attachments, hattachments, rfl⟩ := hbundle
  change (sortedAttachments snapshot record).mapM _ = _ at hattachments
  change (sortedAttachments snapshot record).length + 1 ≤ _ at hcount
  change bundleBytes _ _ (sortedAttachments snapshot record) = _ at htotal
  obtain ⟨hrecord, hid⟩ := (get_eq_some_iff hindexed).1 hget
  obtain ⟨hdecode, hlength, hle⟩ := readMarkdown_decodes h hrecord hread
  have hpairs := (forall₂_of_mapM_eq_ok hattachments).imp fun _ _ => readAttachment_eq_ok
  have hnames : attachments.map CommittedBundleEntry.name =
      (sortedAttachments snapshot record).map fun attachment =>
        fileName attachment.relativePath := by
    rw [← List.forall₂_eq_eq_eq, List.forall₂_map_left_iff, List.forall₂_map_right_iff]
    exact hpairs.flip.imp fun _ _ hpair => hpair.1
  have hsizes : attachments.map (fun entry => entry.bytes.length) =
      (sortedAttachments snapshot record).map AttachmentRecord.byteLength := by
    rw [← List.forall₂_eq_eq_eq, List.forall₂_map_left_iff, List.forall₂_map_right_iff]
    exact hpairs.flip.imp fun _ _ hpair => hpair.2
  have hvalid : ∀ attachment ∈ sortedAttachments snapshot record,
      AttachmentText (fileName attachment.relativePath) ∧
        attachment.byteLength ≤ PackagePolicy.default.limits.maximumFileBytes := fun _ hmem =>
    attachment_valid h (mem_sortedAttachments.1 hmem).1
  refine ⟨markdown, attachments, rfl, ⟨rfl, fun entry hentry => ?_, ?_⟩, ?_, fun entry hentry => ?_,
    ?_, ?_, record.metadata, ?_, hid⟩
  · change entry ∈ attachments at hentry
    have hname := List.mem_map_of_mem (f := CommittedBundleEntry.name) hentry
    rw [hnames] at hname
    obtain ⟨attachment, hmem, heq⟩ := List.mem_map.1 hname
    exact heq ▸ (hvalid attachment hmem).1
  · change (attachments.map CommittedBundleEntry.name).Pairwise _
    rw [hnames]
    exact sortedAttachments_ordered h
  · rwa [← hpairs.length_eq, ← hentries]
  · have hsize := List.mem_map_of_mem (f := fun entry : CommittedBundleEntry =>
      entry.bytes.length) hentry
    rw [hsizes] at hsize
    obtain ⟨attachment, hmem, heq⟩ := List.mem_map.1 hsize
    exact heq ▸ (hvalid attachment hmem).2
  · exact hle.trans hmarkdown.le
  · rw [hsizes, hlength]
    rw [hbytes, bundleBytes_eq_ok_iff] at htotal
    by_cases hnil : sortedAttachments snapshot record = []
    · rw [hnil, ← hlength]
      exact hle.trans (hmarkdown.le.trans (by decide))
    · exact htotal hnil
  · rw [hfrontMatter] at hdecode
    exact hdecode

end Bundle

/-! ### Exports and their check -/

/-- The export and its check: every export is accepted, and an accepted archive is an export, the
only one that says what it says, exactly when its first entry is spelled `index.md`. -/
theorem export_and_validator_agree (x : Externals) (format : Tar.Format) :
    (∀ (policy : ContentPolicy) (store : CommittedStore) (snapshot : CommittedSnapshot)
        (documentId : DocumentId) (bundle : CommittedBundle),
      policy.maximumMarkdownBytes = 32 * 1024 * 1024 →
      policy.maximumFrontMatterBytes = 64 * 1024 →
      store.snapshot x policy .default = .ok snapshot →
      snapshot.bundle x documentId = .ok bundle →
      ∃ archive, writeExportArchive format bundle.entries = .ok archive ∧
        validateExportArchive x format archive documentId = .ok ()) ∧
    (∀ (archive : Bytes) (documentId : DocumentId),
      validateExportArchive x format archive documentId = .ok () →
      ((∃ entries, CanonicalBundle entries ∧ writeExportArchive format entries = .ok archive) ↔
        PlainIndex format archive)) ∧
    ∀ (archive archive' : Bytes) (documentId documentId' : DocumentId),
      validateExportArchive x format archive documentId = .ok () →
      validateExportArchive x format archive' documentId' = .ok () →
      PlainIndex format archive → PlainIndex format archive' →
      decodedBundle format archive = decodedBundle format archive' → archive = archive' := by
  refine ⟨fun policy store snapshot documentId bundle hmarkdown hfrontMatter hsnapshot hbundle => ?_,
    fun archive documentId h => canonical_iff_plainIndex h,
    fun archive archive' documentId documentId' => eq_of_decodedBundle_eq⟩
  obtain ⟨markdown, attachments, hentries, hfits⟩ :=
    bundle_fits hmarkdown hfrontMatter hsnapshot hbundle
  rw [hentries]
  exact hfits.accepted

end Client

namespace ExportSample

open Sample Client

/-! A small archive format: a tag for each record, then its name and its bytes, each as a list
that marks every byte and its own end. -/

def encodeList (bytes : Bytes) : Bytes := bytes.flatMap (fun b => [1, b]) ++ [0]

def encodeName (name : List Char) : Bytes :=
  name.flatMap fun c =>
    [UInt8.ofNat (c.toNat / 65536), UInt8.ofNat (c.toNat / 256), UInt8.ofNat c.toNat]

def readList : Bytes → Option (Bytes × Bytes)
  | 0 :: rest => some ([], rest)
  | 1 :: b :: rest => (readList rest).map fun found => (b :: found.1, found.2)
  | _ => none

def readName : Bytes → List Char
  | a :: b :: c :: rest => Char.ofNat (a.toNat * 65536 + b.toNat * 256 + c.toNat) :: readName rest
  | _ => []

def tag : Tar.EntryType → UInt8
  | .regular => 2
  | .other => 3

def readTag (b : UInt8) : Option Tar.EntryType :=
  if b = 2 then some .regular else if b = 3 then some .other else none

def block (record : Tar.Record) : Bytes :=
  tag record.header.entryType ::
    (encodeList (encodeName record.name.toList) ++ encodeList record.bytes)

def readEntry (archive : Bytes) : Option (Tar.Entry × Bytes) := do
  let (first, rest) ← archive.head?.map fun first => (first, archive.tail)
  let entryType ← readTag first
  let (name, rest) ← readList rest
  let (bytes, rest) ← readList rest
  pure (⟨entryType, some (String.ofList (readName name)), bytes.length, bytes⟩, rest)

/-- The entries up to the first byte that starts none. -/
def readEntries : Nat → Bytes → List (Except Tar.Failure Tar.Entry)
  | 0, _ => []
  | fuel + 1, archive =>
      match readEntry archive with
      | none => []
      | some (entry, rest) => .ok entry :: readEntries fuel rest

theorem readList_encodeList (bytes rest : Bytes) :
    readList (encodeList bytes ++ rest) = some (bytes, rest) := by
  induction bytes with
  | nil => rfl
  | cons b bytes ih =>
      change (readList (encodeList bytes ++ rest)).map _ = _
      rw [ih]
      rfl

theorem readName_encodeName (name : List Char) : readName (encodeName name) = name := by
  induction name with
  | nil => rfl
  | cons c name ih =>
      have hc : c.toNat < 16777216 := by
        have hvalid : c.toNat < 0xd800 ∨ 0xdfff < c.toNat ∧ c.toNat < 0x110000 := c.valid
        omega
      have hsum : (UInt8.ofNat (c.toNat / 65536)).toNat * 65536 +
          (UInt8.ofNat (c.toNat / 256)).toNat * 256 + (UInt8.ofNat c.toNat).toNat = c.toNat := by
        simp only [UInt8.toNat_ofNat']
        omega
      change Char.ofNat _ :: readName (encodeName name) = _
      rw [hsum, ih, Char.ofNat_toNat]

theorem readTag_tag (entryType : Tar.EntryType) : readTag (tag entryType) = some entryType := by
  cases entryType <;> rfl

theorem readEntry_block {record : Tar.Record} (h : record.header.size = record.bytes.length)
    (rest : Bytes) : readEntry (block record ++ rest) = some (record.entry, rest) := by
  simp [readEntry, block, readTag_tag, readList_encodeList, readName_encodeName, Tar.Record.entry, h]

/-- The library refuses a record whose header is wrong about the bytes. -/
def appendRecord (record : Tar.Record) : Except Tar.Failure Bytes :=
  if record.header.size = record.bytes.length then .ok (block record) else .error .io

theorem appendRecord_eq_ok {record : Tar.Record} {bytes : Bytes}
    (h : appendRecord record = .ok bytes) :
    record.header.size = record.bytes.length ∧ bytes = block record := by
  unfold appendRecord at h
  split at h
  · rename_i hsize
    exact ⟨hsize, (Except.ok.inj h).symm⟩
  · cases h

theorem readEntries_blocks {records : List Tar.Record} {blocks : List Bytes} {fuel : Nat}
    (hfuel : records.length ≤ fuel) (h : records.mapM appendRecord = .ok blocks) :
    readEntries fuel (blocks.flatten ++ [0]) = records.map fun record => .ok record.entry := by
  induction records generalizing blocks fuel with
  | nil =>
      obtain rfl := Except.ok.inj h
      cases fuel <;> rfl
  | cons record records ih =>
      simp only [List.mapM_cons, bind_eq_ok, pure_eq_ok, Except.ok.injEq] at h
      obtain ⟨bytes, hbytes, blocks, hblocks, rfl⟩ := h
      obtain ⟨hsize, rfl⟩ := appendRecord_eq_ok hbytes
      obtain ⟨fuel, rfl⟩ : ∃ less, fuel = less + 1 := ⟨fuel - 1, by simp at hfuel; omega⟩
      rw [List.flatten_cons, List.append_assoc, readEntries, readEntry_block hsize, List.map_cons]
      exact congrArg _ (ih (by simpa using hfuel) hblocks)

theorem length_le_flatten {records : List Tar.Record} {blocks : List Bytes}
    (h : records.mapM appendRecord = .ok blocks) : records.length ≤ blocks.flatten.length := by
  induction records generalizing blocks with
  | nil => exact Nat.zero_le _
  | cons record records ih =>
      simp only [List.mapM_cons, bind_eq_ok, pure_eq_ok, Except.ok.injEq] at h
      obtain ⟨bytes, hbytes, blocks, hblocks, rfl⟩ := h
      obtain ⟨-, rfl⟩ := appendRecord_eq_ok hbytes
      have := ih hblocks
      simp only [List.length_cons, List.flatten_cons, List.length_append, block]
      omega

theorem size_of_mem_readEntries {fuel : Nat} {archive : Bytes} {entry : Tar.Entry}
    (h : .ok entry ∈ readEntries fuel archive) : entry.bytes.length ≤ entry.size := by
  induction fuel generalizing archive with
  | zero => cases h
  | succ fuel ih =>
      unfold readEntries at h
      split at h
      · cases h
      · rename_i found rest hread
        rcases List.mem_cons.1 h with hsame | hmem
        · obtain rfl := Except.ok.inj hsame
          simp only [readEntry, Option.bind_eq_bind, Option.bind_eq_some_iff, Option.pure_def,
            Option.some.injEq, Prod.exists, Prod.mk.injEq] at hread
          obtain ⟨-, -, -, -, -, -, -, -, -, -, -, rfl, -⟩ := hread
          exact Nat.le_refl _
        · exact ih hmem

def format : Tar.Format where
  append := appendRecord
  finish := [0]
  entries archive := readEntries archive.length archive
  append_faithful h := ⟨_, if_pos h.size⟩
  entries_build := by
    intro records blocks _ hblocks
    refine readEntries_blocks ?_ hblocks
    rw [List.length_append]
    exact (length_le_flatten hblocks).trans (Nat.le_add_right _ _)
  length_le := size_of_mem_readEntries
  cut := by
    intro archive back block before record after blocks _ _ hblock _ hshort
    have := (appendRecord_eq_ok hblock).1
    omega
  finish_ne_nil := by simp

/-- An archive of the one document, under some spelling of its name. -/
def archiveOf (name : String) : Bytes :=
  block ⟨regularExportHeader (markdown 97).length, name, markdown 97⟩ ++ [0]

/-- With a slash after `index.md` the client accepts a second archive of the same bundle, which
no export produces. -/
theorem slashed_index_accepted :
    validateExportArchive (externals moveAndAttach) format (archiveOf "index.md") document = .ok () ∧
      validateExportArchive (externals moveAndAttach) format (archiveOf "index.md/") document =
        .ok () ∧
      archiveOf "index.md" ≠ archiveOf "index.md/" ∧
      decodedBundle format (archiveOf "index.md") = decodedBundle format (archiveOf "index.md/") ∧
      ¬ ∃ entries, CanonicalBundle entries ∧
        writeExportArchive format entries = .ok (archiveOf "index.md/") := by
  have haccepted : validateExportArchive (externals moveAndAttach) format (archiveOf "index.md/")
      document = .ok () := by decide +kernel
  refine ⟨by decide +kernel, haccepted, by decide +kernel, by decide +kernel, ?_⟩
  rw [canonical_iff_plainIndex haccepted]
  intro hplain
  have hhead : (format.entries (archiveOf "index.md/")).head? =
      some (.ok ⟨.regular, some "index.md/", (markdown 97).length, markdown 97⟩) := by decide +kernel
  exact absurd (hplain _ hhead) (by decide)

end ExportSample

end AgentKnowledge
