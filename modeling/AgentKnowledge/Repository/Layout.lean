import AgentKnowledge.Core.Markdown
import AgentKnowledge.Lib.FileTree

/-!
The canonical layout of a content tree (`crates/repository/src/index.rs`).

A document other than an index document lives alone in a bundle directory whose
name ends in its identifier. `canonicalDocumentPath` gives the path of a
document from its location and metadata, `classifyDocumentPath` reads the
location back.

Everything the planner relies on about these paths is proved here, once:

* `bundleOf_inj`: a bundle path determines the document;
* `bundleOf_prefix_free`: no bundle lies inside another or on the way to it;
* `undotted_bundleOf`: no component of a bundle path has a dot, so that none of
  the files of a content tree, which all have an extension, can stand in the way.
-/

namespace AgentKnowledge

/-- The last component of a path. -/
def fileName (path : RelPath) : String := path.getLastD ""

/-- Canonical directory-derived classification for one document. -/
structure DocumentLocation where
  documentType : DocumentType
  project : Option ProjectId
  archived : Bool
deriving DecidableEq

def categoryName : DocumentType → String
  | .index => ""
  | .log => "logs"
  | .experiment => "experiments"
  | .decision => "decisions"
  | .runbook => "runbooks"
  | .reference => "references"

def parseCategory : String → Option DocumentType
  | "logs" => some .log
  | "experiments" => some .experiment
  | "decisions" => some .decision
  | "runbooks" => some .runbook
  | "references" => some .reference
  | _ => none

def ProjectId.parse (value : String) : Option ProjectId :=
  match h : validateProjectId value with
  | .ok () => some ⟨value, h⟩
  | .error _ => none

def twoDigits (value : Nat) : String := String.ofList (padded 2 value)

def fourDigits (value : Nat) : String := String.ofList (padded 4 value)

/-- The directory name of a document: its creation, then its identifier. A log is
named by the time of day, since its directory gives the date. -/
def bundleName (documentType : DocumentType) (created : OffsetDateTime) (documentId : DocumentId) :
    String :=
  if documentType = .log then
    String.ofList (padded 2 created.hour ++ padded 2 created.minute ++ padded 2 created.second ++
      ['-'] ++ documentId.toText)
  else
    String.ofList (padded 4 created.year ++ ['-'] ++ padded 2 created.month ++ ['-'] ++
      padded 2 created.day ++ ['-'] ++ documentId.toText)

/-- The path a document with this location, creation time and identifier must have. -/
def canonicalDocumentPath (location : DocumentLocation) (created : OffsetDateTime)
    (documentId : DocumentId) : RelPath :=
  if location.documentType = .index then
    match location.project with
    | none => ["index.md"]
    | some project => ["projects", project.value, "index.md"]
  else
    let category := categoryName location.documentType
    let bundle := bundleName location.documentType created documentId
    if location.archived then
      match location.project with
      | some project => ["projects", project.value, "archive", category, bundle, "index.md"]
      | none => ["archive", category, bundle, "index.md"]
    else
      let root := match location.project with
        | none => ["inbox", category]
        | some project => ["projects", project.value, category]
      let dated := if location.documentType = .log then
          [fourDigits created.year, twoDigits created.month, twoDigits created.day]
        else []
      root ++ dated ++ [bundle, "index.md"]

/-- The location a Markdown path stands for, if it has the canonical form. -/
def classifyDocumentPath (path : RelPath) : Option DocumentLocation :=
  match path with
  | ["index.md"] => some ⟨.index, none, false⟩
  | ["projects", project, "index.md"] =>
      (ProjectId.parse project).map fun project => ⟨.index, some project, false⟩
  | _ =>
      if path.getLast? ≠ some "index.md" then none
      else
        match path.dropLast with
        | "projects" :: project :: "archive" :: category :: _ :: _ => do
            let documentType ← parseCategory category
            let project ← ProjectId.parse project
            pure ⟨documentType, some project, true⟩
        | "projects" :: project :: category :: _ :: _ => do
            let documentType ← parseCategory category
            let project ← ProjectId.parse project
            pure ⟨documentType, some project, false⟩
        | "inbox" :: category :: _ :: _ => do
            let documentType ← parseCategory category
            pure ⟨documentType, none, false⟩
        | "archive" :: category :: _ :: _ => do
            let documentType ← parseCategory category
            pure ⟨documentType, none, true⟩
        | _ => none

theorem parseCategory_ne_index {category : String} {documentType : DocumentType}
    (h : parseCategory category = some documentType) : documentType ≠ .index := by
  rintro rfl
  unfold parseCategory at h
  split at h <;> cases h

/-- Index documents are not archived. -/
theorem classifyDocumentPath_index {path : RelPath} {location : DocumentLocation}
    (h : classifyDocumentPath path = some location) (hindex : location.documentType = .index) :
    location.archived = false := by
  unfold classifyDocumentPath at h
  split at h
  · cases h
    rfl
  · obtain ⟨project, -, rfl⟩ := Option.map_eq_some_iff.1 h
    rfl
  · split at h
    · cases h
    · split at h
      · simp only [Option.bind_eq_bind, Option.bind_eq_some_iff, Option.pure_def,
          Option.some.injEq] at h
        obtain ⟨documentType, hcategory, project, -, rfl⟩ := h
        exact absurd hindex (parseCategory_ne_index hcategory)
      · simp only [Option.bind_eq_bind, Option.bind_eq_some_iff, Option.pure_def,
          Option.some.injEq] at h
        obtain ⟨documentType, -, project, -, rfl⟩ := h
        rfl
      · simp only [Option.bind_eq_bind, Option.bind_eq_some_iff, Option.pure_def,
          Option.some.injEq] at h
        obtain ⟨documentType, -, rfl⟩ := h
        rfl
      · simp only [Option.bind_eq_bind, Option.bind_eq_some_iff, Option.pure_def,
          Option.some.injEq] at h
        obtain ⟨documentType, hcategory, rfl⟩ := h
        exact absurd hindex (parseCategory_ne_index hcategory)
      · cases h

theorem ProjectId.parse_value (project : ProjectId) :
    ProjectId.parse project.value = some project := by
  unfold ProjectId.parse
  split
  · rfl
  · rename_i h
    cases project.valid.symm.trans h

/-- A canonical path is read back as the location it was built from; an index document has
no archived location of its own. -/
theorem classifyDocumentPath_canonical (location : DocumentLocation) (created : OffsetDateTime)
    (documentId : DocumentId) :
    classifyDocumentPath (canonicalDocumentPath location created documentId) = some location ↔
      (location.documentType = .index → location.archived = false) := by
  refine ⟨fun h => classifyDocumentPath_index h, fun h => ?_⟩
  obtain ⟨documentType, project, archived⟩ := location
  by_cases hindex : documentType = .index
  · cases hindex
    cases h rfl
    cases project with
    | none => rfl
    | some project =>
        show (ProjectId.parse project.value).map _ = _
        rw [ProjectId.parse_value]
        rfl
  · cases archived <;> cases project <;> cases documentType <;> first | contradiction |
      simp [canonicalDocumentPath, classifyDocumentPath, categoryName, parseCategory,
        ProjectId.parse_value]

/-! ### Bundles -/

/-- The directory that holds the bundles of one location and day. -/
def bundleRoot (location : DocumentLocation) (created : OffsetDateTime) : RelPath :=
  let category := categoryName location.documentType
  match location.archived, location.project with
  | true, some project => ["projects", project.value, "archive", category]
  | true, none => ["archive", category]
  | false, some project =>
      if location.documentType = .log then
        ["projects", project.value, category, fourDigits created.year, twoDigits created.month,
          twoDigits created.day]
      else ["projects", project.value, category]
  | false, none =>
      if location.documentType = .log then
        ["inbox", category, fourDigits created.year, twoDigits created.month,
          twoDigits created.day]
      else ["inbox", category]

/-- The bundle directory of a document that is not an index document. -/
def bundleOf (location : DocumentLocation) (created : OffsetDateTime)
    (documentId : DocumentId) : RelPath :=
  bundleRoot location created ++ [bundleName location.documentType created documentId]

theorem canonicalDocumentPath_eq_bundle {location : DocumentLocation}
    (h : location.documentType ≠ .index) (created : OffsetDateTime) (documentId : DocumentId) :
    canonicalDocumentPath location created documentId =
      bundleOf location created documentId ++ ["index.md"] := by
  obtain ⟨documentType, project, archived⟩ := location
  simp only at h
  cases archived <;> cases project <;> by_cases hlog : documentType = .log <;>
    simp [canonicalDocumentPath, bundleOf, bundleRoot, h, hlog]

/-! ### Characters of the names -/

/-- A name without a dot. -/
def Undotted (name : String) : Prop := '.' ∉ name.toList

instance (name : String) : Decidable (Undotted name) := inferInstanceAs (Decidable (¬ _))

theorem undotted_padded (width value : Nat) : '.' ∉ padded width value := by
  unfold padded
  intro h
  rcases List.mem_append.1 h with h | h
  · exact absurd (List.eq_of_mem_replicate h) (by decide)
  · exact absurd (Nat.isDigit_of_mem_toDigits (by decide) (by decide) h) (by decide)

theorem undotted_ulid (id : Ulid) : '.' ∉ id.toText := by
  intro h
  exact absurd (Ulid.mem_toText h) (by decide)

theorem undotted_bundleName (documentType : DocumentType) (created : OffsetDateTime)
    (documentId : DocumentId) : Undotted (bundleName documentType created documentId) := by
  have hid : '.' ∉ documentId.toText := undotted_ulid documentId.ulid
  unfold Undotted bundleName
  split <;> simp [undotted_padded, hid]

theorem undotted_project (project : ProjectId) : Undotted project.value := by
  intro h
  rcases ProjectId.mem_value h with h | h | h <;> revert h <;> decide

theorem undotted_categoryName (documentType : DocumentType) :
    Undotted (categoryName documentType) := by
  cases documentType <;> decide

theorem undotted_bundleRoot (location : DocumentLocation) (created : OffsetDateTime) :
    ∀ name ∈ bundleRoot location created, Undotted name := by
  have hfixed : Undotted "projects" ∧ Undotted "archive" ∧ Undotted "inbox" := by decide
  have hcategory := undotted_categoryName location.documentType
  have hdigits : ∀ value, Undotted (twoDigits value) ∧ Undotted (fourDigits value) := by
    intro value
    simp [Undotted, twoDigits, fourDigits, undotted_padded]
  unfold bundleRoot
  split
  · simp [hfixed, hcategory, undotted_project]
  · simp [hfixed, hcategory]
  · split <;> simp [hfixed, hcategory, hdigits, undotted_project]
  · split <;> simp [hfixed, hcategory, hdigits]

theorem undotted_bundleOf (location : DocumentLocation) (created : OffsetDateTime)
    (documentId : DocumentId) : ∀ name ∈ bundleOf location created documentId, Undotted name := by
  intro name hname
  rcases List.mem_append.1 hname with h | h
  · exact undotted_bundleRoot location created name h
  · rw [List.mem_singleton.1 h]
    exact undotted_bundleName _ _ _

/-! ### Bundles determine their documents and do not nest -/

theorem bundleName_ends_in_id (documentType : DocumentType) (created : OffsetDateTime)
    (documentId : DocumentId) :
    ∃ front, (bundleName documentType created documentId).toList = front ++ documentId.toText := by
  unfold bundleName
  split
  · exact ⟨_, String.toList_ofList⟩
  · exact ⟨_, String.toList_ofList⟩

theorem bundleName_inj {documentType documentType' : DocumentType}
    {created created' : OffsetDateTime} {documentId documentId' : DocumentId}
    (h : bundleName documentType created documentId =
      bundleName documentType' created' documentId') : documentId = documentId' := by
  obtain ⟨front, hfront⟩ := bundleName_ends_in_id documentType created documentId
  obtain ⟨front', hfront'⟩ := bundleName_ends_in_id documentType' created' documentId'
  rw [h, hfront'] at hfront
  have htext : documentId'.toText = documentId.toText :=
    List.append_inj_right' hfront (by simp [DocumentId.toText])
  have hulid := Ulid.toText_injective htext
  cases documentId; cases documentId'; simp_all

theorem bundleOf_inj {location location' : DocumentLocation} {created created' : OffsetDateTime}
    {documentId documentId' : DocumentId}
    (h : bundleOf location created documentId = bundleOf location' created' documentId') :
    documentId = documentId' :=
  bundleName_inj (List.append_inj_right' h rfl |> List.cons.inj |>.1)

theorem categoryName_ne_archive (documentType : DocumentType) :
    categoryName documentType ≠ "archive" := by
  cases documentType <;> decide

theorem categoryName_eq_logs_iff {documentType : DocumentType} :
    categoryName documentType = "logs" ↔ documentType = .log := by
  cases documentType <;> decide

/-- The six forms of a bundle root. -/
theorem bundleRoot_cases (location : DocumentLocation) (created : OffsetDateTime) :
    (∃ project category, bundleRoot location created = ["projects", project, "archive", category]) ∨
    (∃ category, bundleRoot location created = ["archive", category]) ∨
    (∃ project year month day,
      bundleRoot location created = ["projects", project, "logs", year, month, day]) ∨
    (∃ project category, category ≠ "archive" ∧ category ≠ "logs" ∧
      bundleRoot location created = ["projects", project, category]) ∨
    (∃ year month day, bundleRoot location created = ["inbox", "logs", year, month, day]) ∨
    (∃ category, category ≠ "logs" ∧ bundleRoot location created = ["inbox", category]) := by
  obtain ⟨documentType, project, archived⟩ := location
  have harchive := categoryName_ne_archive documentType
  have hlogs := @categoryName_eq_logs_iff documentType
  have hlog' : categoryName .log = "logs" := rfl
  cases archived <;> cases project <;> by_cases hlog : documentType = .log <;>
    simp [bundleRoot, hlog, harchive, hlogs, hlog']

theorem bundleOf_prefix_free {location location' : DocumentLocation}
    {created created' : OffsetDateTime} {documentId documentId' : DocumentId}
    (h : bundleOf location created documentId <+: bundleOf location' created' documentId') :
    bundleOf location created documentId = bundleOf location' created' documentId' := by
  unfold bundleOf at h ⊢
  generalize bundleName location.documentType created documentId = name at h ⊢
  generalize bundleName location'.documentType created' documentId' = name' at h ⊢
  -- The third component separates the forms below `projects`, the second those below `inbox`.
  rcases bundleRoot_cases location created with
      ⟨project, category, hroot⟩ | ⟨category, hroot⟩ | ⟨project, year, month, day, hroot⟩ |
      ⟨project, category, harchive, hlogs, hroot⟩ | ⟨year, month, day, hroot⟩ |
      ⟨category, hlogs, hroot⟩ <;>
    rcases bundleRoot_cases location' created' with
      ⟨project', category', hroot'⟩ | ⟨category', hroot'⟩ | ⟨project', year', month', day', hroot'⟩ |
      ⟨project', category', harchive', hlogs', hroot'⟩ | ⟨year', month', day', hroot'⟩ |
      ⟨category', hlogs', hroot'⟩ <;>
    rw [hroot, hroot'] at h <;>
    rw [hroot, hroot'] <;>
    simp_all [List.cons_prefix_cons]

/-- The archive shares no bundle with the live part of the tree. -/
theorem bundleOf_archived_ne {location location' : DocumentLocation}
    {created created' : OffsetDateTime} {documentId documentId' : DocumentId}
    (h : location.archived = true) (h' : location'.archived = false) :
    bundleOf location created documentId ≠ bundleOf location' created' documentId' := by
  obtain ⟨documentType, project, archived⟩ := location
  obtain ⟨documentType', project', archived'⟩ := location'
  cases h
  cases h'
  have harchive := categoryName_ne_archive documentType'
  cases project <;> cases project' <;> by_cases hlog : documentType' = .log <;>
    simp [bundleOf, bundleRoot, hlog, harchive.symm]

/-! ### Regions -/

/-- A path at or below some bundle of a document. -/
def InBundle (documentId : DocumentId) (path : RelPath) : Prop :=
  ∃ location created, bundleOf location created documentId <+: path

theorem inBundle_bundleOf (location : DocumentLocation) (created : OffsetDateTime)
    (documentId : DocumentId) (rest : RelPath) :
    InBundle documentId (bundleOf location created documentId ++ rest) :=
  ⟨location, created, List.prefix_append _ _⟩

/-- Two bundles with a path in common are one. -/
theorem bundleOf_eq_of_above {location location' : DocumentLocation}
    {created created' : OffsetDateTime} {documentId documentId' : DocumentId} {path : RelPath}
    (h : bundleOf location created documentId <+: path)
    (h' : bundleOf location' created' documentId' <+: path) :
    bundleOf location created documentId = bundleOf location' created' documentId' := by
  rcases List.prefix_or_prefix_of_prefix h h' with hpre | hpre
  · exact bundleOf_prefix_free hpre
  · exact (bundleOf_prefix_free hpre).symm

theorem InBundle.unique {documentId documentId' : DocumentId} {path : RelPath}
    (h : InBundle documentId path) (h' : InBundle documentId' path) : documentId = documentId' := by
  obtain ⟨location, created, hpre⟩ := h
  obtain ⟨location', created', hpre'⟩ := h'
  exact bundleOf_inj (bundleOf_eq_of_above hpre hpre')

theorem length_bundleOf (location : DocumentLocation) (created : OffsetDateTime)
    (documentId : DocumentId) : 3 ≤ (bundleOf location created documentId).length := by
  unfold bundleOf
  rcases bundleRoot_cases location created with
      ⟨project, category, h⟩ | ⟨category, h⟩ | ⟨project, year, month, day, h⟩ |
      ⟨project, category, -, -, h⟩ | ⟨year, month, day, h⟩ | ⟨category, -, h⟩ <;>
    simp [h]

/-- The directories above a bundle are in no bundle. -/
theorem not_inBundle_above {location : DocumentLocation} {created : OffsetDateTime}
    {documentId documentId' : DocumentId} {path : RelPath}
    (h : path <+: bundleOf location created documentId)
    (hne : path ≠ bundleOf location created documentId) : ¬ InBundle documentId' path := by
  rintro ⟨location', created', hpre⟩
  have heq := bundleOf_prefix_free (hpre.trans h)
  rw [heq] at hpre
  exact hne (h.eq_of_length_le hpre.length_le)

/-- A file in the first three levels is in no bundle. -/
theorem not_inBundle_of_short {path : RelPath} (hlength : path.length ≤ 3)
    (hdot : ¬ Undotted (fileName path)) (documentId : DocumentId) : ¬ InBundle documentId path := by
  rintro ⟨location, created, hpre⟩
  have heq := hpre.eq_of_length_le (hlength.trans (length_bundleOf location created documentId))
  refine hdot ?_
  rw [← heq, fileName, bundleOf, List.getLastD_concat]
  exact undotted_bundleName _ _ _

/-- The directory of a canonical path. -/
def documentDirectory (location : DocumentLocation) (created : OffsetDateTime)
    (documentId : DocumentId) : RelPath :=
  (canonicalDocumentPath location created documentId).dropLast

theorem documentDirectory_eq_bundle {location : DocumentLocation}
    (h : location.documentType ≠ .index) (created : OffsetDateTime) (documentId : DocumentId) :
    documentDirectory location created documentId = bundleOf location created documentId := by
  rw [documentDirectory, canonicalDocumentPath_eq_bundle h, List.dropLast_concat]

/-- Index documents stand at the root or at the root of a project. -/
theorem documentDirectory_index {location : DocumentLocation}
    (h : location.documentType = .index) (created : OffsetDateTime) (documentId : DocumentId) :
    documentDirectory location created documentId =
      match location.project with
      | none => []
      | some project => ["projects", project.value] := by
  obtain ⟨documentType, project, archived⟩ := location
  cases h
  cases project <;> rfl

theorem canonicalDocumentPath_eq (location : DocumentLocation) (created : OffsetDateTime)
    (documentId : DocumentId) :
    canonicalDocumentPath location created documentId =
      documentDirectory location created documentId ++ ["index.md"] := by
  by_cases h : location.documentType = .index
  · rw [documentDirectory_index h]
    obtain ⟨documentType, project, archived⟩ := location
    cases h
    cases project <;> rfl
  · rw [documentDirectory_eq_bundle h, canonicalDocumentPath_eq_bundle h]

theorem undotted_documentDirectory (location : DocumentLocation) (created : OffsetDateTime)
    (documentId : DocumentId) :
    ∀ name ∈ documentDirectory location created documentId, Undotted name := by
  by_cases h : location.documentType = .index
  · rw [documentDirectory_index h]
    cases location.project with
    | none => simp
    | some project =>
        have hprojects : Undotted "projects" := by decide
        simp [hprojects, undotted_project]
  · rw [documentDirectory_eq_bundle h]
    exact undotted_bundleOf _ _ _

theorem length_documentDirectory_index {location : DocumentLocation}
    (h : location.documentType = .index) (created : OffsetDateTime) (documentId : DocumentId) :
    (documentDirectory location created documentId).length ≤ 2 := by
  rw [documentDirectory_index h]
  cases location.project <;> simp

/-- Only the bundles of a document hold its files; those of an index document are in none. -/
theorem inBundle_of_documentDirectory {location : DocumentLocation} {created : OffsetDateTime}
    {documentId documentId' : DocumentId} {name : String} (hdot : ¬ Undotted name)
    (h : InBundle documentId' (documentDirectory location created documentId ++ [name])) :
    documentId' = documentId := by
  by_cases hindex : location.documentType = .index
  · refine absurd h (not_inBundle_of_short ?_ ?_ documentId')
    · have := length_documentDirectory_index hindex created documentId
      simp only [List.length_append, List.length_singleton]
      omega
    · simpa [fileName] using hdot
  · rw [documentDirectory_eq_bundle hindex] at h
    exact h.unique (inBundle_bundleOf location created documentId [name])

theorem fileName_concat (directory : RelPath) (name : String) :
    fileName (directory ++ [name]) = name := by
  simp [fileName]

theorem not_inBundle_index {location : DocumentLocation} (h : location.documentType = .index)
    {created : OffsetDateTime} {documentId : DocumentId} {name : String} (hdot : ¬ Undotted name)
    (documentId' : DocumentId) :
    ¬ InBundle documentId' (documentDirectory location created documentId ++ [name]) := by
  refine not_inBundle_of_short ?_ (by rwa [fileName_concat]) documentId'
  have := length_documentDirectory_index h created documentId
  simp only [List.length_append, List.length_singleton]
  omega

theorem categoryName_ne_assets (documentType : DocumentType) :
    categoryName documentType ≠ "assets" := by
  cases documentType <;> decide

/-- The assets of a project are in no bundle. -/
theorem not_inBundle_asset (project : String) (rest : RelPath) (documentId : DocumentId) :
    ¬ InBundle documentId ("projects" :: project :: "assets" :: rest) := by
  rintro ⟨⟨documentType, project', archived⟩, created, h⟩
  have hassets := categoryName_ne_assets documentType
  have hlogs : categoryName .log = "logs" := rfl
  unfold bundleOf bundleRoot at h
  cases archived <;> cases project' <;> by_cases hlog : documentType = .log <;>
    simp [hlog, hlogs, hassets, List.cons_prefix_cons] at h

end AgentKnowledge
