import AgentKnowledge.Gateway.Hunks
import AgentKnowledge.Gateway.Inspect

/-!
What the inspections return.

One specification for each operation, in terms of the snapshot it reads:

* `collectProjects_spec`: the listed projects are some of the groups, in their order, and
  each is summarised from its group (`Summarizes`);
* `readHits_spec`: hits are the ranked documents with bounded excerpts;
* `context_spec`: a context keeps its limits (`ContextState.Keeps`);
* `history_spec`: a page has at most so many entries, all of the document asked for.
-/

namespace AgentKnowledge

open Results

/-! ### Snapshots and searches -/

section Snapshot

variable {x : Externals} {services : ReadServices} {snapshot : CommittedSnapshot}

/-- What is known of a pinned snapshot. -/
structure WithinIndex (services : ReadServices) (snapshot : CommittedSnapshot) : Prop where
  length_le : snapshot.index.documents.length ≤ services.settings.maximumIndexEntries

theorem snapshot_withinIndex (h : services.snapshot x = .ok snapshot) : WithinIndex services snapshot := by
  unfold ReadServices.snapshot at h
  rw [mapError_eq_ok, snapshot_eq_ok_iff] at h
  exact ⟨length_documents_le h.2.2.1⟩

theorem bounded_eq_ok {value maximum : Nat} :
    bounded value maximum = .ok () ↔ 0 < value ∧ value ≤ maximum := by
  rw [bounded, rejectIf_eq_ok]
  omega

/-- Ranked documents are distinct, indexed and selected, and not more than asked for. -/
theorem ranked_spec {query : String} {filter : ReadFilterRequest} {maximum : Nat}
    {records : List DocumentRecord}
    (h : services.ranked snapshot query filter maximum = .ok records) :
    records.length ≤ maximum ∧
      (records.map fun record => record.metadata.documentId).Nodup ∧
      ∀ record ∈ records, record ∈ snapshot.selected (repositoryFilter filter) := by
  unfold ReadServices.ranked at h
  simp only [bind_eq_ok, pure_eq_ok, Except.ok.injEq] at h
  obtain ⟨all, hall, rfl⟩ := h
  refine ⟨by simp, ?_, fun record hrecord => ?_⟩
  · exact (services.backend.rank_distinct hall).sublist ((List.take_sublist _ _).map _)
  · exact mem_selected.2 (services.backend.rank_selected hall record (List.mem_of_mem_take hrecord))

theorem readDocument_summary {record : DocumentRecord} {bytes bytes' : Nat}
    {document : DocumentContent}
    (h : services.readDocument x snapshot record bytes = .ok (document, bytes')) :
    document.summary = documentSummary record := by
  unfold ReadServices.readDocument at h
  simp only [bind_eq_ok, exists_unit, pure_eq_ok, Except.ok.injEq, Prod.mk.injEq] at h
  obtain ⟨-, found, -, -, rfl, -⟩ := h
  rfl

/-- The whole body of a document. -/
def ReadServices.rawBody (x : Externals) (snapshot : CommittedSnapshot) (record : DocumentRecord) :
    Except GatewayError (List Char) := do
  let (_, markdown) ← (snapshot.get x record.metadata.documentId).mapError committed
  body markdown record.metadata.documentId

theorem rawBody_of_read {record : DocumentRecord} {bytes bytes' : Nat} {document : DocumentContent}
    {raw : List Char} (hread : services.readDocument x snapshot record bytes = .ok (document, bytes'))
    (hbody : body document.markdown record.metadata.documentId = .ok raw) :
    ReadServices.rawBody x snapshot record = .ok raw := by
  unfold ReadServices.readDocument at hread
  simp only [bind_eq_ok, exists_unit, pure_eq_ok, Except.ok.injEq, Prod.mk.injEq,
    Prod.exists] at hread
  obtain ⟨-, found, markdown, hget, -, rfl, -⟩ := hread
  rw [ReadServices.rawBody, hget, ok_bind]
  exact hbody

/-- Hits for documents, in order, with excerpts of at most so many characters. -/
theorem readHits_spec {query : String} {characters bytes bytes' : Nat}
    {records : List DocumentRecord} {hits : List SearchHit}
    (h : services.readHits x snapshot query characters records bytes = .ok (hits, bytes')) :
    hits.map SearchHit.document = records.map documentSummary ∧
      ∀ hit ∈ hits, ∀ excerpt ∈ hit.excerpts, excerpt.text.length ≤ characters := by
  induction records generalizing bytes hits bytes' with
  | nil =>
      simp only [ReadServices.readHits, pure_eq_ok, Except.ok.injEq, Prod.mk.injEq] at h
      simp [← h.1]
  | cons record rest ih =>
      simp only [ReadServices.readHits, bind_eq_ok, pure_eq_ok, Except.ok.injEq, Prod.mk.injEq,
        Prod.exists] at h
      obtain ⟨document, read, hread, text, -, excerpts, hexcerpts, more, total, hmore, rfl, rfl⟩ := h
      obtain ⟨hdocuments, hbounded⟩ := ih hmore
      refine ⟨by simp [readDocument_summary hread, hdocuments], ?_⟩
      simp only [List.mem_cons, forall_eq_or_imp]
      exact ⟨services.backend.excerpts_bounded hexcerpts, hbounded⟩

end Snapshot

/-! ### Projects -/

section Groups

/-- The documents of a project. -/
def inProject (project : ProjectId) (records : List DocumentRecord) : List DocumentRecord :=
  records.filter fun record => record.location.project = some project

theorem mem_inProject {project : ProjectId} {records : List DocumentRecord}
    {record : DocumentRecord} :
    record ∈ inProject project records ↔
      record ∈ records ∧ record.location.project = some project := by
  simp [inProject]

/-- The record is an index document. -/
def isIndexDocument (record : DocumentRecord) : Bool :=
  record.location.documentType = .index

theorem foldl_addToGroup (members : List DocumentRecord) :
    members.foldl (fun entry record => some (addToGroup record entry)) none =
      if members = [] then none
      else some (members.length, (members.filter isIndexDocument).getLast?) := by
  induction members using List.reverseRecOn with
  | nil => rfl
  | append_singleton members last ih =>
      -- the entry that stood there, or the empty one
      have hentry : (members.foldl (fun entry record => some (addToGroup record entry))
          none).getD (0, none) = (members.length, (members.filter isIndexDocument).getLast?) := by
        rw [ih]
        split
        · rename_i hnil
          simp [hnil]
        · rfl
      rw [List.foldl_concat, addToGroup, hentry]
      by_cases hlast : last.location.documentType = .index
      · simp [List.filter_append, isIndexDocument, hlast]
      · simp [List.filter_append, isIndexDocument, hlast]

/-- The group of a project: how many documents it has, and its last index document. -/
theorem get_groups_eq (records : List DocumentRecord) (project : ProjectId) :
    (records.foldl groupDocument .empty).get project =
      if inProject project records = [] then none
      else some ((inProject project records).length,
        ((inProject project records).filter isIndexDocument).getLast?) := by
  have hfold := SortedMap.get_foldl_upsert (fun record => record.location.project) addToGroup
    records .empty project
  rw [SortedMap.get_empty] at hfold
  exact hfold.trans (foldl_addToGroup (inProject project records))

/-- The group of a project counts its documents, and its index document is one of them. -/
theorem get_groups {project : ProjectId} {count : Nat} {index : Option DocumentRecord}
    (records : List DocumentRecord)
    (h : (records.foldl groupDocument .empty).get project = some (count, index)) :
    count = (inProject project records).length ∧ 0 < count ∧
      ∀ record ∈ index, record.location.project = some project ∧
        record.location.documentType = .index := by
  rw [get_groups_eq] at h
  split at h
  · cases h
  rename_i hsome
  obtain ⟨rfl, rfl⟩ := Prod.mk.inj (Option.some.inj h)
  refine ⟨rfl, List.length_pos_of_ne_nil hsome, fun record hrecord => ?_⟩
  obtain ⟨hmem, hindex⟩ := List.mem_filter.1 (List.mem_of_getLast? hrecord)
  exact ⟨(mem_inProject.1 hmem).2, of_decide_eq_true hindex⟩

theorem counts_foldl (maximumHits : Option Nat) (records : List DocumentRecord)
    (found : ProjectMatches) :
    (records.foldl (countMatch maximumHits) found).counts =
      records.foldl (fun m record => m.upsert record.location.project fun count =>
        count.getD 0 + 1) found.counts := by
  induction records generalizing found with
  | nil => rfl
  | cons record rest ih => exact ih _

theorem topHits_foldl (maximum : Nat) (records : List DocumentRecord) (found : ProjectMatches) :
    (records.foldl (countMatch (some maximum)) found).topHits =
      records.foldl (fun m record => m.upsert record.location.project (keepHit maximum record))
        found.topHits := by
  induction records generalizing found with
  | nil => rfl
  | cons record rest ih => exact ih _

/-- The matches of a project are counted. -/
theorem get_counts (maximumHits : Option Nat) (records : List DocumentRecord)
    (project : ProjectId) :
    (records.foldl (countMatch maximumHits) {}).counts.get project =
      if (inProject project records).length = 0 then none
      else some (inProject project records).length := by
  rw [counts_foldl, SortedMap.get_foldl_upsert (fun record : DocumentRecord =>
    record.location.project) (fun _ count => count.getD 0 + 1), SortedMap.get_empty]
  change (inProject project records).foldl _ none = _
  generalize inProject project records = members
  induction members using List.reverseRecOn with
  | nil => rfl
  | append_singleton members last ih =>
      rw [List.foldl_concat, ih]
      by_cases hnil : members.length = 0 <;> simp [hnil]

/-- The best matches of a project are kept. -/
theorem get_topHits (maximum : Nat) (records : List DocumentRecord) (project : ProjectId) :
    ((records.foldl (countMatch (some maximum)) {}).topHits.get project).getD [] =
      (inProject project records).take maximum := by
  rw [topHits_foldl, SortedMap.get_foldl_upsert (fun record => record.location.project)
    (keepHit maximum), SortedMap.get_empty]
  change ((inProject project records).foldl _ none).getD [] = _
  generalize inProject project records = members
  induction members using List.reverseRecOn with
  | nil => simp
  | append_singleton members last ih =>
      rw [List.foldl_concat, Option.getD_some, keepHit, ih, List.length_take, List.take_append]
      split
      · rename_i hroom
        rw [List.take_of_length_le (by simp; omega : [last].length ≤ maximum - members.length)]
      · rename_i hfull
        rw [show maximum - members.length = 0 by omega]
        simp

end Groups

section Projects

variable {x : Externals} {services : ReadServices} {snapshot : CommittedSnapshot}
  {listing : ProjectListing} {found : ProjectMatches} {query : Option (List Char)}

/-- Matches are counted over ranked documents in the archive scope of the listing. -/
theorem countMatches_spec (h : services.countMatches snapshot listing = .ok found) :
    match listing.searchIn with
    | .project => found = {}
    | .documents => ∃ ranked : List DocumentRecord,
        found = ranked.foldl (countMatch (listing.hitOptions.map Prod.fst)) {} ∧
        (ranked.map fun record => record.metadata.documentId).Nodup ∧
        ∀ record ∈ ranked,
          record ∈ snapshot.selected { includeArchived := listing.includeArchived } := by
  unfold ReadServices.countMatches at h
  cases hsearch : listing.searchIn with
  | project =>
      simp only [hsearch, pure_eq_ok, Except.ok.injEq] at h
      exact h.symm
  | documents =>
      simp only [hsearch, bind_eq_ok, exists_unit, ofOption_eq_ok, pure_eq_ok,
        Except.ok.injEq] at h
      obtain ⟨-, query, -, ranked, hranked, rfl⟩ := h
      obtain ⟨-, hnodup, hselected⟩ := ranked_spec hranked
      exact ⟨ranked, rfl, hnodup, hselected⟩

/-- A summary of a project made from its group. -/
structure Summarizes (listing : ProjectListing) (found : ProjectMatches)
    (group : ProjectId × Nat × Option DocumentRecord) (summary : ProjectSummary) : Prop where
  project : summary.project = group.1
  documentCount : summary.documentCount = group.2.1
  matchingDocuments : summary.matchingDocuments = found.counts.get group.1
  description : summary.description.length ≤ listing.characters
  index : summary.index = group.2.2.map documentSummary
  unindexed : group.2.2 = none → summary.description = [] ∧ summary.descriptionTruncated = false
  hits : match listing.hitOptions with
    | none => summary.hits = none ∧ summary.hitsTruncated = none
    | some (_, characters) => ∃ hits, summary.hits = some hits ∧
        summary.hitsTruncated =
          some (decide (hits.length < summary.matchingDocuments.getD 0)) ∧
        hits.map SearchHit.document =
          ((found.topHits.get group.1).getD []).map documentSummary ∧
        ∀ hit ∈ hits, ∀ excerpt ∈ hit.excerpts, excerpt.text.length ≤ characters

/-- The text of a project's index document, empty without one. -/
def indexBody (x : Externals) (snapshot : CommittedSnapshot) : Option DocumentRecord → List Char
  | none => []
  | some record =>
      match ReadServices.rawBody x snapshot record with
      | .ok raw => raw
      | .error _ => []

theorem readIndex_spec {record : Option DocumentRecord} {bytes bytes' : Nat}
    {document : Option DocumentContent} {raw : List Char}
    (h : services.readIndex x snapshot record bytes = .ok (document, raw, bytes')) :
    document.map DocumentContent.summary = record.map documentSummary ∧
      raw = indexBody x snapshot record := by
  unfold ReadServices.readIndex at h
  cases record with
  | none =>
      simp only [pure_eq_ok, Except.ok.injEq, Prod.mk.injEq] at h
      simp [← h.1, ← h.2.1, indexBody]
  | some record =>
      simp only [bind_eq_ok, pure_eq_ok, Except.ok.injEq, Prod.mk.injEq, Prod.exists] at h
      obtain ⟨content, read, hread, text, hbody, rfl, rfl, -⟩ := h
      have hsummary := readDocument_summary hread
      rw [hsummary] at hbody
      simp [hsummary, indexBody, rawBody_of_read hread hbody]

theorem projectHits_spec {project : ProjectId} {bytes total : Nat} {hits : Option (List SearchHit)}
    (h : services.projectHits x snapshot listing found project bytes = .ok (hits, total)) :
    match listing.hitOptions with
    | none => hits = none
    | some (_, characters) => ∃ some, hits = .some some ∧
        some.map SearchHit.document =
          ((found.topHits.get project).getD []).map documentSummary ∧
        ∀ hit ∈ some, ∀ excerpt ∈ hit.excerpts, excerpt.text.length ≤ characters := by
  unfold ReadServices.projectHits at h
  split at h
  · rename_i hoptions
    simp only [pure_eq_ok, Except.ok.injEq, Prod.mk.injEq] at h
    simp [hoptions, ← h.1]
  · rename_i hoptions hnone
    simp only [pure_eq_ok, Except.ok.injEq, Prod.mk.injEq] at h
    simp [hoptions, hnone, ← h.1]
  · rename_i maximum characters hoptions hsome
    simp only [bind_eq_ok, ofOption_eq_ok, pure_eq_ok, Except.ok.injEq, Prod.mk.injEq,
      Prod.exists] at h
    obtain ⟨text, -, some, read, hread, rfl, -⟩ := h
    rw [hoptions]
    exact ⟨some, rfl, readHits_spec hread⟩

theorem summarize_spec {group : ProjectId × Nat × Option DocumentRecord} {bytes bytes' total : Nat}
    {document : Option DocumentContent} {raw : List Char} {hits : Option (List SearchHit)}
    (hindex : services.readIndex x snapshot group.2.2 bytes = .ok (document, raw, bytes'))
    (hhits : services.projectHits x snapshot listing found group.1 bytes' = .ok (hits, total)) :
    Summarizes listing found group
      (ReadServices.summarize listing found group document raw hits) := by
  obtain ⟨hdocument, hraw⟩ := readIndex_spec hindex
  refine ⟨rfl, rfl, rfl, by simp [ReadServices.summarize], hdocument, fun hnone => ?_, ?_⟩
  · simp [ReadServices.summarize, hraw, hnone, indexBody]
  · have hspec := projectHits_spec hhits
    cases hoptions : listing.hitOptions with
    | none =>
        rw [hoptions] at hspec
        simp [ReadServices.summarize, hspec]
    | some options =>
        rw [hoptions] at hspec
        obtain ⟨some, rfl, hdocuments, hbounded⟩ := hspec
        exact ⟨some, rfl, rfl, hdocuments, hbounded⟩

/-- The description of a project is the front of its index document. -/
structure DescribesIndex (x : Externals) (snapshot : CommittedSnapshot) (listing : ProjectListing)
    (record : Option DocumentRecord) (summary : ProjectSummary) : Prop where
  description : summary.description = (indexBody x snapshot record).take listing.characters
  descriptionTruncated :
    summary.descriptionTruncated = decide (summary.description ≠ indexBody x snapshot record)

/-- Whether a group matches the normalised query, whatever was read before. -/
def ReadServices.matchesGroup (services : ReadServices) (x : Externals)
    (snapshot : CommittedSnapshot) (query : Option (List Char))
    (group : ProjectId × Nat × Option DocumentRecord) : Bool :=
  query.all fun text =>
    decide (text <:+: group.1.value.toList) ||
      group.2.2.any (fun record =>
        decide (text <:+: services.normalize record.metadata.title.toList)) ||
      decide (text <:+: services.normalize (indexBody x snapshot group.2.2))

theorem matchesProject_eq {group : ProjectId × Nat × Option DocumentRecord} {bytes bytes' : Nat}
    {document : Option DocumentContent} {raw : List Char}
    (h : services.readIndex x snapshot group.2.2 bytes = .ok (document, raw, bytes')) :
    services.matchesProject query group.1 document raw =
      services.matchesGroup x snapshot query group := by
  obtain ⟨hdocument, rfl⟩ := readIndex_spec h
  have hany : ∀ p : String → Bool,
      document.any (fun found => p found.summary.metadata.title) =
        group.2.2.any fun record => p record.metadata.title := by
    intro p
    have := congrArg (Option.any fun summary : DocumentSummary => p summary.metadata.title)
      hdocument
    simpa [Option.any_map, Function.comp_def, documentSummary] using this
  cases query with
  | none => rfl
  | some text =>
      have htitle := hany fun title => decide (text <:+: services.normalize title.toList)
      simp [ReadServices.matchesProject, ReadServices.matchesGroup, htitle]

/-- The listed projects are the first of the groups that match, in their order, and the
listing is truncated when more groups match than there is room for. -/
theorem collectProjects_exact {groups : List (ProjectId × Nat × Option DocumentRecord)}
    {projects result : List ProjectSummary} {bytes : Nat} {truncated : Bool}
    (hroom : projects.length ≤ listing.maximum)
    (h : services.collectProjects x snapshot listing found query groups projects bytes =
      .ok (result, truncated)) :
    truncated = decide (listing.maximum - projects.length <
        (groups.filter (services.matchesGroup x snapshot query)).length) ∧
      ∃ more, result = projects ++ more ∧
        List.Forall₂ (fun group summary => Summarizes listing found group summary ∧
            DescribesIndex x snapshot listing group.2.2 summary)
          ((groups.filter (services.matchesGroup x snapshot query)).take
            (listing.maximum - projects.length)) more := by
  induction groups generalizing projects bytes with
  | nil =>
      simp only [ReadServices.collectProjects, pure_eq_ok, Except.ok.injEq, Prod.mk.injEq] at h
      obtain ⟨rfl, rfl⟩ := h
      exact ⟨by simp, [], by simp, by simp⟩
  | cons group rest ih =>
      simp only [ReadServices.collectProjects] at h
      split at h
      · rename_i hstop
        obtain ⟨rfl, rfl⟩ := Prod.mk.inj (Except.ok.inj h)
        have hmatches : services.matchesGroup x snapshot query group = true := by
          simp [ReadServices.matchesGroup, Option.isNone_iff_eq_none.1 hstop.1]
        rw [hstop.2, Nat.sub_self, List.filter_cons_of_pos hmatches]
        exact ⟨by simp, [], by simp, by simp⟩
      simp only [bind_eq_ok, Prod.exists] at h
      obtain ⟨document, raw, read, hindex, h⟩ := h
      rw [matchesProject_eq hindex] at h
      split at h
      -- a project that does not match is passed over
      · rename_i hmatches
        rw [List.filter_cons_of_neg hmatches]
        exact ih hroom h
      rename_i hmatches
      rw [not_not] at hmatches
      rw [List.filter_cons_of_pos hmatches]
      split at h
      · rename_i hmaximum
        obtain ⟨rfl, rfl⟩ := Prod.mk.inj (Except.ok.inj h)
        rw [hmaximum, Nat.sub_self]
        exact ⟨by simp, [], by simp, by simp⟩
      · rename_i hopen
        simp only [bind_eq_ok, Prod.exists] at h
        obtain ⟨hits, total, hhits, h⟩ := h
        obtain ⟨htruncated, more, rfl, hmore⟩ := ih
          (by simp only [List.length_append, List.length_cons, List.length_nil]; omega) h
        have hleft : listing.maximum - projects.length =
            listing.maximum - (projects.length + 1) + 1 := by omega
        simp only [List.length_append, List.length_cons, List.length_nil, Nat.zero_add]
          at htruncated hmore
        rw [hleft, List.take_succ_cons, List.length_cons]
        obtain ⟨-, rfl⟩ := readIndex_spec hindex
        refine ⟨by simpa using htruncated, ReadServices.summarize listing found group document
          (indexBody x snapshot group.2.2) hits :: more, by simp, .cons ?_ hmore⟩
        exact ⟨summarize_spec hindex hhits, rfl, rfl⟩

/-- The listed projects are some of the groups, in their order, up to the maximum. -/
theorem collectProjects_spec {groups : List (ProjectId × Nat × Option DocumentRecord)}
    {projects result : List ProjectSummary} {bytes : Nat} {truncated : Bool}
    (hroom : projects.length ≤ listing.maximum)
    (h : services.collectProjects x snapshot listing found query groups projects bytes =
      .ok (result, truncated)) :
    result.length ≤ listing.maximum ∧ (truncated → result.length = listing.maximum) ∧
      ∃ more, result = projects ++ more ∧
        (more.map ProjectSummary.project).Sublist (groups.map Prod.fst) ∧
        ∀ summary ∈ more, ∃ group ∈ groups, Summarizes listing found group summary := by
  obtain ⟨htruncated, more, rfl, hmore⟩ := collectProjects_exact hroom h
  have hsub : ((groups.filter (services.matchesGroup x snapshot query)).take
      (listing.maximum - projects.length)).Sublist groups :=
    (List.take_sublist _ _).trans List.filter_sublist
  have hlength := hmore.length_eq
  rw [List.length_take] at hlength
  have hnames : more.map ProjectSummary.project = ((groups.filter
      (services.matchesGroup x snapshot query)).take (listing.maximum - projects.length)).map
        Prod.fst := by
    rw [← List.forall₂_eq_eq_eq, List.forall₂_map_left_iff, List.forall₂_map_right_iff]
    exact hmore.flip.imp fun _ _ hsummary => hsummary.1.project
  refine ⟨?_, fun htrue => ?_, more, rfl, hnames ▸ hsub.map Prod.fst, fun summary hsummary => ?_⟩
  · rw [List.length_append]
    omega
  · rw [htrue, eq_comm, decide_eq_true_eq] at htruncated
    rw [List.length_append]
    omega
  · obtain ⟨place, hplace, rfl⟩ := List.mem_iff_getElem.1 hsummary
    have hpair := hmore.get (hmore.length_eq ▸ hplace) hplace
    exact ⟨_, hsub.subset (List.get_mem _ _), hpair.1⟩

end Projects

section Order

variable {searchIn : ProjectSearchScope} {counts : SortedMap ProjectId Nat}
  {groups : ProjectGroups}

/-- The strict order of listed projects. -/
def Precedes (searchIn : ProjectSearchScope) (counts : SortedMap ProjectId Nat)
    (left right : ProjectId) : Prop :=
  match searchIn with
  | .project => left < right
  | .documents =>
      (counts.get right).getD 0 < (counts.get left).getD 0 ∨
        (counts.get left).getD 0 = (counts.get right).getD 0 ∧ left < right

theorem Precedes.ne {left right : ProjectId} (h : Precedes searchIn counts left right) :
    left ≠ right := by
  rintro rfl
  cases searchIn with
  | project => exact lt_irrefl _ h
  | documents =>
      rcases h with h | ⟨-, h⟩
      · exact Nat.lt_irrefl _ h
      · exact lt_irrefl _ h

theorem rankedBefore_iff {left right : ProjectId × Nat × Option DocumentRecord} :
    rankedBefore counts left right ↔
      (counts.get right.1).getD 0 < (counts.get left.1).getD 0 ∨
        (counts.get left.1).getD 0 = (counts.get right.1).getD 0 ∧ left.1 ≤ right.1 := by
  simp [rankedBefore]

theorem rankedBefore_trans (counts : SortedMap ProjectId Nat)
    (a b c : ProjectId × Nat × Option DocumentRecord)
    (hab : rankedBefore counts a b) (hbc : rankedBefore counts b c) : rankedBefore counts a c := by
  rw [rankedBefore_iff] at hab hbc ⊢
  rcases hab with hab | ⟨hab, hle⟩
  · rcases hbc with hbc | ⟨hbc, -⟩ <;> exact .inl (by omega)
  · rcases hbc with hbc | ⟨hbc, hle'⟩
    · exact .inl (by omega)
    · exact .inr ⟨by omega, hle.trans hle'⟩

theorem rankedBefore_total (a b : ProjectId × Nat × Option DocumentRecord) :
    rankedBefore counts a b || rankedBefore counts b a := by
  rw [Bool.or_eq_true, rankedBefore_iff, rankedBefore_iff]
  rcases Nat.lt_trichotomy ((counts.get a.1).getD 0) ((counts.get b.1).getD 0) with h | h | h
  · exact .inr (.inl h)
  · rcases le_total a.1 b.1 with hle | hle
    · exact .inl (.inr ⟨h, hle⟩)
    · exact .inr (.inr ⟨h.symm, hle⟩)
  · exact .inl (.inl h)

theorem orderGroups_pairwise :
    ((orderGroups searchIn counts groups).map Prod.fst).Pairwise (Precedes searchIn counts) := by
  cases searchIn with
  | project => exact groups.sorted
  | documents =>
      have hsorted := List.pairwise_mergeSort (rankedBefore_trans counts)
        rankedBefore_total (groups.entries.filter fun group => (counts.get group.1).isSome)
      have hdistinct : ((groups.entries.filter fun group =>
          (counts.get group.1).isSome).map Prod.fst).Nodup :=
        groups.nodup_keys.sublist (List.filter_sublist.map Prod.fst)
      have hnodup := ((List.mergeSort_perm (groups.entries.filter fun group =>
        (counts.get group.1).isSome) (rankedBefore counts)).map Prod.fst).nodup_iff.2 hdistinct
      refine List.pairwise_map.2 ((hsorted.and (List.pairwise_map.1 hnodup)).imp ?_)
      rintro a b ⟨hab, hne⟩
      rcases rankedBefore_iff.1 hab with h | ⟨h, hle⟩
      · exact .inl h
      · exact .inr ⟨h, lt_of_le_of_ne hle hne⟩

theorem mem_orderGroups_iff {group : ProjectId × Nat × Option DocumentRecord} :
    group ∈ orderGroups searchIn counts groups ↔
      groups.get group.1 = some group.2 ∧
        (searchIn = .documents → (counts.get group.1).isSome) := by
  cases searchIn with
  | project => simp [orderGroups, SortedMap.get_eq_some_iff]
  | documents =>
      rw [orderGroups, (List.mergeSort_perm _ _).mem_iff, List.mem_filter,
        SortedMap.get_eq_some_iff]
      simp

theorem mem_orderGroups {group : ProjectId × Nat × Option DocumentRecord}
    (h : group ∈ orderGroups searchIn counts groups) :
    groups.get group.1 = some group.2 ∧
      (searchIn = .documents → (counts.get group.1).isSome) :=
  mem_orderGroups_iff.1 h

end Order

/-! ### Context -/

section Context

variable {x : Externals} {services : ReadServices} {snapshot : CommittedSnapshot}
  {request : ContextRequest}

theorem mem_retainFirst {candidate : DocumentRecord × ContextReason} :
    ∀ {seen : List DocumentId} {candidates : List (DocumentRecord × ContextReason)},
      candidate ∈ retainFirst seen candidates → candidate ∈ candidates := by
  intro seen candidates h
  induction candidates generalizing seen with
  | nil => simp [retainFirst] at h
  | cons first rest ih =>
      simp only [retainFirst] at h
      split at h
      · exact List.mem_cons_of_mem _ (ih h)
      · rcases List.mem_cons.1 h with rfl | h
        · exact List.mem_cons_self
        · exact List.mem_cons_of_mem _ (ih h)

/-- Candidates are indexed documents that the filter selects. -/
theorem mem_queryCandidates {all : List DocumentRecord}
    {candidates : List (DocumentRecord × ContextReason)}
    (hall : ∀ record ∈ all, record ∈ snapshot.selected (repositoryFilter request.filter))
    (h : services.queryCandidates snapshot request all = .ok candidates) :
    ∀ candidate ∈ candidates,
      candidate.1 ∈ snapshot.selected (repositoryFilter request.filter) := by
  unfold ReadServices.queryCandidates at h
  cases hquery : request.query with
  | none =>
      simp only [hquery, pure_eq_ok, Except.ok.injEq] at h
      rintro candidate hcandidate
      rw [← h] at hcandidate
      obtain ⟨record, hrecord, rfl⟩ := List.mem_map.1 hcandidate
      exact hall record (List.mem_of_mem_filter (List.mem_of_mem_filter hrecord))
  | some query =>
      simp only [hquery, bind_eq_ok, exists_unit, pure_eq_ok, Except.ok.injEq] at h
      obtain ⟨-, records, hrecords, rfl⟩ := h
      obtain ⟨-, -, hselected⟩ := ranked_spec hrecords
      rintro candidate hcandidate
      rcases List.mem_append.1 hcandidate with hcandidate | hcandidate <;>
        obtain ⟨record, hrecord, rfl⟩ := List.mem_map.1 hcandidate <;>
        exact hselected record (List.mem_of_mem_filter (List.mem_of_mem_filter hrecord))

theorem mem_candidates {candidates : List (DocumentRecord × ContextReason)}
    (h : services.candidates snapshot request = .ok candidates) :
    ∀ candidate ∈ candidates,
      candidate.1 ∈ snapshot.selected (repositoryFilter request.filter) := by
  unfold ReadServices.candidates at h
  simp only [bind_eq_ok, mapError_eq_ok, pure_eq_ok, Except.ok.injEq] at h
  obtain ⟨all, hall, recent, hrecent, asked, hasked, rfl⟩ := h
  intro candidate hcandidate
  have hmem := mem_retainFirst hcandidate
  simp only [List.mem_append, List.mem_map] at hmem
  rcases hmem with ((⟨record, hrecord, rfl⟩ | hlog) | hquery) | ⟨record, hrecord, rfl⟩
  · exact mem_list hall (List.mem_of_mem_filter (List.mem_of_mem_filter hrecord))
  · cases hcount : request.recentDocuments with
    | none => simp [hcount] at hlog
    | some count =>
        rw [hcount] at hlog
        obtain ⟨record, hrecord, rfl⟩ := List.mem_map.1 hlog
        exact mem_recent hrecent
          (List.mem_of_mem_filter (List.mem_of_mem_filter (List.mem_of_mem_take hrecord)))
  · exact mem_queryCandidates (fun record => mem_list hall) hasked candidate hquery
  · exact mem_recent hrecent (List.mem_of_mem_filter (List.mem_of_mem_take hrecord))

theorem length_bestPart {record : DocumentRecord} {raw text : List Char} {allowance : Nat}
    (h : services.bestPart request record raw allowance = .ok text) : text.length ≤ allowance := by
  unfold ReadServices.bestPart at h
  split at h
  · obtain rfl := Except.ok.inj h
    assumption
  split at h
  · obtain rfl := Except.ok.inj h
    exact Nat.zero_le _
  split at h
  · rename_i query hquery
    simp only [bind_eq_ok, pure_eq_ok, Except.ok.injEq] at h
    obtain ⟨excerpts, hexcerpts, rfl⟩ := h
    cases hfind : excerpts.find? fun excerpt => excerpt.field == "body" with
    | none => simp
    | some excerpt =>
        exact services.backend.excerpts_bounded hexcerpts excerpt (List.mem_of_find?_eq_some hfind)
  · obtain rfl := Except.ok.inj h
    simp

theorem length_fitBody {record : DocumentRecord} {raw text : List Char} {allowance : Nat}
    (h : services.fitBody request record raw allowance = .ok text) : text.length ≤ allowance := by
  unfold ReadServices.fitBody at h
  rw [bind_eq_ok] at h
  obtain ⟨first, hfirst, h⟩ := h
  split at h
  · obtain rfl := Except.ok.inj h
    simp
  · obtain rfl := Except.ok.inj h
    exact length_bestPart hfirst

/-- The characters of the documents of a context. -/
def ContextState.characters (state : ContextState) : Nat :=
  (state.documents.map fun document => document.body.length).sum

/-- The limits of a request, while its context is collected from one filter's documents. -/
structure ContextState.Keeps (request : ContextRequest) (good : DocumentSummary → Prop)
    (state : ContextState) : Prop where
  documents_le : state.documents.length ≤ request.maximum
  additional_le : state.additional.length ≤ request.maximum
  characters_le : state.characters + state.remaining ≤ request.characters
  balanced : request.recentDocuments.isSome → ∀ document ∈ state.documents,
    document.body.length ≤ request.characters / request.maximum
  documents : ∀ document ∈ state.documents, good document.document
  additional : ∀ summary ∈ state.additional, good summary

theorem ContextState.Keeps.mention {state : ContextState} {good : DocumentSummary → Prop}
    (h : state.Keeps request good) {summary : DocumentSummary} (hsummary : good summary) :
    (state.mention request.maximum summary).Keeps request good := by
  obtain ⟨hdocuments, hadditional, hcharacters, hbalanced, hgood, hgood'⟩ := h
  refine ⟨hdocuments, ?_, hcharacters, hbalanced, hgood, ?_⟩
  · simp only [ContextState.mention]
    split
    · simpa using ‹_›
    · exact hadditional
  · simp only [ContextState.mention]
    split
    · simpa [or_imp, forall_and, hsummary] using hgood'
    · exact hgood'

theorem addCandidate_keeps {state state' : ContextState} {good : DocumentSummary → Prop}
    {candidate : DocumentRecord × ContextReason} (hgood : good (documentSummary candidate.1))
    (hkeeps : state.Keeps request good)
    (h : services.addCandidate x snapshot request state candidate = .ok state') :
    state'.Keeps request good := by
  unfold ReadServices.addCandidate at h
  split at h
  · obtain rfl := Except.ok.inj h
    exact hkeeps.mention hgood
  rename_i hopen
  simp only [bind_eq_ok, Prod.exists] at h
  obtain ⟨document, bytes, hread, raw, -, text, htext, h⟩ := h
  have hsummary := readDocument_summary hread
  have hlength := length_fitBody htext
  have hread : ({ state with bytes } : ContextState).Keeps request good :=
    ⟨hkeeps.documents_le, hkeeps.additional_le, hkeeps.characters_le, hkeeps.balanced,
      hkeeps.documents, hkeeps.additional⟩
  split at h
  · obtain rfl := Except.ok.inj h
    exact hread.mention (by rwa [hsummary])
  · obtain rfl := Except.ok.inj h
    have hremaining : text.length ≤ state.remaining := by
      refine hlength.trans ?_
      unfold ReadServices.allowance
      split
      · exact Nat.min_le_left _ _
      · exact le_rfl
    obtain ⟨hdocuments, hadditional, hcharacters, hbalanced, hgood', hgood''⟩ := hkeeps
    refine ⟨?_, hadditional, ?_, ?_, ?_, hgood''⟩
    · simp only [List.length_append, List.length_cons, List.length_nil]
      omega
    · simp only [ContextState.characters, List.map_append, List.map_cons, List.map_nil,
        List.sum_append, List.sum_cons, List.sum_nil] at hcharacters ⊢
      omega
    · intro hbalance
      have hshare : text.length ≤ request.characters / request.maximum := by
        rw [ReadServices.allowance, if_pos hbalance] at hlength
        exact hlength.trans (Nat.min_le_right _ _)
      simpa [or_imp, forall_and, hshare] using hbalanced hbalance
    · simpa [or_imp, forall_and, hsummary, hgood] using hgood'

/-- A context keeps the limits of its request, with documents of the snapshot only. -/
theorem context_spec {inspection : Inspection} (good : DocumentSummary → Prop)
    (hgood : ∀ record ∈ snapshot.selected (repositoryFilter request.filter),
      good (documentSummary record))
    (h : services.context x snapshot request = .ok inspection) :
    ∃ state : ContextState, state.Keeps request good ∧
      inspection = .context snapshot.commit state.documents state.additional state.truncated := by
  unfold ReadServices.context at h
  simp only [bind_eq_ok, pure_eq_ok, Except.ok.injEq] at h
  obtain ⟨candidates, hcandidates, state, hstate, rfl⟩ := h
  have hmem := mem_candidates hcandidates
  refine ⟨state, ?_, rfl⟩
  refine foldlM_induction_mem (P := fun state => state.Keeps request good)
    (fun s candidate hcandidate s' hs hstep =>
      addCandidate_keeps (hgood _ (hmem candidate hcandidate)) hs hstep) ?_ hstate
  exact ⟨by simp, by simp, by simp [ContextState.characters], by simp, by simp, by simp⟩

end Context

/-! ### History -/

section History

variable {x : Externals} {reader : HistoryReader} {id : DocumentId}

theorem documentBefore_spec {commit : Option String} {reader' : HistoryReader}
    {found : Option HistoricalDocument}
    (h : reader.documentBefore x id commit = .ok (reader', found)) :
    HistoryReader.Alike reader reader' ∧
      ∀ document ∈ found, document.record.metadata.documentId = id := by
  unfold HistoryReader.documentBefore at h
  cases commit with
  | none =>
      simp only [pure_eq_ok, Except.ok.injEq, Prod.mk.injEq] at h
      obtain ⟨rfl, rfl⟩ := h
      exact ⟨.refl _, by simp⟩
  | some commit =>
      rw [mapError_eq_ok] at h
      obtain ⟨halike, rfl⟩ := HistoryReader.document_eq_ok h
      exact ⟨halike, fun document hdocument =>
        (HistoryReader.historicalIn_documentId hdocument).1⟩

theorem changeAt_documentId {commit : String} {current previous : Option HistoricalDocument}
    {entry : HistoryEntry} (hcurrent : ∀ document ∈ current, document.record.metadata.documentId = id)
    (h : changeAt commit current previous = some entry) :
    entry.document.metadata.documentId = id := by
  unfold changeAt at h
  cases current with
  | none => simp at h
  | some document =>
      simp only [Option.ite_none_right_eq_some, Option.some.injEq] at h
      obtain ⟨-, rfl⟩ := h
      exact hcurrent document rfl

theorem scanCommits_bounded {maximum rounds : Nat} {commits : List String}
    {current : Option HistoricalDocument} {entries result : List HistoryEntry}
    {next : Option String}
    (hcurrent : ∀ document ∈ current, document.record.metadata.documentId = id)
    (hentries : ∀ entry ∈ entries, entry.document.metadata.documentId = id)
    (hroom : entries.length < maximum)
    (h : HistoryReader.scanCommits x id maximum rounds commits reader current entries =
      .ok (result, next)) :
    result.length ≤ maximum ∧ ∀ entry ∈ result, entry.document.metadata.documentId = id := by
  induction rounds generalizing commits reader current entries with
  | zero =>
      simp only [HistoryReader.scanCommits, pure_eq_ok, Except.ok.injEq, Prod.mk.injEq] at h
      obtain ⟨rfl, -⟩ := h
      exact ⟨hroom.le, hentries⟩
  | succ rounds ih =>
      cases commits with
      | nil =>
          simp only [HistoryReader.scanCommits, pure_eq_ok, Except.ok.injEq, Prod.mk.injEq] at h
          obtain ⟨rfl, -⟩ := h
          exact ⟨hroom.le, hentries⟩
      | cons commit rest =>
          simp only [HistoryReader.scanCommits, bind_eq_ok, Prod.exists] at h
          obtain ⟨reader', previous, hprevious, h⟩ := h
          obtain ⟨-, hdocument⟩ := documentBefore_spec hprevious
          have hlength : (changeAt commit current previous).toList.length ≤ 1 := by
            cases changeAt commit current previous <;> simp
          have hall : ∀ entry ∈ entries ++ (changeAt commit current previous).toList,
              entry.document.metadata.documentId = id := by
            intro entry hentry
            rcases List.mem_append.1 hentry with hentry | hentry
            · exact hentries entry hentry
            · exact changeAt_documentId hcurrent (Option.mem_toList.1 hentry)
          split at h
          · simp only [pure_eq_ok, Except.ok.injEq, Prod.mk.injEq] at h
            obtain ⟨rfl, -⟩ := h
            refine ⟨?_, hall⟩
            rw [List.length_append]
            omega
          · rename_i hopen
            exact ih hdocument hall (Nat.lt_of_not_le hopen) h

/-- A page of history has at most so many entries, all of the document asked for. -/
theorem history_spec {cursor : Option String} {maximum : Nat} {page : HistoryPage}
    (hmaximum : 0 < maximum) (h : reader.history x id cursor maximum = .ok page) :
    page.anchorCommit = reader.anchor ∧ page.entries.length ≤ maximum ∧
      ∀ entry ∈ page.entries, entry.document.metadata.documentId = id := by
  unfold HistoryReader.history at h
  simp only [bind_eq_ok, exists_unit, mapError_eq_ok, rejectIf_eq_ok, pure_eq_ok,
    Except.ok.injEq, Prod.exists] at h
  obtain ⟨reader₁, present, hpresent, -, commits, -, reader₂, current, hcurrent, entries, next,
    hscan, rfl⟩ := h
  obtain ⟨halike, -⟩ := HistoryReader.document_eq_ok hpresent
  obtain ⟨halike', hdocument⟩ := documentBefore_spec hcurrent
  obtain ⟨hlength, hentries⟩ := scanCommits_bounded hdocument (by simp) (by simpa) hscan
  exact ⟨by rw [halike'.anchor, halike.anchor], hlength, hentries⟩

/-- A document of the history is the one asked for, with the Markdown it was read from. -/
theorem historical_spec {commit : String} {reader' : HistoryReader} {document : DocumentContent}
    (h : reader.historical x commit id = .ok (reader', document)) :
    HistoryReader.Alike reader reader' ∧ document.summary.metadata.documentId = id ∧
      document.summary.revision = x.digest document.markdown ∧
      decodeDocumentMetadata x document.markdown reader.policy.maximumFrontMatterBytes =
        .ok document.summary.metadata := by
  unfold HistoryReader.historical at h
  simp only [bind_eq_ok, mapError_eq_ok, ofOption_eq_ok, pure_eq_ok, Except.ok.injEq,
    Prod.mk.injEq, Prod.exists] at h
  obtain ⟨next, found, hread, historical, rfl, rfl, rfl⟩ := h
  obtain ⟨halike, hfound⟩ := HistoryReader.document_eq_ok hread
  obtain ⟨hid, path, hdecoded⟩ := HistoryReader.historicalIn_documentId hfound.symm
  obtain ⟨hmetadata, -, -, -, -, -, hrevision, -⟩ := fromMarkdown_eq_ok_iff.1 hdecoded
  exact ⟨halike, hid, hrevision, hmetadata⟩

end History

end AgentKnowledge
