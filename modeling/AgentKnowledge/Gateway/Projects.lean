import AgentKnowledge.Gateway.Context

/-!
Project discovery is exact.

`Discovered` says which projects a listing is about: those with a document in the archive
scope that mention the query (project mode) or hold one of the ranked documents (documents
mode). `listProjects_exact` shows that a listing returns the first of them in the order of
its mode (`ListedBefore`), says truthfully whether there are more, and that each summary
counts and quotes its project exactly (`ExactSummary`).

A project has one index document (`index_unique`), since an index document has the only
path that its project allows, so the last one met while grouping is the only one.
-/

namespace AgentKnowledge

open Results

/-! ### The index document of a project -/

section IndexDocument

variable {x : Externals} {services : ReadServices} {snapshot : CommittedSnapshot}

/-- A tree has one index document for each project. -/
theorem index_unique {policy : ContentPolicy} {packagePolicy : PackagePolicy} {tree : ContentTree}
    {index : ContentIndex} (h : ContentIndex.build x policy packagePolicy tree = .ok index)
    {left right : DocumentRecord} (hleft : left ∈ index.documents)
    (hright : right ∈ index.documents) (hproject : left.location.project = right.location.project)
    (hleftIndex : isIndexDocument left) (hrightIndex : isIndexDocument right) : left = right := by
  obtain ⟨leaf, hfile, -, hrecord⟩ := (mem_documents_iff h).1 hleft
  obtain ⟨leaf', hfile', -, hrecord'⟩ := (mem_documents_iff h).1 hright
  have hpath : left.relativePath = right.relativePath := by
    rw [(fromMarkdown_eq_ok_iff.1 hrecord).2.2.1, (fromMarkdown_eq_ok_iff.1 hrecord').2.2.1]
    rw [isIndexDocument, decide_eq_true_eq] at hleftIndex hrightIndex
    simp [canonicalDocumentPath, hleftIndex, hrightIndex, hproject]
  rw [hpath] at hfile hrecord
  obtain rfl : leaf = leaf' := by simpa using hfile.symm.trans hfile'
  exact Except.ok.inj (hrecord.symm.trans hrecord')

/-- The documents in the archive scope of a listing. -/
def ProjectListing.inScope (listing : ProjectListing) (snapshot : CommittedSnapshot) :
    List DocumentRecord :=
  snapshot.selected { includeArchived := listing.includeArchived }

/-- The index document of a project. -/
def ProjectListing.indexDocument (listing : ProjectListing) (snapshot : CommittedSnapshot)
    (project : ProjectId) : Option DocumentRecord :=
  (inProject project (listing.inScope snapshot)).find? isIndexDocument

/-- When all that is looked for is one value, the last found in one order is the first found
in another. -/
theorem getLast?_filter_eq_find? {α : Type} {p : α → Bool} {l l' : List α} (hperm : l.Perm l')
    (hunique : ∀ a ∈ l, ∀ b ∈ l, p a → p b → a = b) : (l.filter p).getLast? = l'.find? p := by
  cases hfind : l'.find? p with
  | none =>
      have hnone : l.filter p = [] := by
        refine List.filter_eq_nil_iff.2 fun a ha => ?_
        exact List.find?_eq_none.1 hfind a (hperm.mem_iff.1 ha)
      rw [hnone]
      rfl
  | some a =>
      have hmem : a ∈ l := hperm.mem_iff.2 (List.mem_of_find?_eq_some hfind)
      have hp : p a := List.find?_some hfind
      obtain ⟨b, hb⟩ := Option.ne_none_iff_exists'.1 (mt List.getLast?_eq_none_iff.1
        (List.ne_nil_of_mem (List.mem_filter.2 ⟨hmem, hp⟩)))
      obtain ⟨hbmem, hpb⟩ := List.mem_filter.1 (List.mem_of_getLast? hb)
      rw [hb, hunique a hmem b hbmem hp hpb]

variable {listing : ProjectListing} {records : List DocumentRecord}

/-- The groups of a listing, in terms of the documents in scope. -/
theorem get_groups_of_perm (hsnapshot : services.snapshot x = .ok snapshot)
    (hperm : records.Perm (listing.inScope snapshot)) (project : ProjectId) :
    (records.foldl groupDocument .empty).get project =
      if inProject project (listing.inScope snapshot) = [] then none
      else some ((inProject project (listing.inScope snapshot)).length,
        listing.indexDocument snapshot project) := by
  have hmembers : (inProject project records).Perm
      (inProject project (listing.inScope snapshot)) := hperm.filter _
  rw [ReadServices.snapshot, mapError_eq_ok, snapshot_eq_ok_iff] at hsnapshot
  have hlast := getLast?_filter_eq_find? (p := isIndexDocument) hmembers ?_
  · rw [get_groups_eq, hlast, hmembers.length_eq]
    simp only [← List.length_eq_zero_iff, hmembers.length_eq]
    rfl
  · intro left hleft right hright hleftIndex hrightIndex
    obtain ⟨hleft, hleftProject⟩ := mem_inProject.1 (hmembers.mem_iff.1 hleft)
    obtain ⟨hright, hrightProject⟩ := mem_inProject.1 (hmembers.mem_iff.1 hright)
    exact index_unique hsnapshot.2.2.1 (mem_selected.1 hleft).1 (mem_selected.1 hright).1
      (hleftProject.trans hrightProject.symm) hleftIndex hrightIndex

end IndexDocument

/-! ### What a listing is about -/

section Discovery

variable (x : Externals) (services : ReadServices) (snapshot : CommittedSnapshot)
  (listing : ProjectListing) (ranked : List DocumentRecord)

/-- The ranked matches of a listing in documents mode. -/
def RankedFor : Prop :=
  match listing.searchIn with
  | .project => ranked = []
  | .documents => ∃ query ∈ listing.query,
      services.ranked snapshot query { includeArchived := listing.includeArchived }
        services.settings.maximumIndexEntries = .ok ranked

/-- The slug, the index title or the index body of a project contains a text. -/
def MentionsText (text : List Char) (project : ProjectId) : Prop :=
  text <:+: project.value.toList ∨
    (∃ record ∈ listing.indexDocument snapshot project,
      text <:+: services.normalize record.metadata.title.toList) ∨
    text <:+: services.normalize (indexBody x snapshot (listing.indexDocument snapshot project))

/-- The projects a listing is about. -/
def Discovered (project : ProjectId) : Prop :=
  (∃ record ∈ listing.inScope snapshot, record.location.project = some project) ∧
    match listing.searchIn with
    | .project => ∀ query ∈ listing.query,
        MentionsText x services snapshot listing
          (services.normalize (Text.trim query.toList)) project
    | .documents => ∃ record ∈ ranked, record.location.project = some project

/-- The order of a listing: by slug, in documents mode by falling number of matches first. -/
def ListedBefore (left right : ProjectId) : Prop :=
  match listing.searchIn with
  | .project => left < right
  | .documents =>
      (inProject right ranked).length < (inProject left ranked).length ∨
        (inProject left ranked).length = (inProject right ranked).length ∧ left < right

/-- A summary that counts and quotes its project exactly. -/
structure ExactSummary (summary : ProjectSummary) : Prop where
  documentCount :
    summary.documentCount = (inProject summary.project (listing.inScope snapshot)).length
  matchingDocuments : summary.matchingDocuments =
    match listing.searchIn with
    | .project => none
    | .documents => some (inProject summary.project ranked).length
  index :
    summary.index = (listing.indexDocument snapshot summary.project).map documentSummary
  described :
    DescribesIndex x snapshot listing (listing.indexDocument snapshot summary.project) summary
  hits : match listing.hitOptions with
    | none => summary.hits = none
    | some (hitsPerProject, _) => ∃ hits, summary.hits = some hits ∧
        hits.map SearchHit.document =
          ((inProject summary.project ranked).take hitsPerProject).map documentSummary

/-- A page with the first of the discovered projects, in the order of its mode. -/
structure ExactListing (projects : List ProjectSummary) (truncated : Bool) : Prop where
  discovered : ∃ all : List ProjectId,
    (∀ project, project ∈ all ↔ Discovered x services snapshot listing ranked project) ∧
      all.Nodup ∧ all.Pairwise (ListedBefore listing ranked) ∧
      projects.map ProjectSummary.project = all.take listing.maximum ∧
      truncated = decide (listing.maximum < all.length)
  summaries : ∀ summary ∈ projects, ExactSummary x snapshot listing ranked summary

end Discovery

section Exact

variable {x : Externals} {services : ReadServices} {snapshot : CommittedSnapshot}
  {listing : ProjectListing} {ranked records : List DocumentRecord}

/-- Matches are counted over the ranked documents; in project mode there are none. -/
theorem countMatches_ranked {found : ProjectMatches}
    (h : services.countMatches snapshot listing = .ok found) :
    ∃ ranked, RankedFor services snapshot listing ranked ∧
      found = ranked.foldl (countMatch (listing.hitOptions.map Prod.fst)) {} := by
  unfold ReadServices.countMatches at h
  unfold RankedFor
  cases hsearch : listing.searchIn with
  | project =>
      simp only [hsearch, pure_eq_ok, Except.ok.injEq] at h
      exact ⟨[], rfl, h.symm⟩
  | documents =>
      simp only [hsearch, bind_eq_ok, exists_unit, ofOption_eq_ok, pure_eq_ok,
        Except.ok.injEq] at h
      obtain ⟨-, query, hquery, ranked, hranked, rfl⟩ := h
      exact ⟨ranked, ⟨query, hquery, hranked⟩, rfl⟩

/-- The normalised query of project mode. -/
def projectQuery (services : ReadServices) (listing : ProjectListing) : Option (List Char) :=
  match listing.searchIn with
  | .project => listing.query.map fun text => services.normalize (Text.trim text.toList)
  | .documents => none

/-- The groups of a listing, ordered as its mode asks. -/
def orderedGroups (listing : ProjectListing) (ranked records : List DocumentRecord) :
    List (ProjectId × Nat × Option DocumentRecord) :=
  orderGroups listing.searchIn
    (ranked.foldl (countMatch (listing.hitOptions.map Prod.fst)) {}).counts
    (records.foldl groupDocument .empty)

theorem mem_orderedGroups (hsnapshot : services.snapshot x = .ok snapshot)
    (hperm : records.Perm (listing.inScope snapshot))
    {group : ProjectId × Nat × Option DocumentRecord} :
    group ∈ orderedGroups listing ranked records ↔
      inProject group.1 (listing.inScope snapshot) ≠ [] ∧
        (listing.searchIn = .documents → inProject group.1 ranked ≠ []) ∧
        group.2 = ((inProject group.1 (listing.inScope snapshot)).length,
          listing.indexDocument snapshot group.1) := by
  rw [orderedGroups, mem_orderGroups_iff, get_groups_of_perm hsnapshot hperm, get_counts]
  by_cases hnone : inProject group.1 (listing.inScope snapshot) = []
  · simp [hnone]
  · by_cases hranked : inProject group.1 ranked = []
    · simp [hnone, hranked, eq_comm (a := group.2), and_comm]
    · simp [hnone, hranked, eq_comm (a := group.2)]

theorem inProject_ne_nil {project : ProjectId} :
    inProject project records ≠ [] ↔ ∃ record ∈ records, record.location.project = some project := by
  constructor
  · intro hsome
    obtain ⟨record, hrecord⟩ := List.exists_mem_of_ne_nil _ hsome
    exact ⟨record, mem_inProject.1 hrecord⟩
  · rintro ⟨record, hrecord⟩
    exact List.ne_nil_of_mem (mem_inProject.2 hrecord)

/-- A group is asked for exactly when its project is discovered. -/
theorem matchesGroup_iff_discovered {project : ProjectId}
    (hscope : inProject project (listing.inScope snapshot) ≠ [])
    (hranked : listing.searchIn = .documents → inProject project ranked ≠ []) {count : Nat} :
    services.matchesGroup x snapshot (projectQuery services listing)
        (project, count, listing.indexDocument snapshot project) ↔
      Discovered x services snapshot listing ranked project := by
  have hin := inProject_ne_nil.1 hscope
  unfold Discovered projectQuery
  cases hsearch : listing.searchIn with
  | project =>
      cases hquery : listing.query with
      | none => simpa [ReadServices.matchesGroup] using hin
      | some query =>
          simp only [ReadServices.matchesGroup, MentionsText, Option.map_some, Option.all_some,
            Bool.or_eq_true, decide_eq_true_eq, Option.any_eq_true, or_assoc, hin, true_and,
            Option.mem_def, Option.some.injEq, forall_eq']
  | documents =>
      simpa [ReadServices.matchesGroup, hin] using inProject_ne_nil.1 (hranked hsearch)

theorem mem_matching (hsnapshot : services.snapshot x = .ok snapshot)
    (hperm : records.Perm (listing.inScope snapshot)) {project : ProjectId} :
    project ∈ ((orderedGroups listing ranked records).filter
        (services.matchesGroup x snapshot (projectQuery services listing))).map Prod.fst ↔
      Discovered x services snapshot listing ranked project := by
  rw [List.mem_map]
  constructor
  · rintro ⟨⟨project, count, index⟩, hgroup, rfl⟩
    obtain ⟨hmem, hmatches⟩ := List.mem_filter.1 hgroup
    obtain ⟨hscope, hranked, hentry⟩ := (mem_orderedGroups hsnapshot hperm).1 hmem
    rw [(Prod.mk.inj hentry).2] at hmatches
    exact (matchesGroup_iff_discovered hscope hranked).1 hmatches
  · intro hdiscovered
    have hscope := inProject_ne_nil.2 hdiscovered.1
    have hranked : listing.searchIn = .documents → inProject project ranked ≠ [] := by
      intro hsearch
      have hmatched := hdiscovered.2
      rw [hsearch] at hmatched
      exact inProject_ne_nil.2 hmatched
    refine ⟨(project, (inProject project (listing.inScope snapshot)).length,
      listing.indexDocument snapshot project), List.mem_filter.2
      ⟨(mem_orderedGroups hsnapshot hperm).2 ⟨hscope, hranked, rfl⟩, ?_⟩, rfl⟩
    exact (matchesGroup_iff_discovered hscope hranked).2 hdiscovered

theorem getD_counts (maximumHits : Option Nat) (ranked : List DocumentRecord)
    (project : ProjectId) :
    ((ranked.foldl (countMatch maximumHits) {}).counts.get project).getD 0 =
      (inProject project ranked).length := by
  rw [get_counts]
  split
  · rename_i hnone
    rw [hnone]
    rfl
  · rfl

theorem orderedGroups_pairwise :
    ((orderedGroups listing ranked records).map Prod.fst).Pairwise
      (ListedBefore listing ranked) := by
  refine orderGroups_pairwise.imp fun {left right} hprecedes => ?_
  unfold Precedes at hprecedes
  unfold ListedBefore
  cases hsearch : listing.searchIn with
  | project => simpa [hsearch] using hprecedes
  | documents => simpa [hsearch, getD_counts] using hprecedes

theorem ListedBefore.ne {left right : ProjectId} (h : ListedBefore listing ranked left right) :
    left ≠ right := by
  rintro rfl
  unfold ListedBefore at h
  cases hsearch : listing.searchIn with
  | project =>
      rw [hsearch] at h
      exact lt_irrefl _ h
  | documents =>
      rw [hsearch] at h
      rcases h with h | ⟨-, h⟩
      · exact Nat.lt_irrefl _ h
      · exact lt_irrefl _ h

/-- What a summary says of a group, it says of the documents of the project. -/
theorem ExactSummary.of_group (hsnapshot : services.snapshot x = .ok snapshot)
    (hperm : records.Perm (listing.inScope snapshot))
    (hranked : RankedFor services snapshot listing ranked)
    {group : ProjectId × Nat × Option DocumentRecord} {summary : ProjectSummary}
    (hgroup : group ∈ orderedGroups listing ranked records)
    (hsummary : Summarizes listing
      (ranked.foldl (countMatch (listing.hitOptions.map Prod.fst)) {}) group summary)
    (hdescribed : DescribesIndex x snapshot listing group.2.2 summary) :
    ExactSummary x snapshot listing ranked summary := by
  obtain ⟨-, hmatched, hentry⟩ := (mem_orderedGroups hsnapshot hperm).1 hgroup
  have hcount := hsummary.documentCount
  have hindex := hsummary.index
  have hmatching := hsummary.matchingDocuments
  have hhits := hsummary.hits
  rw [hentry] at hcount hindex hdescribed
  rw [get_counts] at hmatching
  rw [← hsummary.project] at hcount hindex hdescribed hmatching hmatched hhits
  refine ⟨hcount, ?_, hindex, hdescribed, ?_⟩
  · rw [hmatching]
    unfold RankedFor at hranked
    cases hsearch : listing.searchIn with
    | project =>
        rw [hsearch] at hranked
        simp [hranked, inProject]
    | documents => simp [hmatched hsearch]
  · cases hoptions : listing.hitOptions with
    | none =>
        rw [hoptions] at hhits
        exact hhits.1
    | some options =>
        rw [hoptions] at hhits
        obtain ⟨hits, hsome, -, hdocuments, -⟩ := hhits
        rw [Option.map_some, get_topHits] at hdocuments
        exact ⟨hits, hsome, hdocuments⟩

/-- Project discovery is exact. -/
theorem listProjects_exact {inspection : Inspection}
    (hsnapshot : services.snapshot x = .ok snapshot)
    (h : services.listProjects x snapshot listing = .ok inspection) :
    ∃ ranked projects truncated, RankedFor services snapshot listing ranked ∧
      (ranked.map fun record => record.metadata.documentId).Nodup ∧
      inspection = .projects snapshot.commit projects truncated ∧
      ExactListing x services snapshot listing ranked projects truncated := by
  unfold ReadServices.listProjects at h
  simp only [bind_eq_ok, mapError_eq_ok, pure_eq_ok, Except.ok.injEq, Prod.exists] at h
  obtain ⟨records, hrecords, found, hfound, projects, truncated, hprojects, rfl⟩ := h
  have hperm : records.Perm (listing.inScope snapshot) :=
    list_perm hrecords (snapshot_withinIndex hsnapshot).length_le
  obtain ⟨ranked, hranked, rfl⟩ := countMatches_ranked hfound
  have hnodup : (ranked.map fun record => record.metadata.documentId).Nodup := by
    unfold RankedFor at hranked
    cases hsearch : listing.searchIn with
    | project =>
        rw [hsearch] at hranked
        simp [hranked]
    | documents =>
        rw [hsearch] at hranked
        obtain ⟨query, -, hquery⟩ := hranked
        exact (ranked_spec hquery).2.1
  obtain ⟨htruncated, more, hmore, hpairs⟩ := collectProjects_exact (Nat.zero_le _) hprojects
  rw [List.nil_append] at hmore
  subst hmore
  rw [List.length_nil, Nat.sub_zero] at htruncated hpairs
  refine ⟨ranked, projects, truncated, hranked, hnodup, rfl, ⟨?_, fun summary hsummary => ?_⟩⟩
  · have hpairwise : (((orderedGroups listing ranked records).filter
        (services.matchesGroup x snapshot (projectQuery services listing))).map
        Prod.fst).Pairwise (ListedBefore listing ranked) :=
      orderedGroups_pairwise.sublist (List.filter_sublist.map Prod.fst)
    refine ⟨_, fun project => mem_matching hsnapshot hperm, hpairwise.imp ListedBefore.ne,
      hpairwise, ?_, by rw [htruncated, List.length_map]; rfl⟩
    rw [← List.map_take, ← List.forall₂_eq_eq_eq, List.forall₂_map_left_iff,
      List.forall₂_map_right_iff]
    exact hpairs.flip.imp fun _ _ hsummary => hsummary.1.project
  · obtain ⟨place, hplace, rfl⟩ := List.mem_iff_getElem.1 hsummary
    have hpair := hpairs.get (hpairs.length_eq ▸ hplace) hplace
    exact .of_group hsnapshot hperm hranked
      (List.mem_of_mem_filter (List.mem_of_mem_take (List.get_mem _ _))) hpair.1 hpair.2

end Exact

namespace Sample

/-- A tree with one document of one project. -/
def projectTree : ContentTree :=
  .ofFiles [("projects" :: "p" :: bundle.drop 1 ++ ["index.md"], ⟨markdown 97, .plain⟩)]

def projectServices : ReadServices where
  settings := ⟨10, 100, 1000, 100, 1000, 10000⟩
  store := ⟨"c", "c", projectTree, projectTree⟩
  git := ⟨fun _ _ => true, fun _ => [], fun _ => projectTree⟩
  backend := linearBackend
  normalize := id
  encodedLength _ := 500

/-- A listing of projects that mention a letter. -/
def projectListing : ProjectListing := ⟨some " p ", .project, 1, 80, false, none⟩

/-- A list of one document needs no sorting. -/
theorem list_of_short {snapshot : CommittedSnapshot} {filter : ReadFilter} {maximum : Nat}
    (hshort : (snapshot.selected filter).length ≤ 1) (hmaximum : 1 ≤ maximum) :
    snapshot.list filter maximum = .ok (snapshot.selected filter) := by
  have hsorted : ∀ (le : DocumentRecord → DocumentRecord → Bool) {l : List DocumentRecord},
      l.length ≤ 1 → l.mergeSort le = l := by
    intro le l hl
    rcases l with _ | ⟨record, _ | ⟨other, rest⟩⟩
    · exact List.mergeSort_nil
    · exact List.mergeSort_singleton record
    · simp at hl
  have hpositive : maximum ≠ 0 := by omega
  unfold CommittedSnapshot.list
  dsimp only
  rw [hsorted _ hshort, List.take_of_length_le (hshort.trans hmaximum), rejectIf,
    if_neg hpositive]
  rfl

theorem list_projects_sample :
    ∃ snapshot ranked projects truncated, projects ≠ [] ∧
      projectServices.listProjects (externals moveAndAttach) snapshot projectListing =
        .ok (.projects snapshot.commit projects truncated) ∧
      ExactListing (externals moveAndAttach) projectServices snapshot projectListing ranked projects
        truncated := by
  obtain ⟨snapshot, hsnapshot, hshort, hlists⟩ : ∃ snapshot,
      projectServices.snapshot (externals moveAndAttach) = .ok snapshot ∧
        (snapshot.selected {}).length ≤ 1 ∧
        (projectServices.collectProjects (externals moveAndAttach) snapshot projectListing {}
          (some ['p']) (orderGroups .project .empty
            ((snapshot.selected {}).foldl groupDocument .empty)) [] 0).toOption.any
          fun found => found.1 ≠ [] :=
    exists_ok_of_any (by decide +kernel)
  obtain ⟨⟨found, more⟩, hcollect, hfound⟩ := exists_ok_of_any hlists
  have hlist : projectServices.listProjects (externals moveAndAttach) snapshot projectListing =
      .ok (.projects snapshot.commit found more) := by
    have hrecords : snapshot.list { includeArchived := projectListing.includeArchived }
        projectServices.settings.maximumIndexEntries = .ok (snapshot.selected {}) :=
      list_of_short hshort (by decide)
    unfold ReadServices.listProjects
    dsimp only
    rw [hrecords]
    exact congrArg (fun result => result >>= fun pair =>
      Except.ok (Inspection.projects snapshot.commit pair.1 pair.2)) hcollect
  obtain ⟨ranked, projects, truncated, -, -, hprojects, hexact⟩ :=
    listProjects_exact hsnapshot hlist
  obtain ⟨-, rfl, rfl⟩ := Inspection.projects.inj hprojects
  exact ⟨snapshot, ranked, found, more, hfound, hlist, hexact⟩

end Sample

end AgentKnowledge
