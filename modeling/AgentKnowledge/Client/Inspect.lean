import AgentKnowledge.Gateway.HistoryPages
import AgentKnowledge.Gateway.InspectSpec

/-!
The client's check of an inspection (`crates/client/src/inspect.rs`).

`validate` compares an answer with the request it is for. Every answer of the gateway passes
it (`inspect_accepted`), so a request the gateway can answer never fails at the client.
-/

namespace AgentKnowledge

open Results

namespace Client

/-- A failure of a client command. -/
inductive ClientCommandError where
  | documentResponseMismatch
deriving DecidableEq

/-- The hits of one project. -/
def validHits (archived : Bool) (hitOptions : Option (Nat × Nat)) (p : ProjectSummary) : Bool :=
  match hitOptions, p.hits, p.hitsTruncated with
  | none, none, none => true
  | some (maximum, characters), some hits, some truncated =>
      let count := p.matchingDocuments.getD 0
      decide (hits.length = min count maximum) && truncated == decide (hits.length < count) &&
        hits.all (fun hit =>
          hit.document.project == some p.project && (archived || !hit.document.archived) &&
            hit.excerpts.all fun excerpt => decide (excerpt.text.length ≤ characters)) &&
        decide (hits.map fun hit => hit.document.metadata.documentId).Nodup
  | _, _, _ => false

/-- One project of a listing. -/
def validProject (documents archived : Bool) (hitOptions : Option (Nat × Nat))
    (descriptionCharacters : Nat) (p : ProjectSummary) : Bool :=
  validHits archived hitOptions p && decide (0 < p.documentCount) &&
    decide (p.description.length ≤ descriptionCharacters) &&
    p.matchingDocuments.isSome == documents &&
    p.matchingDocuments.all (fun n => decide (0 < n ∧ n ≤ p.documentCount)) &&
    match p.index with
    | none => p.description.isEmpty && !p.descriptionTruncated
    | some d => d.project == some p.project && d.documentType == .index

/-- Counts in order, with no count before any (`Option<usize>`). -/
def countBelow : Option Nat → Option Nat → Bool
  | none, some _ => true
  | some a, some b => decide (a < b)
  | _, none => false

/-- The order of two neighbours of a listing. -/
def inOrder (documents : Bool) (left right : ProjectSummary) : Bool :=
  if documents then
    countBelow right.matchingDocuments left.matchingDocuments ||
      (left.matchingDocuments == right.matchingDocuments && decide (left.project < right.project))
  else decide (left.project < right.project)

def validProjects (documents archived : Bool) (hitOptions : Option (Nat × Nat))
    (maximumResults descriptionCharacters : Nat) (projects : List ProjectSummary)
    (truncated : Bool) : Bool :=
  decide (projects.length ≤ maximumResults) &&
    (!truncated || decide (projects.length = maximumResults)) &&
    projects.all (validProject documents archived hitOptions descriptionCharacters) &&
    decide (projects.map ProjectSummary.project).Nodup &&
    decide (projects.IsChain fun left right => inOrder documents left right)

def validExcerpts (filter : ReadFilterRequest) (maximumResults excerptCharacters : Nat)
    (hits : List SearchHit) : Bool :=
  decide (hits.length ≤ maximumResults) && hits.all fun hit =>
    filter.project.all (fun project => hit.document.project == some project) &&
      filter.projects.all (fun projects =>
        hit.document.project.any fun project => projects.contains project) &&
      hit.excerpts.all fun excerpt => decide (excerpt.text.length ≤ excerptCharacters)

def validContext (balanced : Bool) (project : ProjectId) (maximumDocuments maximumCharacters : Nat)
    (documents : List ContextDocument) (additional : List DocumentSummary) : Bool :=
  decide (documents.length ≤ maximumDocuments) &&
    decide (additional.length ≤ maximumDocuments) &&
    decide ((documents.map fun document => document.body.length).sum ≤ maximumCharacters) &&
    (!balanced || (decide (0 < maximumDocuments) && documents.all fun document =>
      decide (document.body.length ≤ maximumCharacters / maximumDocuments))) &&
    documents.all (fun document => document.document.project == some project) &&
    additional.all fun summary => summary.project == some project

def validHunks (maximumHunks maximumDiffBytes : Nat) (body : BodyHunks) : Bool :=
  decide (body.hunks.length ≤ maximumHunks) &&
    body.truncated == body.truncationReason.isSome &&
    (body.changed || (body.hunks.isEmpty && !body.truncated)) &&
    (!body.changed || !body.hunks.isEmpty || body.truncated) &&
    body.hunks.all (fun hunk => decide (0 < hunk.fromLine ∧ 0 < hunk.toLine)) &&
    decide (Json.size body.json ≤ maximumDiffBytes)

section Valid

variable (x : Externals)

/-- A document that is what its summary says. -/
def validContent (id : DocumentId) (document : DocumentContent) : Bool :=
  document.summary.metadata.documentId == id &&
    x.digest document.markdown == document.summary.revision &&
    match decodeDocumentMetadata x document.markdown
        PackagePolicy.default.limits.maximumFrontMatterBytes with
    | .ok metadata => metadata == document.summary.metadata
    | .error _ => false

/-- Whether an inspection can be the answer to a query. -/
def valid : InspectQuery → Inspection → Bool
  | .projects _ searchIn maximum characters archived, .projects _ projects truncated =>
      validProjects (searchIn == .documents) archived none maximum characters projects truncated
  | .projectsWithHits _ maximum characters archived hits excerptCharacters,
      .projects _ projects truncated =>
      validProjects true archived (some (hits, excerptCharacters)) maximum characters projects
        truncated
  | .searchExcerpts _ filter maximum characters, .searchExcerpts _ hits =>
      validExcerpts filter maximum characters hits
  | .context project _ maximum characters, .context _ documents additional _ =>
      validContext false project maximum characters documents additional
  | .contextBalanced project _ maximum characters _, .context _ documents additional _ =>
      validContext true project maximum characters documents additional
  | .history id anchor _ maximum, .history page =>
      anchor.all (fun commit => commit == page.anchorCommit) &&
        decide (page.entries.length ≤ maximum) &&
        page.entries.all fun entry => entry.document.metadata.documentId == id
  | .getAt id commit, .getAt actual document =>
      commit == actual && validContent x id document
  | .diff id fromCommit toCommit, .diff actualFrom actualTo before after _ =>
      fromCommit == actualFrom && toCommit == actualTo &&
        before.metadata.documentId == id && after.metadata.documentId == id
  | .diffHunks id fromCommit toCommit _ maximumHunks maximumBytes,
      .diffHunks actualFrom actualTo before after body =>
      fromCommit == actualFrom && toCommit == actualTo &&
        before.metadata.documentId == id && after.metadata.documentId == id &&
        validHunks maximumHunks maximumBytes body
  | _, _ => false

def validate (request : InspectRequest) (response : InspectResponse) :
    Except ClientCommandError Unit :=
  if valid x request.query response.result then .ok () else .error .documentResponseMismatch

end Valid

/-! ### Every answer is accepted -/

section Accepted

variable {x : Externals} {services : ReadServices}

/-- The documents of a listing and its matches, as the gateway has collected them. -/
structure Collected (snapshot : CommittedSnapshot) (listing : ProjectListing)
    (records : List DocumentRecord) (found : ProjectMatches) : Prop where
  records : records.Perm (snapshot.selected { includeArchived := listing.includeArchived })
  matched : match listing.searchIn with
    | .project => found = {}
    | .documents => ∃ ranked : List DocumentRecord,
        found = ranked.foldl (countMatch (listing.hitOptions.map Prod.fst)) {} ∧
        (ranked.map fun record => record.metadata.documentId).Nodup ∧
        ∀ record ∈ ranked,
          record ∈ snapshot.selected { includeArchived := listing.includeArchived }
  hits : listing.hitOptions.isSome → listing.searchIn = .documents

section Projects

variable {snapshot : CommittedSnapshot} {listing : ProjectListing} {records ranked : List DocumentRecord}
  {found : ProjectMatches} {summary : ProjectSummary}

theorem length_inProject_le (project : ProjectId)
    (hnodup : (ranked.map fun record => record.metadata.documentId).Nodup)
    (hsub : ∀ record ∈ ranked, record ∈ records) :
    (inProject project ranked).length ≤ (inProject project records).length := by
  have hdistinct : (inProject project ranked).Nodup :=
    (List.Nodup.of_map _ hnodup).sublist List.filter_sublist
  refine (List.subperm_of_subset hdistinct fun record hrecord => ?_).length_le
  obtain ⟨hrecord, hproject⟩ := mem_inProject.1 hrecord
  exact mem_inProject.2 ⟨hsub record hrecord, hproject⟩

/-- Top hits pass the client's check. -/
theorem validHits_of_ranked {maximum characters : Nat} {hits : List SearchHit}
    (hnodup : (ranked.map fun record => record.metadata.documentId).Nodup)
    (hranked : ∀ record ∈ ranked,
      record ∈ snapshot.selected { includeArchived := listing.includeArchived })
    (hcount : summary.matchingDocuments.getD 0 = (inProject summary.project ranked).length)
    (hhits : summary.hits = some hits)
    (htruncated : summary.hitsTruncated =
      some (decide (hits.length < summary.matchingDocuments.getD 0)))
    (hdocuments : hits.map SearchHit.document =
      ((inProject summary.project ranked).take maximum).map documentSummary)
    (hexcerpts : ∀ hit ∈ hits, ∀ excerpt ∈ hit.excerpts, excerpt.text.length ≤ characters) :
    validHits listing.includeArchived (some (maximum, characters)) summary := by
  have hlength : hits.length = min (summary.matchingDocuments.getD 0) maximum := by
    rw [← List.length_map (f := SearchHit.document), hdocuments, hcount, List.length_map,
      List.length_take, Nat.min_comm]
  have hscope : ∀ hit ∈ hits, hit.document.project = some summary.project ∧
      (listing.includeArchived || !hit.document.archived) := by
    intro hit hhit
    have hmem : hit.document ∈ hits.map SearchHit.document := List.mem_map_of_mem hhit
    rw [hdocuments] at hmem
    obtain ⟨record, hrecord, hsummary⟩ := List.mem_map.1 hmem
    obtain ⟨hrecord, hproject⟩ := mem_inProject.1 (List.mem_of_mem_take hrecord)
    have hmatches := (mem_selected.1 (hranked record hrecord)).2
    rw [← hsummary]
    refine ⟨hproject, ?_⟩
    simpa [ReadFilter.matchesDocument, documentSummary] using hmatches
  have hids : (hits.map fun hit => hit.document.metadata.documentId).Nodup := by
    have hmap : hits.map (fun hit => hit.document.metadata.documentId) =
        ((inProject summary.project ranked).take maximum).map
          fun record => record.metadata.documentId := by
      have := congrArg (List.map fun document : DocumentSummary => document.metadata.documentId)
        hdocuments
      simpa [List.map_map, Function.comp_def, documentSummary] using this
    rw [hmap]
    exact hnodup.sublist (((List.take_sublist _ _).trans List.filter_sublist).map _)
  simp only [validHits, hhits, htruncated, hlength, Bool.and_eq_true, decide_eq_true_eq,
    beq_self_eq_true, List.all_eq_true, beq_iff_eq, and_true, true_and]
  exact ⟨fun hit hhit => ⟨hscope hit hhit, hexcerpts hit hhit⟩, hids⟩

theorem validProject_of_group {group : ProjectId × Nat × Option DocumentRecord}
    (hcollected : Collected snapshot listing records found)
    (hgroup : group ∈ orderGroups listing.searchIn found.counts
      (records.foldl groupDocument .empty))
    (hsummary : Summarizes listing found group summary) :
    validProject (listing.searchIn == .documents) listing.includeArchived listing.hitOptions
      listing.characters summary := by
  obtain ⟨hget, hcounted⟩ := mem_orderGroups hgroup
  obtain ⟨hcount, hpositive, hindex⟩ := get_groups records hget
  rw [← hsummary.documentCount] at hcount hpositive
  rw [← hsummary.project] at hcount hindex hcounted
  have hmatching := hsummary.matchingDocuments
  rw [← hsummary.project] at hmatching
  have hdescribed : (match summary.index with
      | none => summary.description.isEmpty && !summary.descriptionTruncated
      | some d => d.project == some summary.project && d.documentType == .index) = true := by
    rw [hsummary.index]
    cases hrecord : group.2.2 with
    | none =>
        obtain ⟨hempty, hwhole⟩ := hsummary.unindexed hrecord
        simp [hempty, hwhole]
    | some record =>
        obtain ⟨hproject, htype⟩ := hindex record hrecord
        simp [documentSummary, hproject, htype]
  have hmatched := hcollected.matched
  have hhits := hsummary.hits
  simp only [validProject, Bool.and_eq_true, decide_eq_true_eq]
  cases hsearch : listing.searchIn with
  | project =>
      rw [hsearch] at hmatched
      have hnone : listing.hitOptions = none := by
        by_contra hsome
        have := hcollected.hits (Option.isSome_iff_ne_none.2 hsome)
        simp [hsearch] at this
      rw [hmatched] at hmatching
      rw [hnone] at hhits ⊢
      refine ⟨⟨⟨⟨⟨?_, hpositive⟩, hsummary.description⟩, ?_⟩, ?_⟩, hdescribed⟩
      · simp [validHits, hhits]
      · rw [hmatching]
        rfl
      · rw [hmatching]
        rfl
  | documents =>
      rw [hsearch] at hmatched
      obtain ⟨ranked, rfl, hnodup, hranked⟩ := hmatched
      have hle := length_inProject_le summary.project hnodup
        fun record hrecord => hcollected.records.mem_iff.2 (hranked record hrecord)
      have hisSome := hcounted hsearch
      rw [get_counts] at hmatching hisSome
      rw [if_neg fun hzero => by simp [hzero] at hisSome] at hmatching
      have hsome : 0 < (inProject summary.project ranked).length :=
        Nat.pos_of_ne_zero fun hzero => by simp [hzero] at hisSome
      refine ⟨⟨⟨⟨⟨?_, hpositive⟩, hsummary.description⟩, ?_⟩, ?_⟩, hdescribed⟩
      · cases hoptions : listing.hitOptions with
        | none =>
            rw [hoptions] at hhits
            simp [validHits, hhits]
        | some options =>
            rw [hoptions] at hhits
            obtain ⟨hits, hhits, htruncated, hdocuments, hexcerpts⟩ := hhits
            rw [Option.map_some, get_topHits, ← hsummary.project] at hdocuments
            exact validHits_of_ranked hnodup hranked (by simp [hmatching]) hhits htruncated
              hdocuments hexcerpts
      · rw [hmatching]
        rfl
      · simp only [hmatching, Option.all_some, decide_eq_true_eq]
        exact ⟨hsome, by omega⟩

/-- The gateway's order is the one the client looks for. -/
theorem inOrder_of_precedes {left right : ProjectSummary}
    (hleft : left.matchingDocuments = found.counts.get left.project)
    (hright : right.matchingDocuments = found.counts.get right.project)
    (hcounted : listing.searchIn = .documents →
      left.matchingDocuments.isSome ∧ right.matchingDocuments.isSome)
    (h : Precedes listing.searchIn found.counts left.project right.project) :
    inOrder (listing.searchIn == .documents) left right := by
  cases hsearch : listing.searchIn with
  | project =>
      rw [hsearch] at h
      simpa [inOrder, Precedes] using h
  | documents =>
      rw [hsearch] at h
      obtain ⟨hleft', hright'⟩ := hcounted hsearch
      obtain ⟨m, hm⟩ := Option.isSome_iff_exists.1 hleft'
      obtain ⟨n, hn⟩ := Option.isSome_iff_exists.1 hright'
      rw [hm] at hleft
      rw [hn] at hright
      simpa [inOrder, hm, hn, countBelow, Precedes, ← hleft, ← hright] using h

end Projects

/-- A page that comes from the listing of a pinned snapshot. -/
theorem listProjects_valid {snapshot : CommittedSnapshot} {listing : ProjectListing}
    {inspection : Inspection} (hwithin : WithinIndex services snapshot)
    (hhits : listing.hitOptions.isSome → listing.searchIn = .documents)
    (h : services.listProjects x snapshot listing = .ok inspection) :
    ∃ projects truncated, inspection = .projects snapshot.commit projects truncated ∧
      validProjects (listing.searchIn == .documents) listing.includeArchived listing.hitOptions
        listing.maximum listing.characters projects truncated := by
  unfold ReadServices.listProjects at h
  simp only [bind_eq_ok, mapError_eq_ok, pure_eq_ok, Except.ok.injEq, Prod.exists] at h
  obtain ⟨records, hrecords, found, hfound, projects, truncated, hprojects, rfl⟩ := h
  have hcollected : Collected snapshot listing records found :=
    ⟨list_perm hrecords hwithin.length_le, countMatches_spec hfound, hhits⟩
  obtain ⟨hlength, htruncated, more, hmore, hsub, hall⟩ :=
    collectProjects_spec (Nat.zero_le _) hprojects
  rw [List.nil_append] at hmore
  subst hmore
  have hpairwise := orderGroups_pairwise.sublist hsub
  refine ⟨projects, truncated, rfl, ?_⟩
  simp only [validProjects, Bool.and_eq_true, decide_eq_true_eq, List.all_eq_true]
  refine ⟨⟨⟨⟨hlength, ?_⟩, fun summary hsummary => ?_⟩, hpairwise.imp Precedes.ne⟩, ?_⟩
  · cases truncated with
    | false => rfl
    | true => simpa using htruncated rfl
  · obtain ⟨group, hgroup, hsummarizes⟩ := hall summary hsummary
    exact validProject_of_group hcollected hgroup hsummarizes
  · refine ((List.pairwise_map.1 hpairwise).imp_of_mem ?_).isChain
    intro left right hleft hright hprecedes
    obtain ⟨group, hgroup, hsummary⟩ := hall left hleft
    obtain ⟨group', hgroup', hsummary'⟩ := hall right hright
    refine inOrder_of_precedes (by rw [hsummary.matchingDocuments, hsummary.project])
      (by rw [hsummary'.matchingDocuments, hsummary'.project]) (fun hsearch => ?_) hprecedes
    rw [hsummary.matchingDocuments, hsummary'.matchingDocuments]
    exact ⟨(mem_orderGroups hgroup).2 hsearch, (mem_orderGroups hgroup').2 hsearch⟩

theorem inspectProjects_valid {listing : ProjectListing} {inspection : Inspection}
    (hhits : listing.hitOptions.isSome → listing.searchIn = .documents)
    (h : services.inspectProjects x listing = .ok inspection) :
    ∃ commit projects truncated, inspection = .projects commit projects truncated ∧
      validProjects (listing.searchIn == .documents) listing.includeArchived listing.hitOptions
        listing.maximum listing.characters projects truncated := by
  unfold ReadServices.inspectProjects at h
  simp only [bind_eq_ok, exists_unit] at h
  obtain ⟨-, snapshot, hsnapshot, h⟩ := h
  exact ⟨snapshot.commit, listProjects_valid (snapshot_withinIndex hsnapshot) hhits h⟩

theorem searchExcerpts_valid {query : String} {filter : ReadFilterRequest}
    {maximum characters : Nat} {inspection : Inspection}
    (h : services.searchExcerpts x query filter maximum characters = .ok inspection) :
    ∃ commit hits, inspection = .searchExcerpts commit hits ∧
      validExcerpts filter maximum characters hits := by
  unfold ReadServices.searchExcerpts at h
  simp only [bind_eq_ok, exists_unit, pure_eq_ok, Except.ok.injEq, Prod.exists] at h
  obtain ⟨-, -, -, snapshot, -, -, records, hranked, hits, bytes, hread, rfl⟩ := h
  obtain ⟨hlength, -, hselected⟩ := ranked_spec hranked
  obtain ⟨hdocuments, hexcerpts⟩ := readHits_spec hread
  refine ⟨snapshot.commit, hits, rfl, ?_⟩
  simp only [validExcerpts, Bool.and_eq_true, decide_eq_true_eq, List.all_eq_true]
  refine ⟨?_, fun hit hhit => ⟨?_, hexcerpts hit hhit⟩⟩
  · rw [← List.length_map (f := SearchHit.document), hdocuments, List.length_map]
    exact hlength
  · have hmem : hit.document ∈ hits.map SearchHit.document := List.mem_map_of_mem hhit
    rw [hdocuments] at hmem
    obtain ⟨record, hrecord, hsummary⟩ := List.mem_map.1 hmem
    have hmatches := (mem_selected.1 (hselected record hrecord)).2
    simp only [ReadFilter.matchesDocument, repositoryFilter, Bool.and_eq_true] at hmatches
    rw [← hsummary]
    exact ⟨hmatches.1.1.1.2, hmatches.1.1.2⟩

theorem inspectContext_valid {project : ProjectId} {query : Option String}
    {maximum characters : Nat} {recentDocuments : Option Nat} {inspection : Inspection}
    (h : services.inspectContext x
      ⟨{ project := some project }, query, maximum, characters, recentDocuments⟩ =
        .ok inspection) :
    ∃ commit documents additional truncated,
      inspection = .context commit documents additional truncated ∧
        validContext recentDocuments.isSome project maximum characters documents additional := by
  unfold ReadServices.inspectContext at h
  simp only [bind_eq_ok, exists_unit] at h
  obtain ⟨-, hmaximum, -, snapshot, -, h⟩ := h
  have hpositive := (bounded_eq_ok.1 hmaximum).1
  have hproject : ∀ record ∈ snapshot.selected (repositoryFilter { project := some project }),
      (documentSummary record).project = some project := by
    intro record hrecord
    have hmatches := (mem_selected.1 hrecord).2
    simp only [ReadFilter.matchesDocument, repositoryFilter, Bool.and_eq_true] at hmatches
    simpa [documentSummary] using hmatches.1.1.1.2
  obtain ⟨state, hkeeps, rfl⟩ :=
    context_spec (fun summary => summary.project = some project) hproject h
  refine ⟨_, _, _, _, rfl, ?_⟩
  have hcharacters := hkeeps.characters_le
  simp only [validContext, Bool.and_eq_true, decide_eq_true_eq, List.all_eq_true, beq_iff_eq]
  refine ⟨⟨⟨⟨⟨hkeeps.documents_le, hkeeps.additional_le⟩, ?_⟩, ?_⟩, hkeeps.documents⟩,
    hkeeps.additional⟩
  · exact (Nat.le_add_right _ _).trans hcharacters
  · cases hrecent : recentDocuments with
    | none => rfl
    | some count =>
        simpa [hpositive, hrecent] using hkeeps.balanced

theorem inspectHistory_valid {id : DocumentId} {anchor cursor : Option String} {maximum : Nat}
    {inspection : Inspection}
    (h : services.inspectHistory x id anchor cursor maximum = .ok inspection) :
    ∃ page : HistoryPage, inspection = .history page ∧
      (∀ commit ∈ anchor, commit = page.anchorCommit) ∧ page.entries.length ≤ maximum ∧
      ∀ entry ∈ page.entries, entry.document.metadata.documentId = id := by
  unfold ReadServices.inspectHistory at h
  simp only [bind_eq_ok, exists_unit, pure_eq_ok, Except.ok.injEq] at h
  obtain ⟨hmaximum, reader, hreader, -, page, hpage, rfl⟩ := h
  obtain ⟨hanchor, hlength, hentries⟩ := history_spec (bounded_eq_ok.1 hmaximum).1 hpage
  refine ⟨page, rfl, fun commit hcommit => ?_, hlength, hentries⟩
  obtain rfl := Option.mem_def.1 hcommit
  unfold ReadServices.anchoredReader at hreader
  simp only [HistoryReader.restrictTo, bind_eq_ok, exists_unit, mapError_eq_ok, pure_eq_ok,
    Except.ok.injEq] at hreader
  obtain ⟨pinned, -, -, rfl⟩ := hreader
  exact hanchor.symm

theorem versions_documentId {id : DocumentId} {fromCommit toCommit : String}
    {before after : DocumentSummary × List Char}
    (h : services.versions x id fromCommit toCommit = .ok (before, after)) :
    before.1.metadata.documentId = id ∧ after.1.metadata.documentId = id := by
  unfold ReadServices.versions at h
  simp only [bind_eq_ok, pure_eq_ok, Except.ok.injEq, Prod.mk.injEq, Prod.exists] at h
  obtain ⟨reader, -, next, old, hold, last, new, hnew, oldBody, -, newBody, -, rfl, rfl⟩ := h
  exact ⟨(historical_spec hold).2.1, (historical_spec hnew).2.1⟩

theorem historical_valid {reader reader' : HistoryReader} {commit : String} {id : DocumentId}
    {document : DocumentContent} (hreader : services.historyReader = .ok reader)
    (h : reader.historical x commit id = .ok (reader', document)) : validContent x id document := by
  obtain ⟨-, hid, hrevision, hmetadata⟩ := historical_spec h
  unfold ReadServices.historyReader CommittedStore.historyReader at hreader
  simp only [mapError_eq_ok, bind_eq_ok, pure_eq_ok, Except.ok.injEq] at hreader
  obtain ⟨anchor, -, rfl⟩ := hreader
  -- both sides allow 64 KiB of front matter
  have hdecoded : decodeDocumentMetadata x document.markdown
      PackagePolicy.default.limits.maximumFrontMatterBytes = .ok document.summary.metadata :=
    hmetadata
  simp [validContent, hid, hrevision, hdecoded]

theorem validHunks_of_presentable {maximumHunks maximumBytes : Nat} {body : BodyHunks}
    (h : Diff.Presentable maximumHunks maximumBytes body) :
    validHunks maximumHunks maximumBytes body := by
  simp only [validHunks, Bool.and_eq_true, decide_eq_true_eq, beq_iff_eq, List.all_eq_true]
  refine ⟨⟨⟨⟨⟨h.hunks_le, h.reason⟩, ?_⟩, ?_⟩, h.lines⟩, h.size_le⟩
  · cases hchanged : body.changed with
    | true => rfl
    | false => simp [h.unchanged hchanged]
  · cases hchanged : body.changed with
    | false => rfl
    | true =>
        rcases h.changed hchanged with hsome | htruncated
        · simp [hsome]
        · simp [htruncated]

/-- Every inspection the gateway answers is accepted by the client. -/
theorem inspect_accepted {request : InspectRequest} {response : InspectResponse}
    (h : services.inspectUntil x request = .ok response) :
    validate x request response = .ok () := by
  suffices hvalid : valid x request.query response.result by simp [validate, hvalid]
  unfold ReadServices.inspectUntil ReadServices.prepareResponse at h
  simp only [bind_eq_ok, exists_unit, pure_eq_ok, Except.ok.injEq] at h
  obtain ⟨-, result, hresult, -, rfl⟩ := h
  change valid x request.query result
  cases hquery : request.query with
  | projects query searchIn maximum characters archived =>
      rw [hquery] at hresult
      obtain ⟨commit, projects, truncated, rfl, hvalid⟩ :=
        inspectProjects_valid (by simp) hresult
      exact hvalid
  | projectsWithHits query maximum characters archived hits excerptCharacters =>
      rw [hquery, ReadServices.inspectQuery] at hresult
      simp only [bind_eq_ok, exists_unit] at hresult
      obtain ⟨commit, projects, truncated, rfl, hvalid⟩ :=
        inspectProjects_valid (by simp) hresult.2.2
      exact hvalid
  | searchExcerpts query filter maximum characters =>
      rw [hquery] at hresult
      obtain ⟨commit, hits, rfl, hvalid⟩ := searchExcerpts_valid hresult
      exact hvalid
  | context project query maximum characters =>
      rw [hquery] at hresult
      obtain ⟨commit, documents, additional, truncated, rfl, hvalid⟩ := inspectContext_valid hresult
      exact hvalid
  | contextBalanced project query maximum characters recent =>
      rw [hquery] at hresult
      obtain ⟨commit, documents, additional, truncated, rfl, hvalid⟩ := inspectContext_valid hresult
      exact hvalid
  | history id anchor cursor maximum =>
      rw [hquery] at hresult
      obtain ⟨page, rfl, hanchor, hlength, hentries⟩ := inspectHistory_valid hresult
      simp only [valid, Bool.and_eq_true, decide_eq_true_eq, List.all_eq_true, beq_iff_eq]
      exact ⟨⟨by simpa [Option.all_eq_true] using hanchor, hlength⟩, hentries⟩
  | getAt id commit =>
      rw [hquery, ReadServices.inspectQuery] at hresult
      simp only [bind_eq_ok, pure_eq_ok, Except.ok.injEq, Prod.exists] at hresult
      obtain ⟨reader, hreader, next, document, hdocument, rfl⟩ := hresult
      simp [valid, historical_valid hreader hdocument]
  | diff id fromCommit toCommit =>
      rw [hquery, ReadServices.inspectQuery] at hresult
      simp only [bind_eq_ok, pure_eq_ok, Except.ok.injEq, Prod.exists] at hresult
      obtain ⟨before, oldBody, after, newBody, hversions, rfl⟩ := hresult
      obtain ⟨hbefore, hafter⟩ := versions_documentId hversions
      simp_all [valid]
  | diffHunks id fromCommit toCommit contextLines maximumHunks maximumBytes =>
      rw [hquery, ReadServices.inspectQuery] at hresult
      simp only [bind_eq_ok, exists_unit, rejectIf_eq_ok, pure_eq_ok, Except.ok.injEq,
        Prod.exists, not_or, Nat.not_lt] at hresult
      obtain ⟨hlimits, -, before, oldBody, after, newBody, hversions, rfl⟩ := hresult
      obtain ⟨hbefore, hafter⟩ := versions_documentId hversions
      have hhunks := validHunks_of_presentable
        (Diff.hunks_presentable oldBody newBody contextLines maximumHunks hlimits.2.1)
      simp_all [valid]

end Accepted

end Client

namespace Sample

/-- A search that finds at most one document and has no excerpts. -/
def firstSelected : SearchBackend where
  openIndex _ := .ok ()
  rank snapshot _ filter _ := .ok ((snapshot.selected filter).take 1)
  excerpts _ _ _ _ := .ok []
  rank_distinct := by
    rintro snapshot query filter maximum records ⟨⟩
    cases snapshot.selected filter <;> simp
  rank_selected := by
    rintro snapshot query filter maximum records ⟨⟩ record hrecord
    exact mem_selected.1 (List.mem_of_mem_take hrecord)
  excerpts_bounded := by
    rintro record body query maximum excerpts' ⟨⟩ excerpt hexcerpt
    simp at hexcerpt

def services : ReadServices where
  settings := ⟨10, 100, 1000, 100, 1000, 10000⟩
  store := ⟨"c", "c", tree ["a.png"], tree ["a.png"]⟩
  git := objects
  backend := firstSelected
  normalize := id
  encodedLength _ := 500

/-- A search for the decision. -/
def searchRequest : InspectRequest := ⟨1, .searchExcerpts "D" {} 5 80⟩

theorem inspect_accepted_sample :
    ∃ response, services.inspectUntil (externals moveAndAttach) searchRequest = .ok response ∧
      Client.validate (externals moveAndAttach) searchRequest response = .ok () := by
  obtain ⟨response, hresponse⟩ : ∃ response,
      services.inspectUntil (externals moveAndAttach) searchRequest = .ok response :=
    exists_eq_ok_of_isOk (by decide +kernel)
  exact ⟨response, hresponse, Client.inspect_accepted hresponse⟩

end Sample

end AgentKnowledge
