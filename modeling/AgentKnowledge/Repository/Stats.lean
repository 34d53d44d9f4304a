import AgentKnowledge.Repository.History
import AgentKnowledge.Repository.Journal
import Mathlib

/-!
Counting the files of a batch (`staged_stats` in `crates/repository/src/git.rs`).

Git lists which paths a batch added, modified and deleted; renames show up as a
deletion and an addition. `stagedStats` pairs them again by means of the moves the
batch made, and refuses a deletion that is no move. It looks at the moves through
one map from first to last directory (`reduceMoves`). Because the bundles of
different documents are disjoint, this map sends a file where the moves, replayed
one by one, send it (`movedFileDestination_eq`). Hence a batch of applied requests
is never refused, and its counts are those of the files (`stagedStats_of_applied`).
-/

namespace AgentKnowledge

open Results

/-- The letters of `git diff --name-status --no-renames`. -/
inductive DiffStatus where
  | added
  | modified
  | deleted
  | other
deriving DecidableEq, Repr

inductive StatsError where
  | invalidGitOutput
  | physicalDeletion
deriving DecidableEq, Repr

/-- A hash map of paths. -/
abbrev PathMap := AList fun _ : RelPath => RelPath

/-- One move: the directory it starts from keeps its first origin. -/
def reduceMove (origins : PathMap) (appliedMove : AppliedMove) : Except StatsError PathMap := do
  let origin := (origins.lookup appliedMove.source).getD appliedMove.source
  let rest := origins.erase appliedMove.source
  rejectIf (appliedMove.destination ∈ rest) .invalidGitOutput
  pure (rest.insert appliedMove.destination origin)

/-- Turn one entry of the map around. -/
def invertEntry (finalMoves : PathMap) (entry : Sigma fun _ : RelPath => RelPath) :
    Except StatsError PathMap := do
  rejectIf (entry.2 ∈ finalMoves) .invalidGitOutput
  pure (finalMoves.insert entry.2 entry.1)

/-- Collapse the moves of a batch to one map from first to last directory. -/
def reduceMoves (moves : List AppliedMove) : Except StatsError PathMap := do
  let origins ← moves.foldlM reduceMove ∅
  origins.entries.foldlM invertEntry ∅

/-- The destination of a file: that of its nearest moved ancestor. -/
def movedFileDestination (source : RelPath) (finalMoves : PathMap) : Option RelPath :=
  source.inits.reverse.findSome? fun candidate =>
    (finalMoves.lookup candidate).map fun destination =>
      destination ++ source.drop candidate.length

local instance pathLawfulBEq : LawfulBEq (List String) := inferInstance

/-- The sets and counters of `staged_stats`. -/
structure DiffScan where
  added : List RelPath := []
  deleted : List RelPath := []
  modified : Nat := 0

def scanStatus (scan : DiffScan) (entry : DiffStatus × RelPath) : Except StatsError DiffScan := do
  rejectIf (entry.2 = []) .invalidGitOutput
  match entry.1 with
  | .added =>
      if entry.2 ∈ scan.added then .error .invalidGitOutput
      else .ok { scan with added := scan.added ++ [entry.2] }
  | .modified => .ok { scan with modified := scan.modified + 1 }
  | .deleted => .ok { scan with deleted := scan.deleted ++ [entry.2] }
  | .other => .error .invalidGitOutput

/-- A deleted path must be the source of a move whose destination was added. -/
def settleDeleted (finalMoves : PathMap) (scan : DiffScan) (source : RelPath) :
    Except StatsError DiffScan := do
  let destination ← ofOption (movedFileDestination source finalMoves) .physicalDeletion
  rejectIf (destination = source ∨ destination ∉ scan.added) .physicalDeletion
  pure { scan with
    added := scan.added.erase destination
    modified := scan.modified + 1 }

/-- Count the files of a batch from the name-status list of Git. -/
def stagedStats (entries : List (DiffStatus × RelPath)) (moves : List AppliedMove) :
    Except StatsError FileStats := do
  let finalMoves ← reduceMoves moves
  let scan ← entries.foldlM scanStatus {}
  let settled ← scan.deleted.foldlM (settleDeleted finalMoves) scan
  pure ⟨settled.added.length, settled.modified, 0⟩

/-- Where the moves of a batch, made one after the other, take a path. -/
def replayMoves (moves : List AppliedMove) (path : RelPath) : RelPath :=
  moves.foldl (fun p appliedMove =>
    FileTree.movePath appliedMove.source appliedMove.destination p) path

/-! ### Documents that move -/

/-- The directory is a bundle of the document. -/
def IsBundle (documentId : DocumentId) (path : RelPath) : Prop :=
  ∃ location created, path = bundleOf location created documentId

theorem IsBundle.inBundle {documentId : DocumentId} {directory path : RelPath}
    (h : IsBundle documentId directory) (hpath : directory <+: path) : InBundle documentId path := by
  obtain ⟨location, created, rfl⟩ := h
  exact ⟨location, created, hpath⟩

theorem IsBundle.unique {d d' : DocumentId} {path : RelPath} (h : IsBundle d path)
    (h' : IsBundle d' path) : d = d' :=
  (h.inBundle (List.prefix_refl path)).unique (h'.inBundle (List.prefix_refl path))

/-- Two bundles on one path are the same. -/
theorem IsBundle.eq_of_above {d d' : DocumentId} {a b path : RelPath} (ha : IsBundle d a)
    (hb : IsBundle d' b) (hpa : a <+: path) (hpb : b <+: path) : a = b := by
  obtain ⟨location, created, rfl⟩ := ha
  obtain ⟨location', created', rfl⟩ := hb
  exact bundleOf_eq_of_above hpa hpb

/-- The bundles of the documents, as far as there are any. -/
abbrev Locations := DocumentId → Option RelPath

/-- Documents are placed in bundles and moved between them. The moves are listed in
order; a placement leaves no trace in the list. -/
inductive Moved : Locations → List AppliedMove → Locations → Prop
  | nil (locations : Locations) : Moved locations [] locations
  | place {locations final : Locations} {moves : List AppliedMove} {documentId : DocumentId}
      {path : RelPath} (absent : locations documentId = none) (bundle : IsBundle documentId path)
      (rest : Moved (Function.update locations documentId (some path)) moves final) :
      Moved locations moves final
  | move {locations final : Locations} {moves : List AppliedMove} {documentId : DocumentId}
      {source destination : RelPath} (found : locations documentId = some source)
      (bundle : IsBundle documentId destination)
      (rest : Moved (Function.update locations documentId (some destination)) moves final) :
      Moved locations (⟨source, destination⟩ :: moves) final

theorem Moved.append {first second third : Locations} {moves more : List AppliedMove}
    (h : Moved first moves second) (h' : Moved second more third) :
    Moved first (moves ++ more) third := by
  induction h with
  | nil => exact h'
  | place absent bundle _ ih => exact .place absent bundle (ih h')
  | move found bundle _ ih => exact .move found bundle (ih h')

/-! ### Collapsing the moves -/

/-- What the map of origins says after some moves: it lists the documents that moved,
each with where it is and where it was first. -/
structure Reduced (start locations : Locations) (origins : PathMap) : Prop where
  bundle : ∀ d path, locations d = some path → IsBundle d path
  first : ∀ d path, start d = some path → IsBundle d path
  absent : ∀ d, locations d = none → start d = none
  entry : ∀ destination origin, origins.lookup destination = some origin →
    ∃ d, locations d = some destination ∧ start d = some origin
  known : ∀ d path, locations d = some path → ∃ origin, start d = some origin ∧
    (origins.lookup path = some origin ∨ path = origin ∧ origins.lookup path = none)

theorem Reduced.initial {locations : Locations}
    (hbundle : ∀ d path, locations d = some path → IsBundle d path) :
    Reduced locations locations ∅ := by
  refine ⟨hbundle, hbundle, fun _ h => h, ?_, fun d path h => ⟨path, h, .inr ⟨rfl, rfl⟩⟩⟩
  intro destination origin h
  cases h

theorem Reduced.place {start locations : Locations} {origins : PathMap} {d : DocumentId}
    {path : RelPath} (h : Reduced start locations origins) (habsent : locations d = none)
    (hbundle : IsBundle d path) :
    Reduced (Function.update start d (some path)) (Function.update locations d (some path))
      origins := by
  have hother : ∀ destination origin, origins.lookup destination = some origin →
      ∃ e ≠ d, locations e = some destination ∧ start e = some origin := by
    intro destination origin hlookup
    obtain ⟨e, he, hstart⟩ := h.entry destination origin hlookup
    refine ⟨e, ?_, he, hstart⟩
    rintro rfl
    rw [habsent] at he
    cases he
  constructor
  · intro e q hq
    by_cases he : e = d
    · subst he
      rw [Function.update_self] at hq
      cases hq
      exact hbundle
    · rw [Function.update_of_ne he] at hq
      exact h.bundle e q hq
  · intro e q hq
    by_cases he : e = d
    · subst he
      rw [Function.update_self] at hq
      cases hq
      exact hbundle
    · rw [Function.update_of_ne he] at hq
      exact h.first e q hq
  · intro e he
    by_cases hd : e = d
    · subst hd
      rw [Function.update_self] at he
      cases he
    · rw [Function.update_of_ne hd] at he ⊢
      exact h.absent e he
  · intro destination origin hlookup
    obtain ⟨e, he, hlocation, hstart⟩ := hother destination origin hlookup
    exact ⟨e, by rw [Function.update_of_ne he, hlocation],
      by rw [Function.update_of_ne he, hstart]⟩
  · intro e q hq
    by_cases he : e = d
    · subst he
      rw [Function.update_self] at hq
      cases hq
      refine ⟨path, by rw [Function.update_self], .inr ⟨rfl, ?_⟩⟩
      by_contra hsome
      obtain ⟨origin, horigin⟩ := Option.ne_none_iff_exists'.1 hsome
      obtain ⟨f, hf, hlocation, -⟩ := hother path origin horigin
      exact hf ((h.bundle f path hlocation).unique hbundle)
    · rw [Function.update_of_ne he] at hq ⊢
      exact h.known e q hq

theorem Reduced.move {start locations : Locations} {origins : PathMap} {d : DocumentId}
    {source destination : RelPath} (h : Reduced start locations origins)
    (hfound : locations d = some source) (hbundle : IsBundle d destination) :
    ∃ origins', reduceMove origins ⟨source, destination⟩ = .ok origins' ∧
      Reduced start (Function.update locations d (some destination)) origins' := by
  obtain ⟨origin, hstart, hcase⟩ := h.known d source hfound
  have horigin : (origins.lookup source).getD source = origin := by
    rcases hcase with hlookup | ⟨rfl, hlookup⟩
    · rw [hlookup]
      rfl
    · rw [hlookup]
      rfl
  -- A document in the way would be the moved one.
  have hfree : ∀ o, origins.lookup destination = some o → destination = source := by
    intro o ho
    obtain ⟨e, he, -⟩ := h.entry destination o ho
    cases (h.bundle e destination he).unique hbundle
    rw [hfound] at he
    exact (Option.some.inj he).symm
  have hlookup : ∀ path, ((origins.erase source).insert destination origin).lookup path =
      if path = destination then some origin else if path = source then none
        else origins.lookup path := by
    intro path
    by_cases hd : path = destination
    · subst hd
      rw [AList.lookup_insert, if_pos rfl]
    · rw [AList.lookup_insert_ne hd, if_neg hd]
      by_cases hs : path = source
      · subst hs
        rw [AList.lookup_erase, if_pos rfl]
      · rw [AList.lookup_erase_ne hs, if_neg hs]
  refine ⟨(origins.erase source).insert destination origin, ?_, ?_⟩
  · have hnot : destination ∉ origins.erase source := by
      rw [← AList.lookup_eq_none]
      by_cases hs : destination = source
      · rw [hs, AList.lookup_erase]
      · rw [AList.lookup_erase_ne hs]
        by_contra hsome
        obtain ⟨o, ho⟩ := Option.ne_none_iff_exists'.1 hsome
        exact hs (hfree o ho)
    simp only [reduceMove, horigin, rejectIf, if_neg hnot]
    rfl
  · have hne : ∀ e path, e ≠ d → locations e = some path →
        path ≠ destination ∧ path ≠ source := by
      intro e path he hpath
      constructor
      · rintro rfl
        exact he ((h.bundle e path hpath).unique hbundle)
      · rintro rfl
        exact he ((h.bundle e path hpath).unique (h.bundle d path hfound))
    constructor
    · intro e path hpath
      by_cases he : e = d
      · subst he
        rw [Function.update_self] at hpath
        cases hpath
        exact hbundle
      · rw [Function.update_of_ne he] at hpath
        exact h.bundle e path hpath
    · exact h.first
    · intro e he
      by_cases hd : e = d
      · subst hd
        rw [Function.update_self] at he
        cases he
      · rw [Function.update_of_ne hd] at he
        exact h.absent e he
    · intro path o ho
      rw [hlookup] at ho
      by_cases hd : path = destination
      · rw [if_pos hd] at ho
        cases ho
        exact ⟨d, by rw [Function.update_self, hd], hstart⟩
      · rw [if_neg hd] at ho
        by_cases hs : path = source
        · rw [if_pos hs] at ho
          cases ho
        · rw [if_neg hs] at ho
          obtain ⟨e, he, hfirst⟩ := h.entry path o ho
          refine ⟨e, ?_, hfirst⟩
          rw [Function.update_of_ne, he]
          rintro rfl
          rw [hfound] at he
          exact hs (Option.some.inj he).symm
    · intro e path hpath
      by_cases he : e = d
      · subst he
        rw [Function.update_self] at hpath
        cases hpath
        exact ⟨origin, hstart, .inl (by rw [hlookup, if_pos rfl])⟩
      · rw [Function.update_of_ne he] at hpath
        obtain ⟨hd, hs⟩ := hne e path he hpath
        rw [hlookup, if_neg hd, if_neg hs]
        exact h.known e path hpath

/-- The run lemma. -/
theorem Moved.reduce {locations final : Locations} {moves : List AppliedMove}
    (h : Moved locations moves final) {start : Locations} {origins : PathMap}
    (hreduced : Reduced start locations origins) :
    ∃ start' origins', moves.foldlM reduceMove origins = .ok origins' ∧
      Reduced start' final origins' ∧ ∀ d path, start d = some path → start' d = some path := by
  induction h generalizing start origins with
  | nil => exact ⟨start, origins, rfl, hreduced, fun _ _ h => h⟩
  | place absent bundle _ ih =>
      rename_i d path _
      obtain ⟨start', origins', hfold, hlast, hkeep⟩ := ih (hreduced.place absent bundle)
      refine ⟨start', origins', hfold, hlast, fun e q hq => hkeep e q ?_⟩
      rw [Function.update_of_ne, hq]
      rintro rfl
      rw [hreduced.absent _ absent] at hq
      cases hq
  | move found bundle _ ih =>
      obtain ⟨middle, hmiddle, hnext⟩ := hreduced.move found bundle
      obtain ⟨start', origins', hfold, hlast, hkeep⟩ := ih hnext
      refine ⟨start', origins', ?_, hlast, hkeep⟩
      rw [List.foldlM_cons, hmiddle, ok_bind, hfold]

theorem invertEntries_eq_ok {entries : List (Sigma fun _ : RelPath => RelPath)}
    {finalMoves : PathMap} (hnodup : (entries.map fun entry => entry.2).Nodup)
    (hfresh : ∀ entry ∈ entries, entry.2 ∉ finalMoves) :
    ∃ result, entries.foldlM invertEntry finalMoves = .ok result ∧
      ∀ origin destination, result.lookup origin = some destination ↔
        ⟨destination, origin⟩ ∈ entries ∨ finalMoves.lookup origin = some destination := by
  induction entries generalizing finalMoves with
  | nil => exact ⟨finalMoves, rfl, by simp⟩
  | cons entry rest ih =>
      rw [List.map_cons, List.nodup_cons] at hnodup
      obtain ⟨hentry, hrest⟩ := List.forall_mem_cons.1 hfresh
      have hstep : invertEntry finalMoves entry = .ok (finalMoves.insert entry.2 entry.1) := by
        simp only [invertEntry, rejectIf, if_neg hentry]
        rfl
      have hfresh' : ∀ other ∈ rest, other.2 ∉ finalMoves.insert entry.2 entry.1 := by
        intro other hother
        rw [AList.mem_insert, not_or]
        refine ⟨fun heq => hnodup.1 ?_, hrest other hother⟩
        exact List.mem_map.2 ⟨other, hother, heq⟩
      obtain ⟨result, hfold, hlookup⟩ := ih hnodup.2 hfresh'
      refine ⟨result, by rw [List.foldlM_cons, hstep, ok_bind, hfold], ?_⟩
      intro origin destination
      rw [hlookup, List.mem_cons]
      by_cases horigin : origin = entry.2
      · subst horigin
        have hnone : finalMoves.lookup entry.2 = none := AList.lookup_eq_none.2 hentry
        rw [AList.lookup_insert, hnone]
        obtain ⟨a, b⟩ := entry
        simp only [Option.some.injEq, reduceCtorEq, or_false, Sigma.mk.injEq, heq_eq_eq, and_true]
        constructor
        · rintro (hmem | rfl)
          · exact .inr hmem
          · exact .inl rfl
        · rintro (rfl | hmem)
          · exact .inr rfl
          · exact .inl hmem
      · rw [AList.lookup_insert_ne horigin]
        obtain ⟨a, b⟩ := entry
        have hne : (⟨destination, origin⟩ : Sigma fun _ : RelPath => RelPath) ≠ ⟨a, b⟩ := by
          rintro ⟨⟩
          exact horigin rfl
        simp [hne]

/-- The collapsed map takes the first directory of a document to its last. -/
theorem reduceMoves_eq_ok {locations final : Locations} {moves : List AppliedMove}
    (h : Moved locations moves final)
    (hbundle : ∀ d path, locations d = some path → IsBundle d path) :
    ∃ finalMoves, reduceMoves moves = .ok finalMoves ∧
      (∀ d source destination, locations d = some source → final d = some destination →
        (finalMoves.lookup source).getD source = destination) ∧
      ∀ source destination, finalMoves.lookup source = some destination →
        ∃ d, IsBundle d source := by
  obtain ⟨start, origins, hfold, hreduced, hkeep⟩ := h.reduce (Reduced.initial hbundle)
  have hmem : ∀ destination origin, ⟨destination, origin⟩ ∈ origins.entries ↔
      origins.lookup destination = some origin :=
    fun destination origin => (AList.mem_lookup_iff).symm
  have hsame : ∀ destination destination' origin,
      origins.lookup destination = some origin → origins.lookup destination' = some origin →
        destination = destination' := by
    intro destination destination' origin hlookup hlookup'
    obtain ⟨d, hd, hstart⟩ := hreduced.entry destination origin hlookup
    obtain ⟨d', hd', hstart'⟩ := hreduced.entry destination' origin hlookup'
    cases (hreduced.first d origin hstart).unique (hreduced.first d' origin hstart')
    exact Option.some.inj (hd.symm.trans hd')
  have hnodup : (origins.entries.map fun entry => entry.2).Nodup := by
    refine List.Nodup.map_on ?_ (List.NodupKeys.nodup origins.nodupKeys)
    rintro ⟨a, o⟩ ha ⟨b, o'⟩ hb heq
    cases heq
    rw [hsame a b o ((hmem a o).1 ha) ((hmem b o).1 hb)]
  have hempty : ∀ entry ∈ origins.entries, entry.2 ∉ (∅ : PathMap) := by simp
  obtain ⟨finalMoves, hinvert, hlookup⟩ := invertEntries_eq_ok hnodup hempty
  refine ⟨finalMoves, by rw [reduceMoves, hfold, ok_bind, hinvert], ?_, ?_⟩
  · intro d source destination hsource hdestination
    obtain ⟨origin, hstart, hcase⟩ := hreduced.known d destination hdestination
    cases (hkeep d source hsource).symm.trans hstart
    rcases hcase with hentry | ⟨rfl, hnone⟩
    · rw [(hlookup source destination).2 (.inl ((hmem _ _).2 hentry))]
      rfl
    · cases hfinal : finalMoves.lookup destination with
      | none => rfl
      | some other =>
          rcases (hlookup destination other).1 hfinal with hother | hother
          · obtain ⟨e, he, hestart⟩ := hreduced.entry other destination ((hmem _ _).1 hother)
            cases (hreduced.first e destination hestart).unique
              (hreduced.first d destination hstart)
            exact (Option.some.inj (he.symm.trans hdestination))
          · cases hother
  · intro source destination hfinal
    rcases (hlookup source destination).1 hfinal with hentry | hentry
    · obtain ⟨d, -, hstart⟩ := hreduced.entry destination source ((hmem _ _).1 hentry)
      exact ⟨d, hreduced.first d source hstart⟩
    · cases hentry

/-- For a file below the first directory of a document, the nearest moved ancestor is
that directory. -/
theorem movedFileDestination_eq {finalMoves : PathMap} {d : DocumentId} {directory : RelPath}
    (rest : RelPath) (hbundle : IsBundle d directory)
    (hkeys : ∀ source destination, finalMoves.lookup source = some destination →
      ∃ d, IsBundle d source) :
    movedFileDestination (directory ++ rest) finalMoves =
      (finalMoves.lookup directory).map (· ++ rest) := by
  have hcandidate : ∀ candidate destination, candidate <+: directory ++ rest →
      finalMoves.lookup candidate = some destination → candidate = directory := by
    intro candidate destination hleading hlookup
    obtain ⟨e, he⟩ := hkeys candidate destination hlookup
    exact he.eq_of_above hbundle hleading (List.prefix_append _ _)
  unfold movedFileDestination
  cases hlookup : finalMoves.lookup directory with
  | none =>
      rw [Option.map_none, List.findSome?_eq_none_iff]
      intro candidate hmem
      rw [List.mem_reverse, List.mem_inits] at hmem
      cases hfound : finalMoves.lookup candidate with
      | none => rfl
      | some destination =>
          cases hcandidate candidate destination hmem hfound
          rw [hlookup] at hfound
          cases hfound
  | some destination =>
      cases hfind : (directory ++ rest).inits.reverse.findSome? fun candidate =>
          (finalMoves.lookup candidate).map fun destination =>
            destination ++ (directory ++ rest).drop candidate.length with
      | none =>
          have := List.findSome?_eq_none_iff.1 hfind directory
            (List.mem_reverse.2 ((List.mem_inits _ _).2 (List.prefix_append _ _)))
          rw [hlookup] at this
          cases this
      | some result =>
          obtain ⟨candidate, hmem, hresult⟩ := List.exists_of_findSome?_eq_some hfind
          rw [List.mem_reverse, List.mem_inits] at hmem
          obtain ⟨found, hfound, rfl⟩ := Option.map_eq_some_iff.1 hresult
          cases hcandidate candidate found hmem hfound
          rw [hlookup] at hfound
          cases hfound
          simp

/-! ### The moves of applied requests -/

/-- The bundles of the indexed documents. -/
def ContentIndex.locations (index : ContentIndex) : Locations := fun d =>
  (index.get d).bind fun record =>
    if record.location.documentType = .index then none else some record.relativePath.dropLast

namespace PlanInput

variable {input : PlanInput} {packagePolicy : PackagePolicy} {state state' : PlanState}
  {tree tree' : ContentTree} {index' : ContentIndex}

/-- The bundles of the documents the planner knows. -/
def locations (input : PlanInput) (state : PlanState) : Locations := fun d =>
  (input.document state d).bind fun document =>
    if document.documentType = .index then none else some document.directory

theorem isBundle_directory {document : VirtualDocument} {documentId : DocumentId}
    (hpath : document.relativePath =
      canonicalDocumentPath document.location document.created documentId)
    (hindex : document.documentType ≠ .index) : IsBundle documentId document.directory :=
  ⟨_, _, directory_eq_bundle hpath hindex⟩

theorem locations_progress {documentId : DocumentId} {document : VirtualDocument}
    {mutations : List PlannedMutation} (h : Progress state state' documentId document mutations) :
    input.locations state' = Function.update (input.locations state) documentId
      (if document.documentType = .index then none else some document.directory) := by
  funext d
  unfold locations
  rw [document_progress h]
  by_cases hd : d = documentId
  · subst hd
    rw [if_pos rfl, Function.update_self]
    rfl
  · rw [if_neg hd, Function.update_of_ne hd]

theorem locations_relocated {documentId : DocumentId} {document : VirtualDocument}
    {mutations : List PlannedMutation} (h : Progress state state' documentId document mutations)
    (hindex : document.documentType ≠ .index) :
    input.locations state' =
      Function.update (input.locations state) documentId (some document.directory) := by
  rw [locations_progress h, if_neg hindex]

/-- A step that leaves a document where it is leaves all locations. -/
theorem locations_eq_of_same {documentId : DocumentId} {document document' : VirtualDocument}
    {mutations : List PlannedMutation} (h : Progress state state' documentId document' mutations)
    (hfound : input.document state documentId = some document)
    (htype : document'.documentType = document.documentType)
    (hpath : document'.directory = document.directory) :
    input.locations state' = input.locations state := by
  rw [locations_progress h, htype, hpath, Function.update_eq_self_iff]
  unfold locations
  rw [hfound]
  rfl

theorem locations_of_found {documentId : DocumentId} {document : VirtualDocument}
    (hfound : input.document state documentId = some document)
    (hindex : document.documentType ≠ .index) :
    input.locations state documentId = some document.directory := by
  unfold locations
  rw [hfound, Option.bind_some, if_neg hindex]

/-- The step lemma: the moves an operation makes. -/
theorem moved_operation (hknown : input.Known state) {operation : Operation}
    (hstep : Step input state state' operation) :
    ∃ mutations, state'.plan = state.plan ++ mutations ∧
      Moved (input.locations state) (mutations.filterMap PlannedMutation.appliedMove)
        (input.locations state') := by
  cases hstep with
  | create absent payload decoded notArchived free progress occupied =>
      rename_i d content bytes metadata
      refine ⟨_, progress.plan, ?_⟩
      rw [locations_progress progress]
      have hnone : input.locations state d = none := by
        unfold locations
        rw [absent]
        rfl
      by_cases hindex : (input.createdDocument d metadata bytes).documentType = .index
      · rw [if_pos hindex, (Function.update_eq_self_iff).2 hnone.symm]
        exact .nil _
      · rw [if_neg hindex]
        exact .place hnone (isBundle_directory (createDocumentPath_eq _ _ _ _) hindex) (.nil _)
  | update found revision live classified notLog active payload decoded created notArchived
      hasUpdate increases progress occupied =>
      refine ⟨_, progress.plan, ?_⟩
      rw [locations_eq_of_same progress found rfl rfl]
      exact .nil _
  | move found revision live notLog notIndex active toLog toIndex moves free progress occupied =>
      refine ⟨_, progress.plan, .move (locations_of_found found notIndex)
        (isBundle_directory (movedDocument_path live) toIndex) ?_⟩
      rw [locations_relocated progress toIndex]
      exact .nil _
  | archive found revision live classified notLog notIndex active loaded rewritten decoded moves
      free progress occupied =>
      have hpath := archiveDocumentPath_eq notIndex (hknown.path _ _ found)
      refine ⟨_, progress.plan, .move (locations_of_found found notIndex)
        (isBundle_directory hpath notIndex) ?_⟩
      rw [locations_relocated progress notIndex]
      exact .nil _
  | attach found live classified active payload free progress occupied =>
      refine ⟨_, progress.plan, ?_⟩
      rw [locations_eq_of_same progress found rfl rfl]
      exact .nil _

/-- The run lemma. -/
theorem moved_operations {operations : List Operation} (hknown : input.Known state)
    (hplan : input.planOperations operations state = .ok state') :
    ∃ mutations, state'.plan = state.plan ++ mutations ∧
      Moved (input.locations state) (mutations.filterMap PlannedMutation.appliedMove)
        (input.locations state') := by
  induction operations generalizing state with
  | nil =>
      cases hplan
      exact ⟨[], by simp, .nil _⟩
  | cons operation rest ih =>
      obtain ⟨next, hnext, hrest⟩ := foldlM_cons_eq_ok.1 hplan
      have hstep := planOperation_step hnext
      obtain ⟨mutations, hmutations, hmoved⟩ := moved_operation hknown hstep
      obtain ⟨more, hmore, hlater⟩ := ih (hknown.step hstep) hrest
      refine ⟨mutations ++ more, by rw [hmore, hmutations, List.append_assoc], ?_⟩
      rw [List.filterMap_append]
      exact hmoved.append hlater

theorem replay_plan (plan : List PlannedMutation) (file : RelPath × ContentLeaf) :
    (FileTree.replayAll (edits plan) file).1 =
      replayMoves (plan.filterMap PlannedMutation.appliedMove) file.1 := by
  induction plan generalizing file with
  | nil => rfl
  | cons mutation rest ih =>
      have hcons : FileTree.replayAll (edits (mutation :: rest)) file =
          FileTree.replayAll (edits rest) (FileTree.replayAll [mutation.edit] file) := rfl
      rw [hcons, ih]
      cases mutation with
      | writeNew path bytes => rfl
      | replace path bytes =>
          exact congrArg (replayMoves (rest.filterMap PlannedMutation.appliedMove))
            (replay_rewrite_fst _ _ _)
      | move source destination => rfl

/-- Only the documents of the top-level and project indexes have no bundle. -/
theorem index_iff_not_inBundle {location : DocumentLocation} {created : OffsetDateTime}
    {documentId : DocumentId} :
    location.documentType = .index ↔
      ∀ d, ¬ InBundle d (canonicalDocumentPath location created documentId) := by
  rw [canonicalDocumentPath_eq]
  constructor
  · intro hindex d
    exact not_inBundle_index hindex not_undotted_index d
  · intro hnone
    by_contra hindex
    rw [documentDirectory_eq_bundle hindex] at hnone
    exact hnone documentId (inBundle_bundleOf _ _ _ _)

/-- The new index has the documents where the planner has them. -/
theorem Applied.locations_eq (h : input.Applied packagePolicy state tree' index') :
    input.locations state = index'.locations := by
  funext d
  unfold locations ContentIndex.locations
  cases hdocument : input.document state d with
  | none =>
      cases hrecord : index'.get d with
      | none => rfl
      | some record =>
          obtain ⟨document, hfound⟩ := h.document_of_record hrecord
          cases hdocument.symm.trans hfound
  | some document =>
      obtain ⟨record, leaf, hrecord, hrelative, -, hmarkdown, -⟩ := h.record hdocument
      obtain ⟨-, -, hpath, -⟩ := fromMarkdown_eq_ok_iff.1 hmarkdown
      have htype : document.documentType = .index ↔ record.location.documentType = .index := by
        have hold : document.location.documentType = .index ↔
            ∀ e, ¬ InBundle e document.relativePath := by
          rw [h.agrees.known.path d document hdocument]
          exact index_iff_not_inBundle
        have hnew : record.location.documentType = .index ↔
            ∀ e, ¬ InBundle e document.relativePath := by
          rw [hpath]
          exact index_iff_not_inBundle
        exact hold.trans hnew.symm
      simp only [hrecord, Option.bind_some, htype, hrelative]
      rfl

theorem locations_initial : input.locations {} = input.index.locations := by
  funext d
  unfold locations ContentIndex.locations
  rw [document_initial]
  cases input.index.get d <;> rfl

end PlanInput

/-! ### Following a batch -/

/-- What a batch did to the files: the moves take every file of the base along, and
with it goes the file's place beside its document. -/
structure Traced (base : ContentTree) (index : ContentIndex) (final : ContentTree)
    (index' : ContentIndex) (moves : List AppliedMove) : Prop where
  files : ∃ (follow : RelPath × ContentLeaf → RelPath × ContentLeaf)
    (created : List (RelPath × ContentLeaf)), final.files.Perm (base.files.map follow ++ created) ∧
      ∀ file ∈ base.files, (follow file).1 = replayMoves moves file.1
  bundled : ∀ d path leaf, base.node path = some (.file leaf) → InBundle d path →
    ∃ directory, index'.locations d = some directory ∧
      replayMoves moves path = directory ++ [fileName path]
  outside : ∀ path leaf, base.node path = some (.file leaf) → (∀ d, ¬ InBundle d path) →
    replayMoves moves path = path
  moved : Moved index.locations moves index'.locations

section Traced

variable {x : Externals} {policy : ContentPolicy} {packagePolicy : PackagePolicy}
  {base middle final : ContentTree} {index index₁ index' : ContentIndex}
  {moves more : List AppliedMove}

/-- A file in a bundle stands in the bundle the index gives its document. -/
theorem location_of_file (hindexed : ContentIndex.build x policy packagePolicy base = .ok index)
    {path : RelPath} {leaf : ContentLeaf} (hfile : base.node path = some (.file leaf))
    {d : DocumentId} (hbundle : InBundle d path) :
    ∃ directory, index.locations d = some directory ∧ path = directory ++ [fileName path] := by
  obtain ⟨record, hrecord, hindex, hpath⟩ := file_in_bundle hindexed hfile hbundle
  refine ⟨record.relativePath.dropLast, ?_, hpath⟩
  unfold ContentIndex.locations
  rw [hrecord, Option.bind_some, if_neg hindex]

theorem locations_isBundle (hindexed : ContentIndex.build x policy packagePolicy base = .ok index)
    {d : DocumentId} {path : RelPath} (h : index.locations d = some path) : IsBundle d path := by
  unfold ContentIndex.locations at h
  obtain ⟨record, hrecord, hpath⟩ := Option.bind_eq_some_iff.1 h
  split at hpath
  · cases hpath
  · rename_i hindex
    cases hpath
    obtain ⟨leaf, -, hmarkdown⟩ := file_of_get hindexed hrecord
    obtain ⟨-, -, hcanonical, -⟩ := fromMarkdown_eq_ok_iff.1 hmarkdown
    rw [((get_eq_some_iff hindexed).1 hrecord).2] at hcanonical
    refine ⟨record.location, record.metadata.created, ?_⟩
    rw [hcanonical, canonicalDocumentPath_eq, List.dropLast_concat,
      documentDirectory_eq_bundle hindex]

theorem Traced.refl (hindexed : ContentIndex.build x policy packagePolicy base = .ok index) :
    Traced base index base index [] := by
  refine ⟨⟨id, [], by simp, fun _ _ => rfl⟩, ?_, fun _ _ _ _ => rfl, .nil _⟩
  intro d path leaf hfile hbundle
  exact location_of_file hindexed hfile hbundle

theorem replayMoves_append (path : RelPath) :
    replayMoves (moves ++ more) path = replayMoves more (replayMoves moves path) :=
  List.foldl_append

theorem Traced.node (h : Traced base index final index' moves) {path : RelPath}
    {leaf : ContentLeaf} (hfile : base.node path = some (.file leaf)) :
    ∃ leaf', final.node (replayMoves moves path) = some (.file leaf') := by
  obtain ⟨follow, created, hperm, hfollow⟩ := h.files
  have hmem := FileTree.mem_files.2 hfile
  refine ⟨(follow (path, leaf)).2, ?_⟩
  rw [← hfollow _ hmem, ← FileTree.mem_files, hperm.mem_iff]
  exact List.mem_append_left _ (List.mem_map_of_mem hmem)

theorem Traced.trans (h : Traced base index middle index₁ moves)
    (h' : Traced middle index₁ final index' more)
    (hindexed' : ContentIndex.build x policy packagePolicy middle = .ok index₁) :
    Traced base index final index' (moves ++ more) := by
  constructor
  · obtain ⟨follow, created, hperm, hfollow⟩ := h.files
    obtain ⟨follow', created', hperm', hfollow'⟩ := h'.files
    refine ⟨follow' ∘ follow, created.map follow' ++ created', ?_, ?_⟩
    · rw [← List.map_map, ← List.append_assoc, ← List.map_append]
      exact hperm'.trans ((hperm.map follow').append_right created')
    · intro file hfile
      have hmiddle : follow file ∈ middle.files :=
        hperm.mem_iff.2 (List.mem_append_left _ (List.mem_map_of_mem hfile))
      rw [replayMoves_append, ← hfollow file hfile]
      exact hfollow' _ hmiddle
  · intro d path leaf hfile hbundle
    obtain ⟨directory, hdirectory, hpath⟩ := h.bundled d path leaf hfile hbundle
    obtain ⟨leaf', hfile'⟩ := h.node hfile
    have hin : InBundle d (replayMoves moves path) := by
      rw [hpath]
      exact (locations_isBundle hindexed' hdirectory).inBundle (List.prefix_append _ _)
    obtain ⟨directory', hdirectory', hpath'⟩ := h'.bundled d _ leaf' hfile' hin
    refine ⟨directory', hdirectory', ?_⟩
    rw [replayMoves_append, hpath', hpath, fileName_concat]
  · intro path leaf hfile hnone
    have hsame := h.outside path leaf hfile hnone
    obtain ⟨leaf', hfile'⟩ := h.node hfile
    rw [hsame] at hfile'
    rw [replayMoves_append, hsame, h'.outside path leaf' hfile' hnone]
  · exact h.moved.append h'.moved

/-- One request. -/
theorem PlanInput.Applied.traced {input : PlanInput} {state : PlanState}
    (h : input.Applied packagePolicy state final index') :
    Traced input.tree input.index final index'
      (state.plan.filterMap PlannedMutation.appliedMove) := by
  constructor
  · exact ⟨_, _, h.files, fun file _ => PlanInput.replay_plan state.plan file⟩
  · intro d path leaf hfile hbundle
    obtain ⟨record, hrecord, hindex, hpath⟩ := file_in_bundle h.valid.indexed hfile hbundle
    obtain ⟨document, hdocument, hkept⟩ := h.initial_document hrecord
    have hcanonical := h.agrees.known.path d document hdocument
    have hindex' : document.documentType ≠ .index := fun e => hindex (hkept.index.1 e)
    refine ⟨document.directory, ?_, ?_⟩
    · rw [← h.locations_eq]
      exact PlanInput.locations_of_found hdocument hindex'
    · rw [← PlanInput.replay_plan state.plan (path, leaf)]
      by_cases hname : fileName path = "index.md"
      · have hown : path = (PlanInput.recordDocument record).relativePath := by
          rw [hpath, hname, ← relativePath_of_get h.valid.indexed hrecord]
          rfl
        rw [hname, ← PlanInput.relativePath_eq_of_canonical hcanonical, hown]
        exact hkept.own leaf
      · have hbeside := hkept.beside hindex [fileName path] leaf (by simpa using hname)
        rw [show (PlanInput.recordDocument record).directory ++ [fileName path] = path from
          hpath.symm] at hbeside
        rw [hbeside]
  · intro path leaf hfile hnone
    rw [← PlanInput.replay_plan state.plan (path, leaf)]
    by_cases hmd : isMarkdown path
    · obtain ⟨d, record, hrecord, rfl⟩ := get_of_markdown h.valid.indexed hfile hmd
      obtain ⟨document, hdocument, hkept⟩ := h.initial_document hrecord
      have hplaced := PlanInput.placed_record h.valid hrecord
      have hindex : (PlanInput.recordDocument record).location.documentType = .index := by
        rw [PlanInput.index_iff_not_inBundle, ← hplaced.path]
        exact hnone
      exact (hkept.own leaf).trans (hkept.fixed hindex)
    · have hname : fileName path ≠ "index.md" := fun e =>
        hmd (PlanInput.isMarkdown_of_fileName e)
      rw [h.followed.outside path leaf hnone hname]
  · obtain ⟨mutations, hmutations, hmoved⟩ :=
      PlanInput.moved_operations (PlanInput.Agrees.initial h.valid).known h.planned
    have hsame : mutations = state.plan := by rw [hmutations]; rfl
    rw [hsame, PlanInput.locations_initial, h.locations_eq] at hmoved
    exact hmoved

/-- Apply requests in order, all of which must succeed; their moves are collected. -/
def applyAll (x : Externals) (policy : ContentPolicy) (packagePolicy : PackagePolicy) :
    ContentTree → List Submission → Except ApplyError (ContentTree × List AppliedMove)
  | tree, [] => .ok (tree, [])
  | tree, submission :: rest => do
      let (tree', outcome) ← submission.apply x policy packagePolicy tree
      let (final, moves) ← applyAll x policy packagePolicy tree' rest
      pure (final, outcome.moves ++ moves)

/-- A batch of requests. -/
theorem traced_of_applyAll {submissions : List Submission}
    (hindexed : ContentIndex.build x policy packagePolicy base = .ok index)
    (hreads : ∀ submission ∈ submissions,
      submission.package.Reads x packagePolicy submission.packageRoot)
    (h : applyAll x policy packagePolicy base submissions = .ok (final, moves)) :
    ∃ index', ContentIndex.build x policy packagePolicy final = .ok index' ∧
      Traced base index final index' moves := by
  induction submissions generalizing base index moves with
  | nil =>
      cases h
      exact ⟨index, hindexed, Traced.refl hindexed⟩
  | cons submission rest ih =>
      unfold applyAll at h
      simp only [bind_eq_ok, Prod.exists, pure_eq_ok, Except.ok.injEq, Prod.mk.injEq] at h
      obtain ⟨middle, outcome, happly, last, more, hrest, rfl, rfl⟩ := h
      obtain ⟨hread, hreads'⟩ := List.forall_mem_cons.1 hreads
      obtain ⟨index₀, index₁, state, happlied, hmoves⟩ := PlanInput.applied_of_ok hread happly
      have hsame : index = index₀ := Except.ok.inj (hindexed.symm.trans happlied.valid.indexed)
      subst hsame
      obtain ⟨index', hindexed', htraced⟩ := ih happlied.indexed hreads' hrest
      refine ⟨index', hindexed', ?_⟩
      rw [hmoves]
      exact happlied.traced.trans htraced happlied.indexed

end Traced

/-! ### Reading the name-status list -/

/-- The paths with a given letter. -/
def pathsOf (status : DiffStatus) (entries : List (DiffStatus × RelPath)) : List RelPath :=
  entries.filterMap fun entry => if entry.1 = status then some entry.2 else none

theorem mem_pathsOf {status : DiffStatus} {entries : List (DiffStatus × RelPath)}
    {path : RelPath} : path ∈ pathsOf status entries ↔ (status, path) ∈ entries := by
  simp only [pathsOf, List.mem_filterMap, Option.ite_none_right_eq_some, Option.some.injEq,
    Prod.exists]
  constructor
  · rintro ⟨_, _, hmem, rfl, rfl⟩
    exact hmem
  · intro hmem
    exact ⟨status, path, hmem, rfl, rfl⟩

theorem nodup_pathsOf {status : DiffStatus} {entries : List (DiffStatus × RelPath)}
    (h : entries.Nodup) : (pathsOf status entries).Nodup := by
  refine h.filterMap ?_
  rintro ⟨s, p⟩ ⟨s', p'⟩ path hp hp'
  simp only [Option.mem_def, Option.ite_none_right_eq_some, Option.some.injEq] at hp hp'
  obtain ⟨rfl, rfl⟩ := hp
  obtain ⟨rfl, rfl⟩ := hp'
  rfl

theorem scanStatuses_eq_ok {entries : List (DiffStatus × RelPath)} {scan : DiffScan}
    (hempty : ∀ entry ∈ entries, entry.2 ≠ []) (hother : ∀ path, (.other, path) ∉ entries)
    (hnodup : (scan.added ++ pathsOf .added entries).Nodup) :
    entries.foldlM scanStatus scan = .ok {
      added := scan.added ++ pathsOf .added entries
      deleted := scan.deleted ++ pathsOf .deleted entries
      modified := scan.modified + (pathsOf .modified entries).length } := by
  induction entries generalizing scan with
  | nil => simp [pathsOf]
  | cons entry rest ih =>
      obtain ⟨status, path⟩ := entry
      obtain ⟨hpath, hempty'⟩ := List.forall_mem_cons.1 hempty
      have hother' : ∀ path, (.other, path) ∉ rest := fun p hp =>
        hother p (List.mem_cons_of_mem _ hp)
      rw [List.foldlM_cons]
      cases status with
      | added =>
          have hcons : pathsOf .added ((.added, path) :: rest) = path :: pathsOf .added rest := rfl
          rw [hcons] at hnodup ⊢
          have hfresh : path ∉ scan.added := by
            intro hmem
            exact (List.nodup_append.1 hnodup).2.2 path hmem path List.mem_cons_self rfl
          have hstep : scanStatus scan (.added, path) =
              .ok { scan with added := scan.added ++ [path] } := by
            simp [scanStatus, rejectIf, show path ≠ [] from hpath, hfresh, ok_bind]
          rw [hstep, ok_bind, ih hempty' hother' (by simpa using hnodup)]
          simp [pathsOf]
      | modified =>
          have hstep : scanStatus scan (.modified, path) =
              .ok { scan with modified := scan.modified + 1 } := by
            simp [scanStatus, rejectIf, show path ≠ [] from hpath, ok_bind]
          rw [hstep, ok_bind, ih hempty' hother' (by simpa [pathsOf] using hnodup)]
          simp only [pathsOf, List.filterMap_cons, if_true, reduceCtorEq, if_false,
            List.length_cons, Except.ok.injEq, DiffScan.mk.injEq, true_and]
          omega
      | deleted =>
          have hstep : scanStatus scan (.deleted, path) =
              .ok { scan with deleted := scan.deleted ++ [path] } := by
            simp [scanStatus, rejectIf, show path ≠ [] from hpath, ok_bind]
          rw [hstep, ok_bind, ih hempty' hother' (by simpa [pathsOf] using hnodup)]
          simp [pathsOf]
      | other => exact absurd List.mem_cons_self (hother path)

/-- Deleted paths whose destinations are among the added ones settle. -/
theorem settleAll_eq_ok {finalMoves : PathMap} {destination : RelPath → RelPath}
    {sources rest : List RelPath} (scan : DiffScan)
    (hdestination : ∀ source ∈ sources, destination source ≠ source ∧
      movedFileDestination source finalMoves = some (destination source))
    (hadded : scan.added.Perm (sources.map destination ++ rest)) :
    ∃ settled, sources.foldlM (settleDeleted finalMoves) scan = .ok settled ∧
      settled.added.Perm rest ∧ settled.modified = scan.modified + sources.length := by
  induction sources generalizing scan with
  | nil => exact ⟨scan, rfl, hadded, rfl⟩
  | cons source sources ih =>
      obtain ⟨⟨hne, hfound⟩, hdestination'⟩ := List.forall_mem_cons.1 hdestination
      have hmem : destination source ∈ scan.added := hadded.mem_iff.2 (by simp)
      have hstep : settleDeleted finalMoves scan source = .ok { scan with
          added := scan.added.erase (destination source)
          modified := scan.modified + 1 } := by
        simp [settleDeleted, hfound, ofOption, rejectIf, hne, hmem, ok_bind]
      have hrest : (scan.added.erase (destination source)).Perm
          (sources.map destination ++ rest) := by
        have := hadded.erase (destination source)
        simpa using this
      rw [List.foldlM_cons, hstep, ok_bind]
      obtain ⟨settled, hfold, hperm, hmodified⟩ := ih { scan with
        added := scan.added.erase (destination source)
        modified := scan.modified + 1 } hdestination' hrest
      refine ⟨settled, hfold, hperm, hmodified.trans ?_⟩
      rw [List.length_cons, Nat.add_assoc, Nat.add_comm 1]

/-! ### The counts of a batch -/

/-- Git's list of the differences between two trees. -/
structure NameStatus (base final : ContentTree) (entries : List (DiffStatus × RelPath)) :
    Prop where
  nodup : entries.Nodup
  added : ∀ path, (.added, path) ∈ entries ↔
    base.fileAt path = none ∧ (final.fileAt path).isSome
  modified : ∀ path, (.modified, path) ∈ entries ↔
    (base.fileAt path).isSome ∧ (final.fileAt path).isSome ∧ base.fileAt path ≠ final.fileAt path
  deleted : ∀ path, (.deleted, path) ∈ entries ↔
    (base.fileAt path).isSome ∧ final.fileAt path = none
  other : ∀ path, (.other, path) ∉ entries

def addedOrModified (base : ContentTree) (file : RelPath × ContentLeaf) :
    Option (DiffStatus × RelPath) :=
  match base.fileAt file.1 with
  | none => some (.added, file.1)
  | some leaf => if leaf = file.2 then none else some (.modified, file.1)

def deletedFrom (final : ContentTree) (file : RelPath × ContentLeaf) :
    Option (DiffStatus × RelPath) :=
  if final.fileAt file.1 = none then some (.deleted, file.1) else none

/-- The list itself, in an order of its own. -/
def nameStatus (base final : ContentTree) : List (DiffStatus × RelPath) :=
  final.files.filterMap (addedOrModified base) ++ base.files.filterMap (deletedFrom final)

/-- The number of files that descend from no file of the base. -/
def newFileCount (base final : ContentTree) (moves : List AppliedMove) : Nat :=
  final.files.countP fun file => ∀ before ∈ base.files, replayMoves moves before.1 ≠ file.1

/-- The number of files of the base that are elsewhere or different. -/
def changedFileCount (base final : ContentTree) (moves : List AppliedMove) : Nat :=
  base.files.countP fun file => replayMoves moves file.1 ≠ file.1 ∨
    final.fileAt (replayMoves moves file.1) ≠ some file.2

section Counts

variable {x : Externals} {policy : ContentPolicy} {packagePolicy : PackagePolicy}
  {base final : ContentTree} {index index' : ContentIndex} {moves : List AppliedMove}

theorem mem_paths {tree : ContentTree} {path : RelPath} :
    path ∈ tree.files.map Prod.fst ↔ ∃ leaf, tree.node path = some (.file leaf) := by
  simp only [List.mem_map, Prod.exists, exists_and_right, exists_eq_right, FileTree.mem_files]

theorem fileAt_isSome_iff {tree : ContentTree} {path : RelPath} :
    (tree.fileAt path).isSome ↔ path ∈ tree.files.map Prod.fst := by
  simp only [Option.isSome_iff_exists, mem_paths, FileTree.fileAt_eq_some_iff]

theorem nodup_paths (tree : ContentTree) : (tree.files.map Prod.fst).Nodup :=
  (List.pairwise_map.2 tree.pairwise_files).imp fun hlt => hlt.ne

theorem addedOrModified_eq_some {base : ContentTree} {path path' : RelPath} {leaf : ContentLeaf}
    {status : DiffStatus} :
    addedOrModified base (path, leaf) = some (status, path') ↔ path = path' ∧
      (status = .added ∧ base.fileAt path = none ∨
        status = .modified ∧ ∃ old, base.fileAt path = some old ∧ old ≠ leaf) := by
  unfold addedOrModified
  cases hold : base.fileAt path with
  | none => simp [eq_comm, and_comm]
  | some old =>
      by_cases heq : old = leaf
      · simp [heq]
      · simp only [heq, if_false, Option.some.injEq, Prod.mk.injEq, reduceCtorEq, and_false,
          false_or, exists_eq_left', ne_eq, not_false_eq_true, and_true]
        exact ⟨fun h => ⟨h.2, h.1.symm⟩, fun h => ⟨h.2.symm, h.1⟩⟩

theorem deletedFrom_eq_some {final : ContentTree} {file : RelPath × ContentLeaf} {path' : RelPath}
    {status : DiffStatus} :
    deletedFrom final file = some (status, path') ↔
      file.1 = path' ∧ status = .deleted ∧ final.fileAt file.1 = none := by
  unfold deletedFrom
  by_cases h : final.fileAt file.1 = none
  · simp [h, eq_comm, and_comm]
  · simp [h]

theorem mem_nameStatus {base final : ContentTree} {status : DiffStatus} {path : RelPath} :
    (status, path) ∈ nameStatus base final ↔
      (∃ leaf, final.fileAt path = some leaf ∧
        (status = .added ∧ base.fileAt path = none ∨
          status = .modified ∧ ∃ old, base.fileAt path = some old ∧ old ≠ leaf)) ∨
      status = .deleted ∧ (base.fileAt path).isSome ∧ final.fileAt path = none := by
  unfold nameStatus
  simp only [List.mem_append, List.mem_filterMap, Prod.exists, addedOrModified_eq_some,
    deletedFrom_eq_some, FileTree.mem_files, ← FileTree.fileAt_eq_some_iff]
  constructor
  · rintro (⟨_, leaf, hfile, rfl, hcase⟩ | ⟨_, leaf, hfile, rfl, hstatus, hnone⟩)
    · exact .inl ⟨leaf, hfile, hcase⟩
    · exact .inr ⟨hstatus, by rw [hfile]; rfl, hnone⟩
  · rintro (⟨leaf, hfile, hcase⟩ | ⟨hstatus, hsome, hnone⟩)
    · exact .inl ⟨path, leaf, hfile, rfl, hcase⟩
    · obtain ⟨leaf, hfile⟩ := Option.isSome_iff_exists.1 hsome
      exact .inr ⟨path, leaf, hfile, rfl, hstatus, hnone⟩

theorem nodup_nameStatus (base final : ContentTree) : (nameStatus base final).Nodup := by
  have hpaths : ∀ (tree : ContentTree) (f : RelPath × ContentLeaf → Option (DiffStatus × RelPath)),
      (∀ file entry, f file = some entry → file.1 = entry.2) → (tree.files.filterMap f).Nodup := by
    intro tree f hf
    have hlt : (tree.files.filterMap f).Pairwise fun a b => a.2 < b.2 := by
      refine tree.pairwise_files.filterMap f ?_
      intro a b hlt c hc d hd
      rw [← hf a c hc, ← hf b d hd]
      exact hlt
    exact hlt.imp fun hlt heq => hlt.ne (congrArg Prod.snd heq)
  refine List.nodup_append.2 ⟨hpaths _ _ ?_, hpaths _ _ ?_, ?_⟩
  · rintro ⟨path, leaf⟩ ⟨status, path'⟩ h
    exact (addedOrModified_eq_some.1 h).1
  · rintro file ⟨status, path'⟩ h
    exact (deletedFrom_eq_some.1 h).1
  · rintro ⟨status, path⟩ ha _ hb rfl
    obtain ⟨⟨_, leaf⟩, -, hfile⟩ := List.mem_filterMap.1 ha
    obtain ⟨file, -, hfile'⟩ := List.mem_filterMap.1 hb
    obtain ⟨-, hstatus, -⟩ := deletedFrom_eq_some.1 hfile'
    rcases (addedOrModified_eq_some.1 hfile).2 with ⟨h, -⟩ | ⟨h, -⟩
    · rw [h] at hstatus
      cases hstatus
    · rw [h] at hstatus
      cases hstatus

theorem nameStatus_lists (base final : ContentTree) :
    NameStatus base final (nameStatus base final) := by
  refine ⟨nodup_nameStatus base final, ?_, ?_, ?_, ?_⟩
  · intro path
    simp [mem_nameStatus, Option.isSome_iff_exists, and_comm]
  · intro path
    rw [mem_nameStatus]
    cases hbase : base.fileAt path <;> cases hfinal : final.fileAt path <;> simp
  · intro path
    simp [mem_nameStatus]
  · intro path
    simp [mem_nameStatus]
/-- A file that moved has left its path, and went where no file was. -/
theorem Traced.moved_away (h : Traced base index final index' moves)
    (hindexed : ContentIndex.build x policy packagePolicy base = .ok index)
    (hindexed' : ContentIndex.build x policy packagePolicy final = .ok index') {path : RelPath}
    (hpath : path ∈ base.files.map Prod.fst) (hmoved : replayMoves moves path ≠ path) :
    path ∉ final.files.map Prod.fst ∧ replayMoves moves path ∉ base.files.map Prod.fst := by
  obtain ⟨leaf, hfile⟩ := mem_paths.1 hpath
  obtain ⟨d, hbundle⟩ : ∃ d, InBundle d path := by
    by_contra hnone
    exact hmoved (h.outside path leaf hfile (not_exists.1 hnone))
  obtain ⟨directory, hdirectory, hbefore⟩ := location_of_file hindexed hfile hbundle
  obtain ⟨directory', hdirectory', hafter⟩ := h.bundled d path leaf hfile hbundle
  constructor
  · intro hstays
    obtain ⟨leaf', hfile'⟩ := mem_paths.1 hstays
    obtain ⟨found, hfound, hsame⟩ := location_of_file hindexed' hfile' hbundle
    cases hdirectory'.symm.trans hfound
    exact hmoved (hafter.trans hsame.symm)
  · intro hold
    obtain ⟨leaf', hfile'⟩ := mem_paths.1 hold
    have hin : InBundle d (replayMoves moves path) := by
      rw [hafter]
      exact (locations_isBundle hindexed' hdirectory').inBundle (List.prefix_append _ _)
    obtain ⟨found, hfound, hsame⟩ := location_of_file hindexed hfile' hin
    cases hdirectory.symm.trans hfound
    have hname : fileName (replayMoves moves path) = fileName path := by
      rw [hafter, fileName_concat]
    rw [hname, ← hbefore] at hsame
    exact hmoved hsame

theorem Traced.replay_mem (h : Traced base index final index' moves) {path : RelPath}
    (hpath : path ∈ base.files.map Prod.fst) :
    replayMoves moves path ∈ final.files.map Prod.fst := by
  obtain ⟨leaf, hfile⟩ := mem_paths.1 hpath
  exact mem_paths.2 (h.node hfile)

/-- Exactly the moved files are deleted. -/
theorem NameStatus.mem_deleted {entries : List (DiffStatus × RelPath)}
    (hstatus : NameStatus base final entries) (h : Traced base index final index' moves)
    (hindexed : ContentIndex.build x policy packagePolicy base = .ok index)
    (hindexed' : ContentIndex.build x policy packagePolicy final = .ok index') (path : RelPath) :
    path ∈ pathsOf .deleted entries ↔
      path ∈ base.files.map Prod.fst ∧ replayMoves moves path ≠ path := by
  rw [mem_pathsOf, hstatus.deleted, fileAt_isSome_iff, ← Option.not_isSome_iff_eq_none,
    fileAt_isSome_iff]
  refine and_congr_right fun hbase => ⟨fun hgone heq => hgone ?_, fun hmoved =>
    (h.moved_away hindexed hindexed' hbase hmoved).1⟩
  rw [← heq]
  exact h.replay_mem hbase

theorem NameStatus.path_ne_nil {entries : List (DiffStatus × RelPath)}
    (hstatus : NameStatus base final entries) : ∀ entry ∈ entries, entry.2 ≠ [] := by
  rintro ⟨status, path⟩ hentry (rfl : path = [])
  have hnone : ∀ tree : ContentTree, tree.fileAt [] = none := fun tree => by
    simp [FileTree.fileAt]
  cases status with
  | added => simpa [hnone] using (hstatus.added []).1 hentry
  | modified => simpa [hnone] using (hstatus.modified []).1 hentry
  | deleted => simpa [hnone] using (hstatus.deleted []).1 hentry
  | other => exact hstatus.other [] hentry

/-- The paths of the final tree: those of the followed files and the new ones. -/
theorem Traced.paths (h : Traced base index final index' moves) :
    ∃ created : List RelPath, (final.files.map Prod.fst).Perm
      ((base.files.map Prod.fst).map (replayMoves moves) ++ created) := by
  obtain ⟨follow, created, hperm, hfollow⟩ := h.files
  refine ⟨created.map Prod.fst, ?_⟩
  have hmap : (base.files.map follow).map Prod.fst =
      (base.files.map Prod.fst).map (replayMoves moves) := by
    rw [List.map_map, List.map_map]
    exact List.map_congr_left hfollow
  have := hperm.map Prod.fst
  rwa [List.map_append, hmap] at this

/-- The added paths are the destinations of the moved files and the new files. -/
theorem NameStatus.added_perm {entries : List (DiffStatus × RelPath)}
    (hstatus : NameStatus base final entries) (h : Traced base index final index' moves)
    (hindexed : ContentIndex.build x policy packagePolicy base = .ok index)
    (hindexed' : ContentIndex.build x policy packagePolicy final = .ok index')
    {created : List RelPath} (hpaths : (final.files.map Prod.fst).Perm
      ((base.files.map Prod.fst).map (replayMoves moves) ++ created)) :
    (pathsOf .added entries).Perm
      ((pathsOf .deleted entries).map (replayMoves moves) ++ created) := by
  have hnodup := hpaths.nodup_iff.1 (nodup_paths final)
  obtain ⟨hfollowed, hcreated, hapart⟩ := List.nodup_append.1 hnodup
  have hdeleted := hstatus.mem_deleted h hindexed hindexed'
  rw [List.perm_ext_iff_of_nodup (nodup_pathsOf hstatus.nodup)]
  · intro path
    rw [mem_pathsOf, hstatus.added, ← Option.not_isSome_iff_eq_none, fileAt_isSome_iff,
      fileAt_isSome_iff, hpaths.mem_iff, List.mem_append, List.mem_append]
    constructor
    · rintro ⟨hnew, hfollow | hmem⟩
      · obtain ⟨before, hbefore, rfl⟩ := List.mem_map.1 hfollow
        refine .inl (List.mem_map_of_mem ((hdeleted before).2 ⟨hbefore, fun heq => hnew ?_⟩))
        rwa [heq]
      · exact .inr hmem
    · rintro (hfollow | hmem)
      · obtain ⟨before, hbefore, rfl⟩ := List.mem_map.1 hfollow
        obtain ⟨hbase, hmoved⟩ := (hdeleted before).1 hbefore
        exact ⟨(h.moved_away hindexed hindexed' hbase hmoved).2, .inl (List.mem_map_of_mem hbase)⟩
      · refine ⟨fun hbase => ?_, .inr hmem⟩
        by_cases hmoved : replayMoves moves path = path
        · exact hapart _ (List.mem_map_of_mem hbase) path hmem hmoved
        · exact (h.moved_away hindexed hindexed' hbase hmoved).1
            (hpaths.mem_iff.2 (List.mem_append_right _ hmem))
  · refine List.nodup_append.2 ⟨?_, hcreated, ?_⟩
    · refine (List.Nodup.map_on ?_ (nodup_pathsOf hstatus.nodup))
      intro a ha b hb heq
      exact List.inj_on_of_nodup_map hfollowed ((hdeleted a).1 ha).1 ((hdeleted b).1 hb).1 heq
    · intro a ha b hb heq
      obtain ⟨before, hbefore, rfl⟩ := List.mem_map.1 ha
      exact hapart _ (List.mem_map_of_mem ((hdeleted before).1 hbefore).1) b hb heq

theorem Traced.newFileCount_eq {created : List RelPath}
    (hpaths : (final.files.map Prod.fst).Perm
      ((base.files.map Prod.fst).map (replayMoves moves) ++ created)) :
    newFileCount base final moves = created.length := by
  have hapart := (List.nodup_append.1 (hpaths.nodup_iff.1 (nodup_paths final))).2.2
  have hcount : newFileCount base final moves = (final.files.map Prod.fst).countP fun path =>
      ∀ before ∈ base.files, replayMoves moves before.1 ≠ path := by
    rw [List.countP_map]
    rfl
  rw [hcount, hpaths.countP_eq, List.countP_append, List.countP_eq_zero.2, Nat.zero_add,
    List.countP_eq_length.2]
  · intro path hpath
    simp only [decide_eq_true_eq]
    intro before hbefore heq
    exact hapart _ (List.mem_map_of_mem (List.mem_map_of_mem hbefore)) path hpath heq
  · intro path hpath
    simp only [decide_eq_true_eq, not_forall, not_not]
    obtain ⟨before, hbefore, rfl⟩ := List.mem_map.1 hpath
    obtain ⟨file, hfile, rfl⟩ := List.mem_map.1 hbefore
    exact ⟨file, hfile, rfl⟩

theorem countP_or_eq_add {α : Type} (l : List α) (p q : α → Prop) [DecidablePred p]
    [DecidablePred q] :
    (l.countP fun a => p a ∨ q a) =
      (l.filter fun a => ¬ p a ∧ q a).length + (l.filter fun a => p a).length := by
  induction l with
  | nil => rfl
  | cons a l ih =>
      rw [List.countP_cons, ih]
      by_cases hp : p a <;> by_cases hq : q a <;> simp [hp, hq] <;> omega

/-- The changed files are the modified and the moved ones. -/
theorem NameStatus.changedFileCount_eq {entries : List (DiffStatus × RelPath)}
    (hstatus : NameStatus base final entries) (h : Traced base index final index' moves)
    (hindexed : ContentIndex.build x policy packagePolicy base = .ok index)
    (hindexed' : ContentIndex.build x policy packagePolicy final = .ok index') :
    changedFileCount base final moves =
      (pathsOf .modified entries).length + (pathsOf .deleted entries).length := by
  have hnodup : ∀ p : RelPath × ContentLeaf → Bool,
      ((base.files.filter p).map Prod.fst).Nodup := fun p =>
    (nodup_paths base).sublist ((List.filter_sublist).map Prod.fst)
  have hdeleted : (pathsOf .deleted entries).Perm
      ((base.files.filter fun file => replayMoves moves file.1 ≠ file.1).map Prod.fst) := by
    rw [List.perm_ext_iff_of_nodup (nodup_pathsOf hstatus.nodup) (hnodup _)]
    intro path
    rw [hstatus.mem_deleted h hindexed hindexed']
    simp only [List.mem_map, List.mem_filter, decide_eq_true_eq]
    constructor
    · rintro ⟨⟨file, hfile, rfl⟩, hmoved⟩
      exact ⟨file, ⟨hfile, hmoved⟩, rfl⟩
    · rintro ⟨file, ⟨hfile, hmoved⟩, rfl⟩
      exact ⟨⟨file, hfile, rfl⟩, hmoved⟩
  have hmodified : (pathsOf .modified entries).Perm
      ((base.files.filter fun file => ¬ replayMoves moves file.1 ≠ file.1 ∧
        final.fileAt (replayMoves moves file.1) ≠ some file.2).map Prod.fst) := by
    rw [List.perm_ext_iff_of_nodup (nodup_pathsOf hstatus.nodup) (hnodup _)]
    intro path
    rw [mem_pathsOf, hstatus.modified]
    simp only [List.mem_map, List.mem_filter, decide_eq_true_eq, not_not, Prod.exists,
      FileTree.mem_files, exists_eq_right, exists_and_right]
    constructor
    · rintro ⟨hbase, hfinal, hdiffer⟩
      rw [fileAt_isSome_iff] at hfinal
      obtain ⟨leaf, hleaf⟩ := Option.isSome_iff_exists.1 hbase
      have hstill : replayMoves moves path = path := by
        by_contra hmoved
        exact (h.moved_away hindexed hindexed' (fileAt_isSome_iff.1 hbase) hmoved).1 hfinal
      refine ⟨leaf, FileTree.fileAt_eq_some_iff.1 hleaf, hstill, ?_⟩
      rw [hstill, ← hleaf]
      exact fun heq => hdiffer heq.symm
    · rintro ⟨leaf, hfile, hstill, hdiffer⟩
      have hleaf : base.fileAt path = some leaf := FileTree.fileAt_eq_some_iff.2 hfile
      have hmem := h.replay_mem (mem_paths.2 ⟨leaf, hfile⟩)
      rw [hstill] at hdiffer hmem
      refine ⟨by rw [hleaf]; rfl, fileAt_isSome_iff.2 hmem, ?_⟩
      rw [hleaf]
      exact fun heq => hdiffer heq.symm
  rw [changedFileCount, countP_or_eq_add, hmodified.length_eq, hdeleted.length_eq,
    List.length_map, List.length_map]

/-- A batch of applied requests is never refused as a deletion, and the counts are
those of its files. -/
theorem stagedStats_of_applied {submissions : List Submission}
    (hindexed : ContentIndex.build x policy packagePolicy base = .ok index)
    (hreads : ∀ submission ∈ submissions,
      submission.package.Reads x packagePolicy submission.packageRoot)
    (happly : applyAll x policy packagePolicy base submissions = .ok (final, moves))
    {entries : List (DiffStatus × RelPath)} (hstatus : NameStatus base final entries) :
    stagedStats entries moves = .ok {
      added := newFileCount base final moves
      modified := changedFileCount base final moves
      deleted := 0 } := by
  obtain ⟨index', hindexed', h⟩ := traced_of_applyAll hindexed hreads happly
  obtain ⟨finalMoves, hreduce, hlookup, hkeys⟩ := reduceMoves_eq_ok h.moved
    fun d path hpath => locations_isBundle hindexed hpath
  obtain ⟨created, hpaths⟩ := h.paths
  have hadded := hstatus.added_perm h hindexed hindexed' hpaths
  have hdestination : ∀ source ∈ pathsOf .deleted entries,
      replayMoves moves source ≠ source ∧
        movedFileDestination source finalMoves = some (replayMoves moves source) := by
    intro source hsource
    obtain ⟨hbase, hmoved⟩ := (hstatus.mem_deleted h hindexed hindexed' source).1 hsource
    refine ⟨hmoved, ?_⟩
    obtain ⟨leaf, hfile⟩ := mem_paths.1 hbase
    obtain ⟨d, hbundle⟩ : ∃ d, InBundle d source := by
      by_contra hnone
      exact hmoved (h.outside source leaf hfile (not_exists.1 hnone))
    obtain ⟨directory, hdirectory, hbefore⟩ := location_of_file hindexed hfile hbundle
    obtain ⟨directory', hdirectory', hafter⟩ := h.bundled d source leaf hfile hbundle
    have hfinal := hlookup d directory directory' hdirectory hdirectory'
    have heq := movedFileDestination_eq [fileName source]
      (locations_isBundle hindexed hdirectory) hkeys
    rw [← hbefore] at heq
    rw [heq, hafter]
    cases hentry : finalMoves.lookup directory with
    | none =>
        rw [hentry, Option.getD_none] at hfinal
        exact absurd (by rw [hafter, ← hfinal, ← hbefore]) hmoved
    | some destination =>
        rw [hentry, Option.getD_some] at hfinal
        rw [hfinal]
        rfl
  have hscan : entries.foldlM scanStatus {} = .ok {
      added := pathsOf .added entries
      deleted := pathsOf .deleted entries
      modified := (pathsOf .modified entries).length } := by
    rw [scanStatuses_eq_ok ?_ hstatus.other (by simpa using nodup_pathsOf hstatus.nodup)]
    · simp
    · exact hstatus.path_ne_nil
  obtain ⟨settled, hsettled, hrest, hmodified⟩ := settleAll_eq_ok
    ⟨pathsOf .added entries, pathsOf .deleted entries, (pathsOf .modified entries).length⟩
    hdestination hadded
  unfold stagedStats
  rw [hreduce, ok_bind, hscan, ok_bind, hsettled, ok_bind]
  rw [Traced.newFileCount_eq hpaths, hstatus.changedFileCount_eq h hindexed hindexed',
    hrest.length_eq, hmodified]
  rfl

end Counts

namespace Sample

/-- The moved decision counts as modified, its new picture as added. -/
theorem moveAndAttach_stats : ∃ final moves,
    applyAll (externals moveAndAttach) {} packagePolicy (tree [])
        [⟨directory, package moveAndAttach⟩] = .ok (final, moves) ∧
      stagedStats (nameStatus (tree []) final) moves = .ok {
        added := newFileCount (tree []) final moves
        modified := changedFileCount (tree []) final moves
        deleted := 0 } ∧
      newFileCount (tree []) final moves = 1 ∧ changedFileCount (tree []) final moves = 1 := by
  obtain ⟨⟨final, moves⟩, happly, hcounts⟩ : ∃ result,
      applyAll (externals moveAndAttach) {} packagePolicy (tree [])
          [⟨directory, package moveAndAttach⟩] = .ok result ∧
        newFileCount (tree []) result.1 result.2 = 1 ∧
        changedFileCount (tree []) result.1 result.2 = 1 :=
    exists_ok_of_any (by decide +kernel)
  refine ⟨final, moves, happly, ?_, hcounts⟩
  refine stagedStats_of_applied (tree_indexed [] (by decide)) ?_ happly (nameStatus_lists _ _)
  intro submission hsubmission
  rw [List.mem_singleton.1 hsubmission]
  exact moveAndAttach_reads

end Sample

end AgentKnowledge
