import AgentKnowledge.Gateway.InspectSpec
import AgentKnowledge.Repository.Search

/-!
The selection of a context (`context` in `crates/gateway/src/read/inspect.rs`).

A context goes through its candidates once and gives each a part of the characters that are left.
Every candidate is either kept, with a part of its body, or passed over and then mentioned if there
is room (`Collected`, kept by every step: `addCandidate_collected`). In a balanced context no
document takes more than its share, so the shares of the documents still to come are never spent
(`Reserves`), and a short body is kept whole (`addCandidate_short`).

Excerpts are cut by the linear search or by the snippets of a full-text index, which is a
parameter: its fragments are parts of the text they are made from.
-/

namespace AgentKnowledge

open Results

/-! ### Excerpts -/

/-- The snippets of a full-text index. -/
structure SnippetIndex where
  /-- The fragment of a field with the terms of a query, if there are any in it. -/
  fragment : String → List Char → String → Nat → Except GatewayError (Option (List Char))
  fragment_infix : ∀ {field text query maximum part},
    fragment field text query maximum = .ok (some part) → part <:+: text

/-- One field of the excerpts of an index. -/
def SnippetIndex.addExcerpt (index : SnippetIndex) (query : String) (maximum : Nat)
    (excerpts : List FieldExcerpt) (value : String × List Char) :
    Except GatewayError (List FieldExcerpt) :=
  if excerpts.any fun excerpt => excerpt.field == value.1 then pure excerpts
  else do
    let fragment ← index.fragment value.1 value.2 query maximum
    pure (excerpts ++ (fragment.map fun part =>
      { field := value.1, text := part.take maximum
        truncated := decide (part.take maximum ≠ value.2) }).toList)

def SnippetIndex.excerpts (index : SnippetIndex) (record : DocumentRecord) (body : List Char)
    (query : String) (fields : SearchMetadataFields) (maximum : Nat) :
    Except GatewayError (List FieldExcerpt) :=
  (searchFieldValues record body fields).foldlM (index.addExcerpt query maximum) []

/-- Excerpts of an index if there is one, and else those of the linear search. -/
def fieldExcerpts (lower : Lowercase) (fields : SearchMetadataFields) (index : Option SnippetIndex)
    (record : DocumentRecord) (body : List Char) (query : String) (maximum : Nat) :
    Except GatewayError (List FieldExcerpt) :=
  match index with
  | some index => index.excerpts record body query fields maximum
  | none => pure (linearExcerpts lower record body query.toList fields maximum)

def excerptsOf (lower : Lowercase) (fields : SearchMetadataFields) (index : Option SnippetIndex)
    (record : DocumentRecord) (body : List Char) (query : String) (maximum : Nat) :
    Except GatewayError (List Excerpt) := do
  let found ← fieldExcerpts lower fields index record body query maximum
  pure (found.map fun excerpt => ⟨excerpt.field, excerpt.text, excerpt.truncated⟩)

/-- The search backend cuts its excerpts so. -/
def SearchBackend.Cuts (backend : SearchBackend) (lower : Lowercase)
    (fields : SearchMetadataFields) (index : Option SnippetIndex) : Prop :=
  ∀ record body query maximum,
    backend.excerpts record body query maximum = excerptsOf lower fields index record body query maximum

section Cuts

variable {lower : Lowercase} {fields : SearchMetadataFields} {index : Option SnippetIndex}
  {record : DocumentRecord} {body : List Char} {maximum : Nat}

/-- Excerpts are parts of values of their field, of at most so many characters. -/
def PartsOf (values : List (String × List Char)) (maximum : Nat) (excerpts : List FieldExcerpt) :
    Prop :=
  ∀ excerpt ∈ excerpts, excerpt.text.length ≤ maximum ∧
    ∃ value ∈ values, value.1 = excerpt.field ∧ excerpt.text <:+: value.2

theorem SnippetIndex.excerpts_parts {index : SnippetIndex} {query : String}
    {excerpts : List FieldExcerpt}
    (h : index.excerpts record body query fields maximum = .ok excerpts) :
    PartsOf (searchFieldValues record body fields) maximum excerpts := by
  refine foldlM_induction_mem (P := PartsOf (searchFieldValues record body fields) maximum) ?_
    (by simp [PartsOf]) h
  intro before value hvalue after hbefore hstep
  unfold SnippetIndex.addExcerpt at hstep
  split at hstep
  · obtain rfl := Except.ok.inj hstep
    exact hbefore
  · rw [bind_eq_ok] at hstep
    obtain ⟨fragment, hfragment, hstep⟩ := hstep
    obtain rfl := Except.ok.inj hstep
    intro excerpt hexcerpt
    rcases List.mem_append.1 hexcerpt with hold | hnew
    · exact hbefore excerpt hold
    · obtain ⟨part, hpart, rfl⟩ := Option.map_eq_some_iff.1 (Option.mem_toList.1 hnew)
      subst hpart
      exact ⟨List.length_take_le _ _, value, hvalue, rfl,
        (List.take_prefix _ _).isInfix.trans (index.fragment_infix hfragment)⟩

theorem linearExcerpts_parts {query : List Char} :
    PartsOf (searchFieldValues record body fields) maximum
      (linearExcerpts lower record body query fields maximum) := by
  intro excerpt hexcerpt
  obtain ⟨value, hvalue, hcut⟩ := mem_foldl_addExcerpt.1 hexcerpt
  obtain ⟨hmem, hfield, -⟩ := of_firstValue hvalue
  obtain ⟨offset, -, rfl⟩ := Option.map_eq_some_iff.1 hcut
  exact ⟨List.length_take_le _ _, value, hmem, hfield,
    (List.take_prefix _ _).isInfix.trans (List.drop_suffix _ _).isInfix⟩

theorem fieldExcerpts_parts {query : String} {excerpts : List FieldExcerpt}
    (h : fieldExcerpts lower fields index record body query maximum = .ok excerpts) :
    PartsOf (searchFieldValues record body fields) maximum excerpts := by
  cases index with
  | some index => exact SnippetIndex.excerpts_parts h
  | none =>
      obtain rfl := Except.ok.inj h
      exact linearExcerpts_parts

theorem excerptsOf_parts {query : String} {found : List Excerpt}
    (h : excerptsOf lower fields index record body query maximum = .ok found) {excerpt : Excerpt}
    (hexcerpt : excerpt ∈ found) :
    excerpt.text.length ≤ maximum ∧ ∃ value ∈ searchFieldValues record body fields,
      value.1 = excerpt.field ∧ excerpt.text <:+: value.2 := by
  rw [excerptsOf, bind_eq_ok] at h
  obtain ⟨cut, hcut, h⟩ := h
  obtain rfl := Except.ok.inj h
  obtain ⟨part, hpart, rfl⟩ := List.mem_map.1 hexcerpt
  exact fieldExcerpts_parts hcut part hpart

theorem body_of_mem_searchFieldValues {value : String × List Char}
    (h : value ∈ searchFieldValues record body fields) (hfield : value.1 = "body") :
    value.2 = body := by
  obtain ⟨field, text⟩ := value
  simp only [searchFieldValues, List.mem_append, List.mem_cons, List.mem_map,
    List.not_mem_nil, or_false, Prod.mk.injEq, List.mem_ite_nil_right] at h
  subst hfield
  simpa using h

/-- The excerpt of a body is a part of it. -/
theorem SearchBackend.Cuts.body_infix {backend : SearchBackend}
    (hcuts : backend.Cuts lower fields index) {query : String} {found : List Excerpt}
    (h : backend.excerpts record body query maximum = .ok found) {excerpt : Excerpt}
    (hexcerpt : excerpt ∈ found) (hfield : excerpt.field = "body") : excerpt.text <:+: body := by
  rw [hcuts] at h
  obtain ⟨-, value, hvalue, hname, hinfix⟩ := excerptsOf_parts h hexcerpt
  rwa [body_of_mem_searchFieldValues hvalue (hname.trans hfield)] at hinfix

end Cuts

/-! ### Candidates -/

section Candidates

variable {services : ReadServices} {snapshot : CommittedSnapshot} {request : ContextRequest}
  {candidates : List (DocumentRecord × ContextReason)}

def candidateId (candidate : DocumentRecord × ContextReason) : DocumentId :=
  candidate.1.metadata.documentId

theorem nodup_retainFirst (seen : List DocumentId)
    (candidates : List (DocumentRecord × ContextReason)) :
    ((retainFirst seen candidates).map candidateId).Nodup ∧
      ∀ candidate ∈ retainFirst seen candidates, candidateId candidate ∉ seen := by
  induction candidates generalizing seen with
  | nil => simp [retainFirst]
  | cons first rest ih =>
      simp only [retainFirst]
      split
      · exact ih seen
      · rename_i hnew
        obtain ⟨hnodup, hunseen⟩ := ih (candidateId first :: seen)
        refine ⟨List.nodup_cons.2 ⟨fun hmem => ?_, hnodup⟩, ?_⟩
        · obtain ⟨other, hother, hid⟩ := List.mem_map.1 hmem
          exact hunseen other hother (by simp [hid])
        · intro candidate hcandidate
          rcases List.mem_cons.1 hcandidate with rfl | hlater
          · exact hnew
          · exact fun hmem => hunseen candidate hlater (List.mem_cons_of_mem _ hmem)

theorem nodup_candidates (h : services.candidates snapshot request = .ok candidates) :
    (candidates.map candidateId).Nodup := by
  unfold ReadServices.candidates at h
  simp only [bind_eq_ok, pure_eq_ok, Except.ok.injEq] at h
  obtain ⟨-, -, -, -, -, -, rfl⟩ := h
  exact (nodup_retainFirst _ _).1

theorem eligible_queryCandidates {all : List DocumentRecord}
    (h : services.queryCandidates snapshot request all = .ok candidates) :
    ∀ candidate ∈ candidates, eligible candidate.1 := by
  unfold ReadServices.queryCandidates at h
  cases hquery : request.query with
  | none =>
      simp only [hquery, pure_eq_ok, Except.ok.injEq] at h
      subst h
      intro candidate hcandidate
      obtain ⟨record, hrecord, rfl⟩ := List.mem_map.1 hcandidate
      exact List.of_mem_filter (List.mem_of_mem_filter hrecord)
  | some query =>
      simp only [hquery, bind_eq_ok, exists_unit, pure_eq_ok, Except.ok.injEq] at h
      obtain ⟨-, records, -, rfl⟩ := h
      intro candidate hcandidate
      rcases List.mem_append.1 hcandidate with hcandidate | hcandidate <;>
        obtain ⟨record, hrecord, rfl⟩ := List.mem_map.1 hcandidate <;>
        exact List.of_mem_filter (List.mem_of_mem_filter hrecord)

theorem eligible_candidates (h : services.candidates snapshot request = .ok candidates) :
    ∀ candidate ∈ candidates, eligible candidate.1 := by
  unfold ReadServices.candidates at h
  simp only [bind_eq_ok, mapError_eq_ok, pure_eq_ok, Except.ok.injEq] at h
  obtain ⟨all, -, recent, -, asked, hasked, rfl⟩ := h
  intro candidate hcandidate
  have hmem := mem_retainFirst hcandidate
  simp only [List.mem_append, List.mem_map] at hmem
  rcases hmem with ((⟨record, hrecord, rfl⟩ | hlog) | hquery) | ⟨record, hrecord, rfl⟩
  · exact List.of_mem_filter (List.mem_of_mem_filter hrecord)
  · cases hcount : request.recentDocuments with
    | none => simp [hcount] at hlog
    | some count =>
        rw [hcount] at hlog
        obtain ⟨record, hrecord, rfl⟩ := List.mem_map.1 hlog
        exact List.of_mem_filter (List.mem_of_mem_filter (List.mem_of_mem_take hrecord))
  · exact eligible_queryCandidates hasked candidate hquery
  · exact List.of_mem_filter (List.mem_of_mem_take hrecord)

end Candidates

/-! ### One candidate -/

section Step

variable {x : Externals} {services : ReadServices} {snapshot : CommittedSnapshot}
  {request : ContextRequest}

/-- What a step may do with a candidate. -/
inductive ContextState.Step (x : Externals) (snapshot : CommittedSnapshot)
    (request : ContextRequest) (state : ContextState) (candidate : DocumentRecord × ContextReason) :
    ContextState → Prop
  /-- The candidate is passed over, as there is no room or only room for a tiny part. -/
  | pass (bytes : Nat)
      (hroom : request.maximum ≤ state.documents.length ∨ state.remaining = 0 ∨
        ∃ raw, ReadServices.rawBody x snapshot candidate.1 = .ok raw ∧
          ReadServices.allowance request state.remaining < raw.length) :
      Step x snapshot request state candidate
        ({ state with bytes }.mention request.maximum (documentSummary candidate.1))
  | keep (bytes : Nat) (raw text : List Char)
      (hopen : state.documents.length < request.maximum)
      (hraw : ReadServices.rawBody x snapshot candidate.1 = .ok raw)
      (hpart : text <:+: raw)
      (hlength : text.length ≤ ReadServices.allowance request state.remaining)
      (hwhole : raw.length ≤ ReadServices.allowance request state.remaining → text = raw) :
      Step x snapshot request state candidate
        { state with
          bytes
          documents := state.documents ++
            [⟨documentSummary candidate.1, candidate.2.text, text, decide (text ≠ raw)⟩]
          remaining := state.remaining - text.length
          truncated := state.truncated || decide (text ≠ raw) }

theorem bestPart_infix {lower : Lowercase} {fields : SearchMetadataFields}
    {index : Option SnippetIndex} (hcuts : services.backend.Cuts lower fields index)
    {record : DocumentRecord} {raw text : List Char} {allowance : Nat}
    (h : services.bestPart request record raw allowance = .ok text) : text <:+: raw := by
  unfold ReadServices.bestPart at h
  split at h
  · obtain rfl := Except.ok.inj h
    exact List.infix_rfl
  split at h
  · obtain rfl := Except.ok.inj h
    exact List.nil_infix
  split at h
  · rw [bind_eq_ok] at h
    obtain ⟨found, hfound, h⟩ := h
    obtain rfl := Except.ok.inj h
    cases hfind : found.find? fun excerpt => excerpt.field == "body" with
    | none => exact (List.take_prefix _ _).isInfix
    | some excerpt =>
        exact hcuts.body_infix hfound (List.mem_of_find?_eq_some hfind)
          (eq_of_beq (List.find?_some hfind :))
  · obtain rfl := Except.ok.inj h
    exact (List.take_prefix _ _).isInfix

theorem fitBody_within {lower : Lowercase} {fields : SearchMetadataFields}
    {index : Option SnippetIndex} (hcuts : services.backend.Cuts lower fields index)
    {record : DocumentRecord} {raw text : List Char} {allowance : Nat}
    (h : services.fitBody request record raw allowance = .ok text) : text <:+: raw := by
  unfold ReadServices.fitBody at h
  rw [bind_eq_ok] at h
  obtain ⟨first, hfirst, h⟩ := h
  split at h
  · obtain rfl := Except.ok.inj h
    exact (List.take_prefix _ _).isInfix
  · obtain rfl := Except.ok.inj h
    exact bestPart_infix hcuts hfirst

theorem fitBody_of_length_le {record : DocumentRecord} {raw : List Char} {allowance : Nat}
    (h : raw.length ≤ allowance) : services.fitBody request record raw allowance = .ok raw := by
  simp [ReadServices.fitBody, ReadServices.bestPart, h]

theorem addCandidate_step {lower : Lowercase} {fields : SearchMetadataFields}
    {index : Option SnippetIndex} (hcuts : services.backend.Cuts lower fields index)
    {state state' : ContextState} {candidate : DocumentRecord × ContextReason}
    (h : services.addCandidate x snapshot request state candidate = .ok state') :
    state.Step x snapshot request candidate state' := by
  unfold ReadServices.addCandidate at h
  split at h
  · rename_i hfull
    obtain rfl := Except.ok.inj h
    exact .pass state.bytes (hfull.imp_right .inl)
  rename_i hopen
  rw [not_or, Nat.not_le] at hopen
  simp only [bind_eq_ok, Prod.exists] at h
  obtain ⟨document, bytes, hread, raw, hbody, text, htext, h⟩ := h
  have hsummary := readDocument_summary hread
  have hraw := rawBody_of_read hread hbody
  have hwhole : raw.length ≤ ReadServices.allowance request state.remaining → text = raw := by
    intro hle
    rw [fitBody_of_length_le hle] at htext
    exact (Except.ok.inj htext).symm
  split at h
  · rename_i htiny
    obtain rfl := Except.ok.inj h
    rw [hsummary]
    exact .pass bytes (.inr (.inr ⟨raw, hraw, Nat.lt_of_not_le fun hle => htiny.1 (hwhole hle)⟩))
  · obtain rfl := Except.ok.inj h
    rw [hsummary]
    exact .keep bytes raw text hopen.1 hraw (fitBody_within hcuts htext) (length_fitBody htext) hwhole

end Step

/-! ### All candidates -/

/-- A kept document and the candidate it stands for. -/
structure Keeping (x : Externals) (snapshot : CommittedSnapshot) (document : ContextDocument)
    (candidate : DocumentRecord × ContextReason) : Prop where
  summary : document.document = documentSummary candidate.1
  part : ∃ raw, ReadServices.rawBody x snapshot candidate.1 = .ok raw ∧ document.body <:+: raw ∧
    document.truncated = decide (document.body ≠ raw)

/-- The candidates so far were kept or passed over. -/
structure Collected (x : Externals) (snapshot : CommittedSnapshot) (maximum : Nat)
    (candidates : List (DocumentRecord × ContextReason))
    (kept : List (ContextDocument × DocumentRecord × ContextReason))
    (passed : List (DocumentRecord × ContextReason)) (state : ContextState) : Prop where
  perm : (kept.map Prod.snd ++ passed).Perm candidates
  documents : state.documents = kept.map Prod.fst
  keeping : ∀ pair ∈ kept, Keeping x snapshot pair.1 pair.2
  additional : state.additional = (passed.map fun candidate => documentSummary candidate.1).take maximum
  truncated : state.truncated = false ↔
    passed = [] ∧ ∀ document ∈ state.documents, document.truncated = false

section Run

variable {x : Externals} {services : ReadServices} {snapshot : CommittedSnapshot}
  {request : ContextRequest} {state state' : ContextState}
  {candidate : DocumentRecord × ContextReason}
  {candidates passed : List (DocumentRecord × ContextReason)}
  {kept : List (ContextDocument × DocumentRecord × ContextReason)}

theorem mention_additional {bytes maximum : Nat} {summary : DocumentSummary}
    {passed : List DocumentSummary} (h : state.additional = passed.take maximum) :
    ({ state with bytes }.mention maximum summary).additional =
      (passed ++ [summary]).take maximum := by
  simp only [ContextState.mention, h]
  split
  · rename_i hroom
    rw [List.length_take] at hroom
    rw [List.take_of_length_le (l := passed) (by omega),
      List.take_of_length_le (by simp; omega)]
  · rename_i hfull
    rw [List.length_take] at hfull
    rw [List.take_append_of_le_length (by omega)]

theorem Collected.step (h : Collected x snapshot request.maximum candidates kept passed state)
    (hstep : state.Step x snapshot request candidate state') :
    ∃ kept' passed',
      Collected x snapshot request.maximum (candidates ++ [candidate]) kept' passed' state' := by
  cases hstep with
  | pass bytes hroom =>
      refine ⟨kept, passed ++ [candidate], ?_, h.documents, h.keeping, ?_, ?_⟩
      · rw [← List.append_assoc]
        exact h.perm.append_right _
      · rw [List.map_append]
        exact mention_additional h.additional
      · simp [ContextState.mention]
  | keep bytes raw text hopen hraw hpart hlength hwhole =>
      refine ⟨kept ++ [(⟨documentSummary candidate.1, candidate.2.text, text, decide (text ≠ raw)⟩,
        candidate)], passed, ?_, by simp [h.documents], ?_, h.additional, ?_⟩
      · rw [List.map_append, List.append_assoc]
        exact (List.perm_append_comm.append_left _).trans
          (by rw [← List.append_assoc]; exact h.perm.append_right _)
      · intro pair hpair
        rcases List.mem_append.1 hpair with hold | hnew
        · exact h.keeping pair hold
        · rw [List.mem_singleton.1 hnew]
          exact ⟨rfl, raw, hraw, hpart, rfl⟩
      · simp only [Bool.or_eq_false_iff, h.truncated, List.mem_append, List.mem_singleton, or_imp,
          forall_and, forall_eq, and_assoc]

theorem ContextState.Step.documents_begin (hstep : state.Step x snapshot request candidate state') :
    state.documents <+: state'.documents := by
  cases hstep with
  | pass bytes hroom => exact List.prefix_rfl
  | keep bytes raw text hopen hraw hpart hlength hwhole => exact List.prefix_append _ _

/-- The characters that are left give every document still to come its share. -/
def ContextState.Reserves (request : ContextRequest) (state : ContextState) : Prop :=
  (request.maximum - state.documents.length) * (request.characters / request.maximum) ≤
    state.remaining

theorem ContextState.Reserves.step (hbalanced : request.recentDocuments.isSome)
    (h : state.Reserves request) (hstep : state.Step x snapshot request candidate state') :
    state'.Reserves request := by
  cases hstep with
  | pass bytes hroom => exact h
  | keep bytes raw text hopen hraw hpart hlength hwhole =>
      have hshare : text.length ≤ request.characters / request.maximum := by
        rw [ReadServices.allowance, if_pos hbalanced] at hlength
        exact hlength.trans (Nat.min_le_right _ _)
      obtain ⟨slots, hslots⟩ := Nat.exists_eq_add_of_lt hopen
      have hbefore : request.maximum - state.documents.length = slots + 1 := by omega
      unfold ContextState.Reserves at h ⊢
      rw [hbefore, Nat.add_mul, Nat.one_mul] at h
      simp only [List.length_append, List.length_singleton]
      rw [show request.maximum - (state.documents.length + 1) = slots by omega]
      omega

/-- A body within its share is kept whole. -/
theorem ContextState.Step.keeps_short (hbalanced : request.recentDocuments.isSome)
    (hshare : 0 < request.characters / request.maximum) (hreserves : state.Reserves request)
    (hstep : state.Step x snapshot request candidate state')
    (hopen : state.documents.length < request.maximum) {raw : List Char}
    (hraw : ReadServices.rawBody x snapshot candidate.1 = .ok raw)
    (hshort : raw.length ≤ request.characters / request.maximum) :
    ∃ document ∈ state'.documents, document.document = documentSummary candidate.1 ∧
      document.body = raw := by
  have hremaining : request.characters / request.maximum ≤ state.remaining := by
    refine le_trans ?_ hreserves
    exact Nat.le_mul_of_pos_left _ (by omega)
  have hallowance : ReadServices.allowance request state.remaining =
      request.characters / request.maximum := by
    rw [ReadServices.allowance, if_pos hbalanced, Nat.min_eq_right hremaining]
  cases hstep with
  | pass bytes hroom =>
      rcases hroom with hfull | hnone | ⟨other, hother, hlong⟩
      · omega
      · omega
      · rw [hraw] at hother
        cases hother
        omega
  | keep bytes other text hroom hother hpart hlength hwhole =>
      rw [hraw] at hother
      cases hother
      refine ⟨_, List.mem_append_right _ (List.mem_singleton_self _), rfl, ?_⟩
      exact hwhole (by omega)

end Run

/-! ### The context -/

section Selection

variable {x : Externals} {services : ReadServices} {snapshot : CommittedSnapshot}
  {request : ContextRequest} {state : ContextState}
  {candidates passed : List (DocumentRecord × ContextReason)}
  {kept : List (ContextDocument × DocumentRecord × ContextReason)}

theorem collected_run {lower : Lowercase} {fields : SearchMetadataFields}
    {index : Option SnippetIndex} (hcuts : services.backend.Cuts lower fields index)
    (h : candidates.foldlM (services.addCandidate x snapshot request)
      { remaining := request.characters } = .ok state) :
    ∃ kept passed, Collected x snapshot request.maximum candidates kept passed state := by
  induction candidates using List.reverseRecOn generalizing state with
  | nil =>
      obtain rfl := Except.ok.inj h
      exact ⟨[], [], .rfl, rfl, by simp, by simp, by simp⟩
  | append_singleton candidates last ih =>
      obtain ⟨before, hbefore, hlast⟩ := foldlM_append_eq_ok.1 h
      obtain ⟨after, hstep, hafter⟩ := foldlM_cons_eq_ok.1 hlast
      obtain rfl := Except.ok.inj hafter
      obtain ⟨kept, passed, hcollected⟩ := ih hbefore
      exact hcollected.step (addCandidate_step hcuts hstep)

theorem Collected.map_documents (h : Collected x snapshot request.maximum candidates kept passed state) :
    state.documents.map ContextDocument.document =
      (kept.map Prod.snd).map fun candidate => documentSummary candidate.1 := by
  rw [h.documents, List.map_map, List.map_map]
  exact List.map_congr_left fun pair hpair => (h.keeping pair hpair).summary

/-- What is returned comes from distinct candidates. -/
theorem Collected.ids (h : Collected x snapshot request.maximum candidates kept passed state)
    (hdistinct : (candidates.map candidateId).Nodup) :
    ((state.documents.map ContextDocument.document ++ state.additional).map
      fun summary => summary.metadata.documentId).Nodup := by
  have hsub : ((state.documents.map ContextDocument.document ++ state.additional).map
      fun summary => summary.metadata.documentId).Sublist
        ((kept.map Prod.snd ++ passed).map candidateId) := by
    rw [h.map_documents, h.additional, List.map_append, List.map_append,
      List.map_map (l := kept.map Prod.snd)]
    refine (List.Sublist.refl _).append ?_
    rw [← List.map_take, List.map_map]
    exact (List.take_sublist _ _).map _
  exact ((h.perm.map candidateId).nodup_iff.2 hdistinct).sublist hsub

theorem Collected.mem_summary
    (h : Collected x snapshot request.maximum candidates kept passed state)
    {summary : DocumentSummary}
    (hmem : summary ∈ state.documents.map ContextDocument.document ++ state.additional) :
    ∃ candidate ∈ candidates, summary = documentSummary candidate.1 := by
  have hall : ∀ candidate ∈ kept.map Prod.snd ++ passed, candidate ∈ candidates := fun _ => h.perm.mem_iff.1
  rw [h.map_documents, h.additional, List.mem_append] at hmem
  rcases hmem with hmem | hmem
  · obtain ⟨candidate, hcandidate, rfl⟩ := List.mem_map.1 hmem
    exact ⟨candidate, hall _ (List.mem_append_left _ hcandidate), rfl⟩
  · obtain ⟨candidate, hcandidate, rfl⟩ := List.mem_map.1 (List.mem_of_mem_take hmem)
    exact ⟨candidate, hall _ (List.mem_append_right _ hcandidate), rfl⟩

/-- The candidate was returned with its whole body. -/
def ReturnedWhole (x : Externals) (snapshot : CommittedSnapshot) (documents : List ContextDocument)
    (candidate : DocumentRecord × ContextReason) : Prop :=
  ∃ raw, ReadServices.rawBody x snapshot candidate.1 = .ok raw ∧
    ∃ document ∈ documents, document.document = documentSummary candidate.1 ∧ document.body = raw

/-- A document is returned for one candidate only. -/
theorem Collected.pair_of_summary
    (h : Collected x snapshot request.maximum candidates kept passed state)
    (hdistinct : (candidates.map candidateId).Nodup) {candidate : DocumentRecord × ContextReason}
    (hcandidate : candidate ∈ candidates) {document : ContextDocument}
    (hdocument : document ∈ state.documents)
    (hsummary : document.document = documentSummary candidate.1) :
    (document, candidate) ∈ kept := by
  rw [h.documents] at hdocument
  obtain ⟨⟨kept₁, kept₂⟩, hpair, rfl⟩ := List.mem_map.1 hdocument
  have hmem : kept₂ ∈ candidates :=
    h.perm.mem_iff.1 (List.mem_append_left _ (List.mem_map.2 ⟨_, hpair, rfl⟩))
  have hid : candidateId kept₂ = candidateId candidate := by
    have := congrArg (fun summary => summary.metadata.documentId)
      ((h.keeping _ hpair).summary.symm.trans hsummary)
    exact this
  rwa [← List.inj_on_of_nodup_map hdistinct hmem hcandidate hid]

theorem Collected.truncated_iff
    (h : Collected x snapshot request.maximum candidates kept passed state)
    (hdistinct : (candidates.map candidateId).Nodup) :
    state.truncated = false ↔
      ∀ candidate ∈ candidates, ReturnedWhole x snapshot state.documents candidate := by
  rw [h.truncated]
  constructor
  · rintro ⟨rfl, hwhole⟩ candidate hcandidate
    have hkept := h.perm.mem_iff.2 hcandidate
    rw [List.append_nil] at hkept
    obtain ⟨pair, hpair, rfl⟩ := List.mem_map.1 hkept
    obtain ⟨hsummary, raw, hraw, -, htruncated⟩ := h.keeping pair hpair
    have hdocument : pair.1 ∈ state.documents := h.documents ▸ List.mem_map.2 ⟨pair, hpair, rfl⟩
    rw [hwhole _ hdocument] at htruncated
    exact ⟨raw, hraw, pair.1, hdocument, hsummary, by simpa using htruncated.symm⟩
  · intro hall
    have hnodup : (kept.map Prod.snd ++ passed).Nodup :=
      List.Nodup.of_map candidateId ((h.perm.map candidateId).nodup_iff.2 hdistinct)
    constructor
    · refine List.eq_nil_iff_forall_not_mem.2 fun candidate hpassed => ?_
      have hcandidate := h.perm.mem_iff.1 (List.mem_append_right _ hpassed)
      obtain ⟨-, -, document, hdocument, hsummary, -⟩ := hall candidate hcandidate
      have hpair := h.pair_of_summary hdistinct hcandidate hdocument hsummary
      exact List.disjoint_of_nodup_append hnodup (List.mem_map.2 ⟨_, hpair, rfl⟩) hpassed
    · intro document hdocument
      rw [h.documents] at hdocument
      obtain ⟨pair, hpair, rfl⟩ := List.mem_map.1 hdocument
      have hcandidate := h.perm.mem_iff.1
        (List.mem_append_left _ (List.mem_map.2 ⟨pair, hpair, rfl⟩))
      obtain ⟨raw, hraw, other, hother, hsummary, hbody⟩ := hall pair.2 hcandidate
      have hsame := h.pair_of_summary hdistinct hcandidate hother hsummary
      have heq := List.inj_on_of_nodup_map hnodup.of_append_left hsame hpair rfl
      obtain ⟨-, raw', hraw', -, htruncated⟩ := h.keeping pair hpair
      rw [hraw] at hraw'
      cases hraw'
      rw [htruncated, ← heq, hbody]
      simp

/-- What a context promises. -/
structure ContextSelection (x : Externals) (services : ReadServices) (snapshot : CommittedSnapshot)
    (request : ContextRequest) (candidates : List (DocumentRecord × ContextReason))
    (documents : List ContextDocument) (additional : List DocumentSummary) (truncated : Bool) :
    Prop where
  characters : (documents.map fun document => document.body.length).sum ≤ request.characters
  documents_le : documents.length ≤ request.maximum
  additional_le : additional.length ≤ request.maximum
  distinct : ((documents.map ContextDocument.document ++ additional).map
    fun summary => summary.metadata.documentId).Nodup
  live : ∀ summary ∈ documents.map ContextDocument.document ++ additional,
    summary.metadata.status ≠ .deprecated ∧ summary.metadata.status ≠ .archived ∧
      summary.metadata.supersededBy = none
  parts : ∀ document ∈ documents, ∃ candidate ∈ candidates, ∃ raw,
    document.document = documentSummary candidate.1 ∧
      ReadServices.rawBody x snapshot candidate.1 = .ok raw ∧ document.body <:+: raw
  truncated_iff : truncated = false ↔
    ∀ candidate ∈ candidates, ReturnedWhole x snapshot documents candidate
  share : request.recentDocuments.isSome → ∀ document ∈ documents,
    document.body.length ≤ request.characters / request.maximum
  /-- A candidate that is examined with a document still to be selected, and is shorter than a
  share, is returned whole. -/
  short : request.recentDocuments.isSome → ∀ before candidate after state raw,
    candidates = before ++ candidate :: after →
    before.foldlM (services.addCandidate x snapshot request) { remaining := request.characters } =
      .ok state →
    state.documents.length < request.maximum →
    ReadServices.rawBody x snapshot candidate.1 = .ok raw →
    raw.length < request.characters / request.maximum →
    ReturnedWhole x snapshot documents candidate

theorem short_returned {lower : Lowercase} {fields : SearchMetadataFields}
    {index : Option SnippetIndex} (hcuts : services.backend.Cuts lower fields index)
    (hmaximum : 1 ≤ request.maximum) (hcharacters : request.maximum ≤ request.characters)
    (hbalanced : request.recentDocuments.isSome) {before after : List (DocumentRecord × ContextReason)}
    {candidate : DocumentRecord × ContextReason} {middle : ContextState} {raw : List Char}
    (hrun : (before ++ candidate :: after).foldlM (services.addCandidate x snapshot request)
      { remaining := request.characters } = .ok state)
    (hbefore : before.foldlM (services.addCandidate x snapshot request)
      { remaining := request.characters } = .ok middle)
    (hopen : middle.documents.length < request.maximum)
    (hraw : ReadServices.rawBody x snapshot candidate.1 = .ok raw)
    (hshort : raw.length ≤ request.characters / request.maximum) :
    ReturnedWhole x snapshot state.documents candidate := by
  have hshare : 0 < request.characters / request.maximum := Nat.div_pos hcharacters hmaximum
  have hreserves : middle.Reserves request := by
    refine foldlM_induction (P := fun state => state.Reserves request)
      (fun s c s' hs hstep => hs.step hbalanced (addCandidate_step hcuts hstep)) ?_ hbefore
    simpa [ContextState.Reserves] using Nat.mul_div_le _ _
  obtain ⟨r, hr, hrest⟩ := foldlM_append_eq_ok.1 hrun
  obtain rfl : r = middle := Except.ok.inj (hr.symm.trans hbefore)
  obtain ⟨next, hnext, hlater⟩ := foldlM_cons_eq_ok.1 hrest
  obtain ⟨document, hdocument, hsummary, hbody⟩ :=
    (addCandidate_step hcuts hnext).keeps_short hbalanced hshare hreserves hopen hraw hshort
  have hgrows : next.documents <+: state.documents :=
    foldlM_induction (P := fun state => next.documents <+: state.documents)
      (fun s c s' hs hstep => hs.trans (addCandidate_step hcuts hstep).documents_begin)
      List.prefix_rfl hlater
  exact ⟨raw, hraw, document, hgrows.subset hdocument, hsummary, hbody⟩

/-- A context keeps its budgets, and balanced contexts starve no document. -/
theorem context_selection {lower : Lowercase} {fields : SearchMetadataFields}
    {index : Option SnippetIndex} (hcuts : services.backend.Cuts lower fields index)
    (hmaximum : 1 ≤ request.maximum) (hcharacters : request.maximum ≤ request.characters)
    {inspection : Inspection} (h : services.context x snapshot request = .ok inspection) :
    ∃ candidates documents additional truncated,
      services.candidates snapshot request = .ok candidates ∧
      inspection = .context snapshot.commit documents additional truncated ∧
      ContextSelection x services snapshot request candidates documents additional truncated := by
  unfold ReadServices.context at h
  simp only [bind_eq_ok, pure_eq_ok, Except.ok.injEq] at h
  obtain ⟨candidates, hcandidates, state, hrun, rfl⟩ := h
  have hdistinct := nodup_candidates hcandidates
  obtain ⟨kept, passed, hcollected⟩ := collected_run hcuts hrun
  have hkeeps : state.Keeps request fun _ => True :=
    foldlM_induction (P := fun state => state.Keeps request fun _ => True)
      (fun s c s' hs hstep => addCandidate_keeps trivial hs hstep)
      ⟨by simp, by simp, by simp [ContextState.characters], by simp, by simp, by simp⟩ hrun
  refine ⟨candidates, _, _, _, hcandidates, rfl, ?_, hkeeps.documents_le, hkeeps.additional_le,
    hcollected.ids hdistinct, ?_, ?_, hcollected.truncated_iff hdistinct, hkeeps.balanced, ?_⟩
  · exact (Nat.le_add_right _ _).trans hkeeps.characters_le
  · intro summary hsummary
    obtain ⟨candidate, hcandidate, rfl⟩ := hcollected.mem_summary hsummary
    have heligible := eligible_candidates hcandidates candidate hcandidate
    simpa [eligible, documentSummary, and_assoc] using heligible
  · intro document hdocument
    rw [hcollected.documents] at hdocument
    obtain ⟨pair, hpair, rfl⟩ := List.mem_map.1 hdocument
    obtain ⟨hsummary, raw, hraw, hpart, -⟩ := hcollected.keeping pair hpair
    exact ⟨pair.2, hcollected.perm.mem_iff.1
      (List.mem_append_left _ (List.mem_map.2 ⟨pair, hpair, rfl⟩)), raw, hsummary, hraw, hpart⟩
  · rintro hbalanced before candidate after middle raw rfl hbefore hopen hraw hshort
    exact short_returned hcuts hmaximum hcharacters hbalanced hrun hbefore hopen hraw hshort.le

end Selection

namespace Sample

/-- A linear search whose ranking finds one document at most. -/
theorem first_distinct {snapshot : CommittedSnapshot} {_query : String} {filter : ReadFilter}
    {_maximum : Nat} {records : List DocumentRecord}
    (h : (.ok ((snapshot.selected filter).take 1) : Except GatewayError _) = .ok records) :
    (records.map fun record => record.metadata.documentId).Nodup := by
  obtain ⟨⟩ := h
  cases snapshot.selected filter <;> simp

theorem first_selected {snapshot : CommittedSnapshot} {_query : String} {filter : ReadFilter}
    {_maximum : Nat} {records : List DocumentRecord}
    (h : (.ok ((snapshot.selected filter).take 1) : Except GatewayError _) = .ok records) :
    ∀ record ∈ records, record ∈ snapshot.index.documents ∧ filter.matchesDocument record := by
  obtain ⟨⟩ := h
  exact fun record hrecord => mem_selected.1 (List.mem_of_mem_take hrecord)

def linearBackend : SearchBackend where
  openIndex _ := .ok ()
  rank snapshot _ filter _ := .ok ((snapshot.selected filter).take 1)
  excerpts := excerptsOf lowercase {} none
  rank_distinct := @first_distinct
  rank_selected := @first_selected
  excerpts_bounded h _ hexcerpt := (excerptsOf_parts h hexcerpt).1

def contextServices : ReadServices where
  settings := ⟨10, 100, 1000, 100, 1000, 10000⟩
  store := ⟨"c", "c", tree [], tree []⟩
  git := ⟨fun _ _ => true, fun _ => [], fun _ => tree []⟩
  backend := linearBackend
  normalize := id
  encodedLength _ := 500

def contextSnapshot : CommittedSnapshot where
  commit := "c"
  committed := tree []
  index := indexOf (externals moveAndAttach) {} (tree [])
  root := tree []
  maximumMarkdownBytes := 1000
  maximumBundleBytes := 1000
  maximumBundleEntries := 10

/-- A balanced context of two documents. -/
def contextRequest : ContextRequest := ⟨{}, some "d", 2, 200, some 1⟩

def Inspection.contextDocuments : Inspection → List ContextDocument
  | .context _ documents _ _ => documents
  | _ => []

theorem context_selection_sample :
    ∃ candidates documents additional truncated, documents ≠ [] ∧
      contextServices.context (externals moveAndAttach) contextSnapshot contextRequest =
        .ok (.context "c" documents additional truncated) ∧
      ContextSelection (externals moveAndAttach) contextServices contextSnapshot contextRequest
        candidates documents additional truncated := by
  obtain ⟨inspection, hcontext, hdocuments⟩ : ∃ inspection,
      contextServices.context (externals moveAndAttach) contextSnapshot contextRequest =
        .ok inspection ∧ Inspection.contextDocuments inspection ≠ [] :=
    exists_ok_of_any (by decide +kernel)
  have hcuts : contextServices.backend.Cuts lowercase {} none := fun _ _ _ _ => rfl
  obtain ⟨candidates, documents, additional, truncated, -, rfl, hselection⟩ :=
    context_selection hcuts (by decide) (by decide) hcontext
  exact ⟨candidates, documents, additional, truncated, hdocuments, hcontext, hselection⟩

end Sample

end AgentKnowledge
