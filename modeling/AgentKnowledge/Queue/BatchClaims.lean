import AgentKnowledge.Queue.Records
import AgentKnowledge.Queue.Selection
import Mathlib

/-!
What repeated calls of `claim_batch_through` and `claim_next_batch` achieve.

`batch_selection` is about the requests a batch takes: the earliest valid ones up to a
boundary, whatever the file system's order, the size of the pieces and the requests
that come in meanwhile. `damage_isolation` is about damaged directories: they end up in
`failed/` and do not keep the others from being claimed. Both have exceptions, and the
theorems say exactly which.
-/

namespace AgentKnowledge

open Results Durable

/-! ### The listings of a directory -/

section Listings

variable {q : QueueSetup} {b n : Nat} {s : QueueDisk} {listing listing' : List DirectoryEntry}

instance : Finite RequestId :=
  Finite.of_injective (fun id => (⟨id.ulid.value, id.ulid.bound⟩ : Fin (2 ^ 128))) <| by
    rintro ⟨⟨value, bound⟩⟩ ⟨⟨value', bound'⟩⟩ h
    cases h
    rfl

/-- Every directory has a listing. -/
theorem exists_lists (s : QueueDisk) : ∃ listing, Lists s listing := by
  let pending := (Set.toFinite { id | s.slot .pending id ≠ none }).toFinset.toList
  refine ⟨pending.map .request ++ (s.foreign .pending).map .foreign, fun id => ?_, ?_, fun detail => ?_⟩
  · simp [pending]
  · have hrequests : (pending.map DirectoryEntry.request).filterMap DirectoryEntry.requestId? =
        pending := by
      rw [List.filterMap_map]
      exact List.filterMap_some
    have hforeign : ((s.foreign .pending).map DirectoryEntry.foreign).filterMap
        DirectoryEntry.requestId? = [] := by
      rw [List.filterMap_map, List.filterMap_eq_nil_iff]
      exact fun _ _ => rfl
    rw [List.filterMap_append, hrequests, hforeign, List.append_nil]
    exact Finset.nodup_toList _
  · simp

theorem Lists.mem_candidates (h : Lists s listing) {candidate : PendingCandidate} :
    candidate ∈ listing.filterMap (candidateOf q b s) ↔ EligibleIn q b s candidate := by
  rw [List.mem_filterMap]
  constructor
  · rintro ⟨entry, -, hcandidate⟩
    exact (candidateOf_eq_some.1 hcandidate).2
  · intro heligible
    refine ⟨.request candidate.requestId, (h.requests _).2 ?_, candidateOf_eq_some.2 ⟨rfl, heligible⟩⟩
    obtain ⟨stored, hslot, -⟩ := heligible
    rw [hslot]
    simp

theorem Lists.nodup_candidates (h : Lists s listing) :
    (listing.filterMap (candidateOf q b s)).Nodup :=
  (h.once.sublist (filterMap_candidateOf_sublist q b s listing)).of_map

theorem Lists.eligible_eq (h : Lists s listing) : { candidate | EligibleIn q b s candidate } =
    ((listing.filterMap (candidateOf q b s)).toFinset : Set PendingCandidate) := by
  ext candidate
  rw [List.coe_toFinset, Set.mem_ofPred_eq, Set.mem_ofPred_eq]
  exact h.mem_candidates.symm

theorem Lists.ncard_eligible (h : Lists s listing) :
    { candidate | EligibleIn q b s candidate }.ncard =
      (listing.filterMap (candidateOf q b s)).length := by
  rw [h.eligible_eq, Set.ncard_coe_finset, List.toFinset_card_of_nodup h.nodup_candidates]

/-- The requests a scan of at most `n` requests takes. -/
def chosenFrom (q : QueueSetup) (b : Nat) (s : QueueDisk) (n : Nat) (listing : List DirectoryEntry) :
    List PendingCandidate :=
  Least.least PendingCandidate.Before n (listing.filterMap (candidateOf q b s))

/-- They do not depend on the order of the directory. -/
theorem Lists.chosenFrom_eq (h : Lists s listing) (h' : Lists s listing') :
    chosenFrom q b s n listing = chosenFrom q b s n listing' := by
  refine Least.least_perm _ ((List.perm_ext_iff_of_nodup h.nodup_candidates h'.nodup_candidates).2 ?_)
  intro candidate
  rw [h.mem_candidates, h'.mem_candidates]

end Listings

/-! ### The selection -/

/-- The `n` valid requests of `pending/` with the smallest sequences up to `b`, or all of
them if there are fewer, in the order of their sequences. -/
structure Earliest (q : QueueSetup) (b : Nat) (s : QueueDisk) (n : Nat)
    (chosen : List PendingCandidate) : Prop where
  eligible : ∀ candidate ∈ chosen, EligibleIn q b s candidate
  increasing : chosen.Pairwise fun earlier later => earlier.sequence < later.sequence
  length : chosen.length = min n { candidate | EligibleIn q b s candidate }.ncard
  least : ∀ candidate, EligibleIn q b s candidate → candidate ∉ chosen →
    ∀ other ∈ chosen, other.sequence < candidate.sequence

/-- No two valid requests up to `b` have the same sequence. -/
def SequencesDistinct (q : QueueSetup) (b : Nat) (s : QueueDisk) : Prop :=
  ∀ candidate other, EligibleIn q b s candidate → EligibleIn q b s other →
    candidate.sequence = other.sequence → candidate = other

section Earliest

variable {q : QueueSetup} {b n : Nat} {s : QueueDisk} {listing : List DirectoryEntry}

theorem PendingCandidate.Before.lt_of_ne {candidate other : PendingCandidate}
    (h : candidate.Before other) (hne : candidate.sequence ≠ other.sequence) :
    candidate.sequence < other.sequence := by
  unfold Before at h
  omega

theorem earliest_chosenFrom (hlists : Lists s listing) (hdistinct : SequencesDistinct q b s) :
    Earliest q b s n (chosenFrom q b s n listing) := by
  have heligible : ∀ candidate ∈ chosenFrom q b s n listing, EligibleIn q b s candidate :=
    fun candidate h => hlists.mem_candidates.1 (Least.mem_of_mem_least _ h)
  have hlt : ∀ candidate other, EligibleIn q b s candidate → EligibleIn q b s other →
      candidate ≠ other → candidate.Before other → candidate.sequence < other.sequence :=
    fun candidate other h h' hne hbefore =>
      hbefore.lt_of_ne fun heq => hne (hdistinct candidate other h h' heq)
  have hnodup : (chosenFrom q b s n listing).Nodup :=
    (Least.nodup_map_least (f := id) _ (by simpa using hlists.nodup_candidates)).of_map
  refine ⟨heligible, ?_, ?_, fun candidate hcandidate hout other hother => ?_⟩
  · refine (hnodup.and (Least.pairwise_least _)).imp_of_mem ?_
    rintro earlier later hearlier hlater ⟨hne, hbefore⟩
    exact hlt earlier later (heligible _ hearlier) (heligible _ hlater) hne hbefore
  · rw [hlists.ncard_eligible]
    exact Least.length_least _
  · rcases Least.mem_least_or PendingCandidate.Before (n := n)
        (hlists.mem_candidates.2 hcandidate) with hmem | ⟨-, hbefore⟩
    · exact absurd hmem hout
    · refine hlt other candidate (heligible _ hother) hcandidate ?_ (hbefore other hother)
      rintro rfl
      exact hout hother

/-! If more requests may be taken than there are entries, all valid ones are. -/

theorem Earliest.mem_of_length_lt {chosen : List PendingCandidate} (h : Earliest q b s n chosen)
    (hlists : Lists s listing) (hlength : listing.length < n) {candidate : PendingCandidate}
    (hcandidate : EligibleIn q b s candidate) : candidate ∈ chosen := by
  have hnodup : chosen.Nodup := h.increasing.imp fun hlt heq => by simp [heq] at hlt
  have hsubset : chosen.toFinset ⊆ (listing.filterMap (candidateOf q b s)).toFinset := by
    intro other hother
    exact List.mem_toFinset.2 (hlists.mem_candidates.2 (h.eligible _ (List.mem_toFinset.1 hother)))
  have hcard : (listing.filterMap (candidateOf q b s)).toFinset.card ≤ chosen.toFinset.card := by
    rw [List.toFinset_card_of_nodup hlists.nodup_candidates, List.toFinset_card_of_nodup hnodup,
      h.length, hlists.ncard_eligible]
    have hle := List.length_filterMap_le (candidateOf q b s) listing
    omega
  rw [← List.mem_toFinset, Finset.eq_of_subset_of_card_le hsubset hcard, List.mem_toFinset]
  exact hlists.mem_candidates.2 hcandidate

theorem Lists.mem_chosenFrom (hlists : Lists s listing) (hlength : listing.length < n)
    {candidate : PendingCandidate} (hcandidate : EligibleIn q b s candidate) :
    candidate ∈ chosenFrom q b s n listing := by
  rcases Least.mem_least_or PendingCandidate.Before (n := n)
      (hlists.mem_candidates.2 hcandidate) with hmem | ⟨hfull, -⟩
  · exact hmem
  · have hle := List.length_filterMap_le (candidateOf q b s) listing
    rw [Least.length_least] at hfull
    omega

end Earliest

/-! ### Repeated calls -/

/-- A queue whose Worker has no scan open. -/
def QueueWorld.idle (disk : QueueDisk) : QueueWorld := ⟨disk, ⟨none, none, true⟩⟩

/-- The moves acceptances make. -/
def Acceptances (q : QueueSetup) (move : QueueMove) : Prop :=
  ∀ w : QueueWorld, 0 < w.disk.nextSequence → Arrivals q w (move w)

/-- The run of at most `calls` more calls after the first. -/
def batchRun (q : QueueSetup) (call : ClaimBatchCall) (listing : List DirectoryEntry) (calls : Nat)
    (s : QueueDisk) (o : Oracle QueueMove IoSite) :
    Outcome QueueWorld QueueMove IoSite WorkerQueueError BatchClaimOutcome :=
  claimUntilDone q call listing calls (.idle s) o

/-- The queue after such a run. -/
def batchEnd (q : QueueSetup) (call : ClaimBatchCall) (listing : List DirectoryEntry) (calls : Nat)
    (s : QueueDisk) (o : Oracle QueueMove IoSite) : QueueDisk :=
  ((batchRun q call listing calls s o).last (.idle s)).disk

/-- `claim_batch_through(batch, b, chunk, n)`, with the times of its records. -/
def claimThrough (batchId : BatchId) (b chunk n : Nat) (clock : RequestId → OffsetDateTime) :
    ClaimBatchCall :=
  ⟨batchId, chunk, n, some b, clock⟩

/-- Whatever the order of the directory, the size of the pieces and the acceptances
meanwhile, calls up to `b` end and take the earliest `n` valid requests. -/
def SelectsEarliest (q : QueueSetup) (b : Nat) (s : QueueDisk) : Prop :=
  ∀ n, 0 < n → ∃ chosen, Earliest q b s n chosen ∧
    ∀ batchId clock chunk listing o, 0 < chunk → Lists s listing →
      Oracle.Obeys (fun _ => False) (Acceptances q) o →
      ∃ enough, ∀ calls, enough ≤ calls → ∃ claims failed,
        (batchRun q (claimThrough batchId b chunk n clock) listing calls s o).result =
          .ok (.claimed claims failed) ∧
        Selected q b batchId s chosen claims failed
          (batchEnd q (claimThrough batchId b chunk n clock) listing calls s o)

section Selection

variable {q : QueueSetup} {b : Nat} {s : QueueDisk} {listing : List DirectoryEntry}

theorem ScanPlan.begins_idle (p : ScanPlan) (listing : List DirectoryEntry) :
    p.Begins listing listing.length (.idle p.start) :=
  .inl ⟨rfl, ⟨rfl, rfl⟩, rfl, rfl⟩

/-- An undisturbed scan that ends has met nothing that blocks it. -/
theorem unblocked_of_ends {p : ScanPlan} {outcome : BatchClaimOutcome} {w : QueueWorld}
    (hlists : Lists p.start listing) (hlength : listing.length < p.call.maximumRequests)
    (hgrew : ¬ p.grew) (h : p.Ends listing outcome w) : Unblocked p.q p.boundary p.start := by
  obtain ⟨claims, failed, -, horder, moved, -, -, -, hdamaged, hunallocated, hevolved⟩ := h.selected
  have hlocated : ∀ id stored, p.start.slot .pending id = some stored → id ∈ moved →
      p.start.Located id .pending stored := by
    intro id stored hslot hmoved
    obtain ⟨other, code, time, hstart, -⟩ := hevolved.failed id hmoved
    cases hslot.symm.trans hstart.here
    exact hstart
  exact {
    foreign := h.passable.foreign
    attempts := h.passable.attempts
    results := h.passable.results
    damaged := fun id stored hslot hbad => hlocated id stored hslot (hdamaged id stored hslot hbad)
    unallocated := fun id stored sequence hslot hsequenced hnext => by
      refine hlocated id stored hslot (hunallocated id stored sequence hslot hsequenced ?_)
      rw [h.steady.resolve_left hgrew]
      exact hnext
    eligible := fun candidate hcandidate => by
      have hmem : candidate.requestId ∈ claims.map (·.token.requestId) := by
        rw [horder]
        exact List.mem_map_of_mem (hlists.mem_chosenFrom hlength hcandidate)
      obtain ⟨claim, hclaim, hid⟩ := List.mem_map.1 hmem
      obtain ⟨id, stored, previous, time, hvalid, hstart, -, htoken, -⟩ := hevolved.claimed claim hclaim
      rw [htoken] at hid
      exact ⟨stored, hid ▸ hstart⟩ }

/-- The scan of such calls. If `grew`, requests come in during it. -/
def ScanPlan.through (q : QueueSetup) (batchId : BatchId) (clock : RequestId → OffsetDateTime)
    {chunk n : Nat} (grew : Prop) (hchunk : 0 < chunk) (hn : 0 < n) (hb : b < s.nextSequence) :
    ScanPlan where
  q := q
  call := claimThrough batchId b chunk n clock
  boundary := b
  start := s
  grew := grew
  moving := grew
  entries := hchunk
  requests := hn
  bound := hb
  requested := .inl rfl

theorem selectsEarliest_of_unblocked (hb : b < s.nextSequence) (hunblocked : Unblocked q b s)
    (hdistinct : SequencesDistinct q b s) : SelectsEarliest q b s := by
  intro n hn
  obtain ⟨sample, hsample⟩ := exists_lists s
  refine ⟨chosenFrom q b s n sample, earliest_chosenFrom hsample hdistinct, ?_⟩
  intro batchId clock chunk listing o hchunk hlists ho
  let p := ScanPlan.through q batchId clock True hchunk hn hb
  have hadmits : p.Admits (Acceptances q) := fun move hmove => ⟨⟨trivial, trivial⟩, hmove⟩
  obtain ⟨enough, hsettled⟩ := claimUntilDone_spec hadmits hlists ho (p.begins_idle listing)
  refine ⟨enough, fun calls hcalls => ?_⟩
  rcases hsettled calls hcalls with ⟨outcome, hresult, hends⟩ | ⟨-, hblocked⟩
  · obtain ⟨claims, failed, rfl, hselected⟩ := hends.selected
    rw [hsample.chosenFrom_eq hlists]
    exact ⟨claims, failed, hresult, hselected⟩
  · exact absurd hunblocked hblocked

/-- Nothing blocks undisturbed calls for more requests than there are if they return. -/
theorem unblocked_of_returns (hb : b < s.nextSequence) (hlists : Lists s listing)
    (batchId : BatchId) (clock : RequestId → OffsetDateTime)
    (h : ∃ enough, ∀ calls, enough ≤ calls → ∃ outcome, (batchRun q
      (claimThrough batchId b 1 (listing.length + 1) clock) listing calls s .calm).result =
        .ok outcome) : Unblocked q b s := by
  obtain ⟨enough, h⟩ := h
  let p := ScanPlan.through q batchId clock False Nat.one_pos (Nat.succ_pos listing.length) hb
  have hadmits : p.Admits fun _ => False := by rintro move ⟨⟩
  obtain ⟨enough', hsettled⟩ := claimUntilDone_spec hadmits hlists Oracle.calm_obeys
    (p.begins_idle listing)
  obtain ⟨outcome, hresult⟩ := h (max enough enough') (le_max_left _ _)
  rcases hsettled (max enough enough') (le_max_right _ _) with ⟨outcome, -, hends⟩ | ⟨⟨e, herror⟩, -⟩
  · exact unblocked_of_ends hlists (Nat.lt_succ_self _) id hends
  · cases hresult.symm.trans herror

theorem unblocked_of_selectsEarliest (hb : b < s.nextSequence) (h : SelectsEarliest q b s) :
    Unblocked q b s := by
  obtain ⟨listing, hlists⟩ := exists_lists s
  obtain ⟨chosen, -, hruns⟩ := h (listing.length + 1) (Nat.succ_pos _)
  let batchId : BatchId := ⟨⟨0, by decide⟩⟩
  obtain ⟨enough, hresults⟩ := hruns batchId (fun _ => QueueSample.now) 1 listing .calm Nat.one_pos
    hlists Oracle.calm_obeys
  refine unblocked_of_returns hb hlists batchId (fun _ => QueueSample.now)
    ⟨enough, fun calls hcalls => ?_⟩
  obtain ⟨claims, failed, hresult, -⟩ := hresults calls hcalls
  exact ⟨_, hresult⟩

theorem distinct_of_selectsEarliest (h : SelectsEarliest q b s) : SequencesDistinct q b s := by
  intro candidate other hcandidate hother heq
  obtain ⟨listing, hlists⟩ := exists_lists s
  obtain ⟨chosen, hearliest, -⟩ := h (listing.length + 1) (Nat.succ_pos _)
  have hall : ∀ candidate, EligibleIn q b s candidate → candidate ∈ chosen := fun _ =>
    hearliest.mem_of_length_lt hlists (Nat.lt_succ_self _)
  have hnodup : (chosen.map (·.sequence)).Nodup :=
    List.pairwise_map.2 (hearliest.increasing.imp fun hlt => hlt.ne)
  exact List.inj_on_of_nodup_map hnodup (hall _ hcandidate) (hall _ hother) heq

/-- Batch selection. Calls up to an allocated boundary take the earliest valid requests
exactly if nothing in the directory blocks a scan and the sequences are distinct. -/
theorem batch_selection (hb : b < s.nextSequence) :
    SelectsEarliest q b s ↔ Unblocked q b s ∧ SequencesDistinct q b s := by
  constructor
  · intro h
    exact ⟨unblocked_of_selectsEarliest hb h, distinct_of_selectsEarliest h⟩
  · rintro ⟨hunblocked, hdistinct⟩
    exact selectsEarliest_of_unblocked hb hunblocked hdistinct

end Selection

/-! ### Damaged directories -/

/-- A directory that revalidates, with a sequence that was given out, and whose phase
record permits another attempt. -/
def Valid (q : QueueSetup) (s : QueueDisk) (id : RequestId) (stored : StoredPackage) : Prop :=
  (∃ sequence < s.nextSequence, Sequenced q id stored sequence) ∧ Permits q id stored

/-- What a scan has made of the pending directories of `s`. -/
structure Isolated (q : QueueSetup) (b n : Nat) (s : QueueDisk) (claims : List QueueClaim)
    (s' : QueueDisk) : Prop where
  failed : ∀ id stored, s.slot .pending id = some stored → ¬ Valid q s id stored →
    (s'.slot .failed id).isSome ∧ ∃ errorCode failedAt,
      (statusUntil q.x id s').result = .ok (some (.failed errorCode failedAt))
  valid : ∀ id stored, s.slot .pending id = some stored → Valid q s id stored →
    id ∈ claims.map (·.token.requestId) ∨ s'.Located id .pending stored
  claimed : claims.length = n ∨
    ∀ candidate, EligibleIn q b s candidate → candidate.requestId ∈ claims.map (·.token.requestId)

/-- `claim_batch_through` up to `b`, or `claim_next_batch` if `b` was allocated last. -/
def ClaimBatchCall.Reaches (call : ClaimBatchCall) (b : Nat) (s : QueueDisk) : Prop :=
  call.requestedMaximumSequence = some b ∨
    call.requestedMaximumSequence = none ∧ b + 1 = s.nextSequence

/-- Calls up to `b` end, whatever the directories hold: the invalid ones are in `failed/`
with a status, and the valid ones are claimed or left alone. -/
def IsolatesDamage (q : QueueSetup) (b : Nat) (s : QueueDisk) : Prop :=
  ∀ call listing o, 0 < call.maximumScanEntries → 0 < call.maximumRequests → call.Reaches b s →
    Lists s listing → Oracle.Obeys (fun _ => False) (fun _ => False) o →
    ∃ enough, ∀ calls, enough ≤ calls → ∃ claims failed,
      (batchRun q call listing calls s o).result = .ok (.claimed claims failed) ∧
      Isolated q b call.maximumRequests s claims (batchEnd q call listing calls s o)

/-- The directories damage of which cannot be isolated are absent: valid requests without
attempts left, damaged directories with a `result.json` that is no regular file, and
requests past the boundary, at which a scan does not look, with a bad phase record. -/
structure Isolable (q : QueueSetup) (b : Nat) (s : QueueDisk) : Prop where
  attempts : ∀ id stored, s.slot .pending id = some stored → ¬ Exhausted q b id stored
  results : ∀ id stored, s.slot .pending id = some stored → Damaged q b id stored →
    stored.result ≠ some .other
  later : ∀ id stored sequence, s.slot .pending id = some stored → Sequenced q id stored sequence →
    b < sequence → sequence < s.nextSequence → Permits q id stored

section Isolation

variable {q : QueueSetup} {b : Nat} {s s' : QueueDisk} {listing : List DirectoryEntry}
  {id : RequestId} {stored : StoredPackage}

theorem FailedSince.status {batchId : BatchId} (h : FailedSince q batchId s s' id) :
    (s'.slot .failed id).isSome ∧ ∃ errorCode failedAt,
      (statusUntil q.x id s').result = .ok (some (.failed errorCode failedAt)) := by
  obtain ⟨stored, code, time, -, hlocated⟩ := h
  refine ⟨by rw [hlocated.here]; rfl, code, time, ?_⟩
  have hstatus : (readFailedStatus q.x (stored.withResult q.x (resultRecord id batchId code time))
      id).result = .ok (.failed code time) :=
    readFailedStatus_eq_ok.2 ⟨_, hasResult_withResult, by simp [WorkerResultRecord.isFailureOf,
      resultRecord], rfl⟩
  rw [statusUntil_of_located hlocated, statusIn, hstatus]
  rfl

/-- An invalid directory is rejected by a scan that can isolate it. -/
theorem Isolable.invalid (h : Isolable q b s) (hslot : s.slot .pending id = some stored)
    (hinvalid : ¬ Valid q s id stored) :
    Damaged q b id stored ∨ ∃ sequence, Sequenced q id stored sequence ∧ s.nextSequence ≤ sequence := by
  by_cases hsequenced : ∃ sequence, Sequenced q id stored sequence
  · obtain ⟨sequence, hsequenced⟩ := hsequenced
    by_cases hnext : s.nextSequence ≤ sequence
    · exact .inr ⟨sequence, hsequenced, hnext⟩
    · have hpermits : ¬ Permits q id stored := fun hpermits =>
        hinvalid ⟨⟨sequence, Nat.lt_of_not_le hnext, hsequenced⟩, hpermits⟩
      have hbound : sequence ≤ b := by
        by_contra hlater
        exact hpermits (h.later id stored sequence hslot hsequenced (by omega) (by omega))
      refine .inl (.inr ⟨sequence, hbound, hsequenced, fun previous hprevious => ?_⟩)
      by_cases hroom : previous + 1 < 2 ^ 32
      · exact hpermits ⟨previous, hprevious, hroom⟩
      · exact h.attempts id stored hslot
          ⟨sequence, hbound, hsequenced, previous, hprevious, Nat.le_of_not_lt hroom⟩
  · exact .inl (.inl fun sequence hsequence => hsequenced ⟨sequence, hsequence⟩)

/-- A scan rejects no valid directory. -/
theorem Valid.not_rejected (h : Valid q s id stored) (hslot : s.slot .pending id = some stored) :
    ¬ Rejected q b s id := by
  obtain ⟨⟨sequence, hnext, hsequenced⟩, previous, hprevious, -⟩ := h
  rintro ⟨other, hother, (hnone | ⟨_, -, -, hnone⟩) | ⟨sequence', hsequenced', hnext'⟩⟩ <;>
    cases hslot.symm.trans hother
  · exact hnone _ hsequenced
  · exact hnone _ hprevious
  · rw [hsequenced.unique hsequenced'] at hnext
    omega

/-- The scan of an undisturbed run of calls. -/
def ScanPlan.undisturbed (q : QueueSetup) (call : ClaimBatchCall) (hchunk : 0 < call.maximumScanEntries)
    (hn : 0 < call.maximumRequests) (hb : b < s.nextSequence) (hreaches : call.Reaches b s) :
    ScanPlan where
  q := q
  call := call
  boundary := b
  start := s
  grew := False
  moving := False
  entries := hchunk
  requests := hn
  bound := hb
  requested := hreaches

/-- What undisturbed calls have done when they return. -/
theorem selected_of_unblocked {call : ClaimBatchCall} {o : Oracle QueueMove IoSite}
    (hb : b < s.nextSequence) (hunblocked : Unblocked q b s) (hchunk : 0 < call.maximumScanEntries)
    (hn : 0 < call.maximumRequests) (hreaches : call.Reaches b s) (hlists : Lists s listing)
    (ho : Oracle.Obeys (fun _ => False) (fun _ => False) o) :
    ∃ enough, ∀ calls, enough ≤ calls → ∃ claims failed,
      (batchRun q call listing calls s o).result = .ok (.claimed claims failed) ∧
      Selected q b call.batchId s (chosenFrom q b s call.maximumRequests listing) claims failed
        (batchEnd q call listing calls s o) ∧
      (batchEnd q call listing calls s o).nextSequence = s.nextSequence := by
  let p := ScanPlan.undisturbed q call hchunk hn hb hreaches
  have hadmits : p.Admits fun _ => False := by rintro move ⟨⟩
  obtain ⟨enough, hsettled⟩ := claimUntilDone_spec hadmits hlists ho (p.begins_idle listing)
  refine ⟨enough, fun calls hcalls => ?_⟩
  rcases hsettled calls hcalls with ⟨outcome, hresult, hends⟩ | ⟨-, hblocked⟩
  · obtain ⟨claims, failed, rfl, hselected⟩ := hends.selected
    exact ⟨claims, failed, hresult, hselected, hends.steady.resolve_left id⟩
  · exact absurd hunblocked hblocked

theorem isolated_of_selected {batchId : BatchId} {n failed : Nat} {claims : List QueueClaim}
    (hsingle : ∀ id stored, s.slot .pending id = some stored → s.Located id .pending stored)
    (hlists : Lists s listing) (h : Isolable q b s)
    (hselected : Selected q b batchId s (chosenFrom q b s n listing) claims failed s')
    (hsteady : s'.nextSequence = s.nextSequence) : Isolated q b n s claims s' := by
  obtain ⟨horder, moved, -, -, hrejected, hdamaged, hunallocated, hevolved⟩ := hselected
  refine ⟨fun id stored hslot hinvalid => ?_, fun id stored hslot hvalid => ?_, ?_⟩
  · have hmoved : id ∈ moved := by
      rcases h.invalid hslot hinvalid with hbad | ⟨sequence, hsequenced, hnext⟩
      · exact hdamaged id stored hslot hbad
      · exact hunallocated id stored sequence hslot hsequenced (hsteady ▸ hnext)
    exact (hevolved.failed id hmoved).status
  · by_cases hclaimed : id ∈ claims.map (·.token.requestId)
    · exact .inl hclaimed
    · have hlocated := hsingle id stored hslot
      have hmoved : id ∉ moved := fun hmoved => hvalid.not_rejected hslot (hrejected id hmoved)
      exact .inr (hlocated.congr (hevolved.kept id hlocated.not_absent hmoved hclaimed))
  · have hlength : claims.length = (chosenFrom q b s n listing).length := by
      simpa using congrArg List.length horder
    by_cases hfull : (chosenFrom q b s n listing).length = n
    · exact .inl (hlength.trans hfull)
    · refine .inr fun candidate hcandidate => ?_
      rw [horder]
      rcases Least.mem_least_or PendingCandidate.Before (n := n)
          (hlists.mem_candidates.2 hcandidate) with hmem | ⟨hlength, -⟩
      · exact List.mem_map_of_mem hmem
      · exact absurd hlength hfull

theorem isolatesDamage_of_isolable (hb : b < s.nextSequence) (hforeign : s.foreign .pending = [])
    (hsingle : ∀ id stored, s.slot .pending id = some stored → s.Located id .pending stored)
    (h : Isolable q b s) : IsolatesDamage q b s := by
  intro call listing o hchunk hn hreaches hlists ho
  have hunblocked : Unblocked q b s := {
    foreign := hforeign
    attempts := h.attempts
    results := h.results
    damaged := fun id stored hslot _ => hsingle id stored hslot
    unallocated := fun id stored sequence hslot _ _ => hsingle id stored hslot
    eligible := fun candidate ⟨stored, hslot, _⟩ => ⟨stored, hsingle _ stored hslot⟩ }
  obtain ⟨enough, hruns⟩ := selected_of_unblocked hb hunblocked hchunk hn hreaches hlists ho
  refine ⟨enough, fun calls hcalls => ?_⟩
  obtain ⟨claims, failed, hresult, hselected, hsteady⟩ := hruns calls hcalls
  exact ⟨claims, failed, hresult, isolated_of_selected hsingle hlists h hselected hsteady⟩

theorem isolable_of_isolatesDamage (hb : b < s.nextSequence)
    (hsingle : ∀ id stored, s.slot .pending id = some stored → s.Located id .pending stored)
    (h : IsolatesDamage q b s) : Isolable q b s := by
  obtain ⟨listing, hlists⟩ := exists_lists s
  let call := claimThrough ⟨⟨0, by decide⟩⟩ b 1 1 fun _ => QueueSample.now
  let p := ScanPlan.undisturbed q call Nat.one_pos Nat.one_pos hb (.inl rfl)
  have hadmits : p.Admits fun _ => False := by rintro move ⟨⟩
  obtain ⟨enough, hresults⟩ :=
    h call listing .calm Nat.one_pos Nat.one_pos (.inl rfl) hlists Oracle.calm_obeys
  obtain ⟨enough', hsettled⟩ := claimUntilDone_spec hadmits hlists Oracle.calm_obeys
    (p.begins_idle listing)
  obtain ⟨claims, failed, hresult, hisolated⟩ := hresults (max enough enough') (le_max_left _ _)
  rcases hsettled (max enough enough') (le_max_right _ _) with
    ⟨outcome, houtcome, hends⟩ | ⟨⟨e, herror⟩, -⟩
  · refine ⟨hends.passable.attempts, hends.passable.results,
      fun id stored sequence hslot hsequenced hlater hnext => ?_⟩
    -- A request past the boundary stays where it is, so it must have been valid.
    by_contra hpermits
    obtain ⟨-, code, time, hstatus⟩ := hisolated.failed id stored hslot fun hvalid => hpermits hvalid.2
    obtain ⟨claims', failed', rfl, horder, moved, -, -, hrejected, -, -, hevolved⟩ := hends.selected
    have hmoved : id ∉ moved := by
      intro hmoved
      obtain ⟨other, hother, (hnone | ⟨sequence', hbound, hsequenced', -⟩) |
        ⟨sequence', hsequenced', hnext'⟩⟩ := hrejected id hmoved <;> cases hslot.symm.trans hother
      · exact hnone _ hsequenced
      · rw [hsequenced.unique hsequenced'] at hlater
        exact absurd hlater (Nat.not_lt_of_le hbound)
      · rw [hsequenced.unique hsequenced'] at hnext
        exact absurd hnext' (Nat.not_le_of_lt hnext)
    have hclaimed : id ∉ claims'.map (·.token.requestId) := by
      rw [horder]
      intro hmem
      obtain ⟨candidate, hcandidate, rfl⟩ := List.mem_map.1 hmem
      obtain ⟨other, hother, heligible⟩ := p.chosen_eligible hcandidate
      cases hslot.symm.trans hother
      have hbound := heligible.bound
      rw [heligible.sequenced.unique hsequenced] at hbound
      exact absurd hlater (Nat.not_lt_of_le hbound)
    have hlocated := hsingle id stored hslot
    have hkept := hlocated.congr (hevolved.kept id hlocated.not_absent hmoved hclaimed)
    have hpending := (statusUntil_of_located (x := q.x) hkept).symm.trans hstatus
    cases hpending
  · cases hresult.symm.trans herror

/-- Damage isolation. If all entries are request directories, each the only one of its
request, then calls up to an allocated boundary isolate what is damaged exactly if the
exceptions of `Isolable` are absent. -/
theorem damage_isolation (hb : b < s.nextSequence) (hforeign : s.foreign .pending = [])
    (hsingle : ∀ id stored, s.slot .pending id = some stored → s.Located id .pending stored) :
    IsolatesDamage q b s ↔ Isolable q b s := by
  constructor
  · exact isolable_of_isolatesDamage hb hsingle
  · exact isolatesDamage_of_isolable hb hforeign hsingle

end Isolation

/-! ### Samples -/

namespace QueueSample

/-- The queue after these uploads. -/
def acceptAll (numbers : List (Fin 8)) : QueueDisk :=
  numbers.foldl (fun s number => ((accept setup (upload number)).calmly s).1.getLastD s) .empty

/-- The package of the first or second of two accepted requests. -/
def acceptedPackage (number : Fin 8) : StoredPackage :=
  ((acceptAll [1, 2]).slot .pending (requestId number)).getD (staged number)

/-- A queue with these entries in `pending/` only. -/
def pendingOnly (next : Nat) (entries : List (RequestId × StoredPackage)) : QueueDisk where
  slot state id := if state = .pending then entries.lookup id else none
  foreign _ := []
  nextSequence := next

def listing (entries : List (RequestId × StoredPackage)) : List DirectoryEntry :=
  entries.map fun entry => .request entry.1

section PendingOnly

variable {q : QueueSetup} {b next : Nat} {entries : List (RequestId × StoredPackage)} {id : RequestId}
  {stored : StoredPackage}

theorem located_pendingOnly (h : (pendingOnly next entries).slot .pending id = some stored) :
    (pendingOnly next entries).Located id .pending stored where
  here := h
  only _ hother := if_neg hother

theorem mem_of_pendingOnly (h : (pendingOnly next entries).slot .pending id = some stored) :
    (id, stored) ∈ entries := by
  obtain ⟨before, after, rfl, -⟩ := List.lookup_eq_some_iff.1 h
  simp

theorem lists_pendingOnly (h : (entries.map (·.1)).Nodup) :
    Lists (pendingOnly next entries) (listing entries) where
  requests id := by
    have hslot : (pendingOnly next entries).slot .pending id = entries.lookup id := rfl
    rw [hslot, ne_eq, List.lookup_eq_none_iff]
    simp only [listing, List.mem_map, DirectoryEntry.request.injEq, Prod.exists, Prod.forall,
      bne_iff_ne, ne_eq, not_forall, not_not]
    constructor
    · rintro ⟨id, stored, hmem, rfl⟩
      exact ⟨id, stored, hmem, rfl⟩
    · rintro ⟨id, stored, hmem, rfl⟩
      exact ⟨_, stored, hmem, rfl⟩
  once := by
    have hids : (listing entries).filterMap DirectoryEntry.requestId? = entries.map (·.1) := by
      rw [listing, List.filterMap_map]
      exact congrFun (List.filterMap_eq_map (f := Prod.fst)) entries
    rw [hids]
    exact h
  foreign detail := by simp [listing, pendingOnly]

/-- Whether a scan gets past an entry: it is valid, or damaged and can be moved. -/
def passes (q : QueueSetup) (b : Nat) (s : QueueDisk) (entry : RequestId × StoredPackage) : Bool :=
  (candidateOf q b s (.request entry.1)).isSome ||
    (!(inspectPackage q entry.1 s).result.isOk && entry.2.result.isNone)

theorem unblocked_pendingOnly (h : entries.all (passes q b (pendingOnly next entries))) :
    Unblocked q b (pendingOnly next entries) := by
  have hpasses : ∀ id stored, (pendingOnly next entries).slot .pending id = some stored →
      ¬ Exhausted q b id stored ∧ (Damaged q b id stored → stored.result ≠ some .other) := by
    intro id stored hslot
    have hentry := List.all_eq_true.1 h _ (mem_of_pendingOnly hslot)
    simp only [passes, Bool.or_eq_true, Bool.and_eq_true, Bool.not_eq_true', Option.isSome_iff_exists,
      Option.isNone_iff_eq_none] at hentry
    rcases hentry with ⟨candidate, hcandidate⟩ | ⟨hpackage, hresult⟩
    · obtain ⟨hid, other, hother, heligible⟩ := candidateOf_eq_some.1 hcandidate
      cases hid
      cases hslot.symm.trans hother
      exact ⟨heligible.not_exhausted, fun hdamaged => absurd hdamaged heligible.not_damaged⟩
    · refine ⟨?_, fun _ => by rw [hresult]; simp⟩
      rintro ⟨sequence, -, hsequenced, -⟩
      rw [(inspectPackage_eq_ok hslot).2 hsequenced] at hpackage
      cases hpackage
  exact {
    foreign := rfl
    attempts := fun id stored hslot => (hpasses id stored hslot).1
    results := fun id stored hslot => (hpasses id stored hslot).2
    damaged := fun id stored hslot _ => located_pendingOnly hslot
    unallocated := fun id stored sequence hslot _ _ => located_pendingOnly hslot
    eligible := fun candidate ⟨stored, hslot, _⟩ => ⟨stored, located_pendingOnly hslot⟩ }

theorem distinct_pendingOnly
    (h : ((listing entries).filterMap (candidateOf q b (pendingOnly next entries))).map
      (·.sequence) |>.Nodup) :
    SequencesDistinct q b (pendingOnly next entries) := by
  have hmem : ∀ candidate, EligibleIn q b (pendingOnly next entries) candidate →
      candidate ∈ (listing entries).filterMap (candidateOf q b (pendingOnly next entries)) := by
    rintro candidate ⟨stored, hslot, heligible⟩
    refine List.mem_filterMap.2 ⟨.request candidate.requestId, ?_,
      candidateOf_eq_some.2 ⟨rfl, stored, hslot, heligible⟩⟩
    exact List.mem_map.2 ⟨_, mem_of_pendingOnly hslot, rfl⟩
  exact fun candidate other hcandidate hother =>
    List.inj_on_of_nodup_map h (hmem _ hcandidate) (hmem _ hother)

end PendingOnly

def damaged : StoredPackage := ⟨none, none, none, none, none, none, []⟩

/-- Two requests and an empty directory between them. -/
def selection : List (RequestId × StoredPackage) :=
  [(requestId 2, acceptedPackage 2), (requestId 3, damaged), (requestId 1, acceptedPackage 1)]

/-- A request that has been claimed as often as an attempt counter can tell. -/
def exhausted : StoredPackage :=
  (acceptedPackage 1).withPhase setup.x
    (phaseRecord (requestId 1) (batchId 1) (2 ^ 32 - 1) now (by decide))

def exhaustion : List (RequestId × StoredPackage) :=
  [(requestId 1, exhausted), (requestId 2, acceptedPackage 2)]

theorem batch_selection_sample :
    2 < (pendingOnly 3 selection).nextSequence ∧ SelectsEarliest setup 2 (pendingOnly 3 selection) :=
  ⟨by decide, (batch_selection (by decide)).2
    ⟨unblocked_pendingOnly (by decide +kernel), distinct_pendingOnly (by decide +kernel)⟩⟩

/-- One request without attempts left keeps every call from claiming anything. -/
theorem selection_exhausted :
    2 < (pendingOnly 3 exhaustion).nextSequence ∧
      (∀ calls, (batchRun setup (claimThrough (batchId 1) 2 1 2 fun _ => now) (listing exhaustion) calls
        (pendingOnly 3 exhaustion) .calm).result = .error (.attemptExhausted (requestId 1))) ∧
      ¬ SelectsEarliest setup 2 (pendingOnly 3 exhaustion) := by
  have hcall : ∀ calls, (batchRun setup (claimThrough (batchId 1) 2 1 2 fun _ => now)
      (listing exhaustion) calls (pendingOnly 3 exhaustion) .calm).result =
        .error (.attemptExhausted (requestId 1)) :=
    claimUntilDone_of_error (by decide +kernel)
  refine ⟨by decide, hcall, fun h => ?_⟩
  obtain ⟨chosen, -, hruns⟩ := h 2 (by decide)
  obtain ⟨enough, hresults⟩ := hruns (batchId 1) (fun _ => now) 1 (listing exhaustion) .calm
    Nat.one_pos (lists_pendingOnly (by decide)) Oracle.calm_obeys
  obtain ⟨claims, failed, hresult, -⟩ := hresults enough le_rfl
  cases (hcall enough).symm.trans hresult

theorem isolable_selection : Isolable setup 2 (pendingOnly 3 selection) := by
  have hunblocked : Unblocked setup 2 (pendingOnly 3 selection) :=
    unblocked_pendingOnly (by decide +kernel)
  exact ⟨hunblocked.attempts, hunblocked.results, fun _ _ _ _ _ hlater hnext =>
    absurd hlater (Nat.not_lt.2 (Nat.le_of_lt_succ hnext))⟩

theorem damage_isolation_sample : IsolatesDamage setup 2 (pendingOnly 3 selection) :=
  (damage_isolation (by decide) rfl fun _ _ => located_pendingOnly).2 isolable_selection

/-- A damaged directory in which `result.json` is a directory. -/
def immovable : List (RequestId × StoredPackage) :=
  [(requestId 3, { damaged with result := some .other }), (requestId 2, acceptedPackage 2)]

/-- Neither a request without attempts left nor a damaged directory that cannot hold a
result record is moved to `failed/`, and the request beside it is not claimed. -/
theorem isolation_fails :
    (∀ calls, (batchRun setup (claimThrough (batchId 1) 2 1 2 fun _ => now) (listing exhaustion) calls
      (pendingOnly 3 exhaustion) .calm).result = .error (.attemptExhausted (requestId 1))) ∧
    ¬ IsolatesDamage setup 2 (pendingOnly 3 exhaustion) ∧
    (∀ calls, (batchRun setup (claimThrough (batchId 1) 2 1 2 fun _ => now) (listing immovable) calls
      (pendingOnly 3 immovable) .calm).result =
        .error (.corruptState (requestId 3) .pending "result metadata is not a regular file")) ∧
    ¬ IsolatesDamage setup 2 (pendingOnly 3 immovable) := by
  have hfails : ∀ {entries e}, (entries.map (·.1)).Nodup →
      (∀ calls, (batchRun setup (claimThrough (batchId 1) 2 1 2 fun _ => now) (listing entries) calls
        (pendingOnly 3 entries) .calm).result = .error e) →
      ¬ IsolatesDamage setup 2 (pendingOnly 3 entries) := by
    intro entries e hnodup hcall h
    obtain ⟨enough, hresults⟩ := h (claimThrough (batchId 1) 2 1 2 fun _ => now) (listing entries)
      .calm Nat.one_pos (by decide) (.inl rfl) (lists_pendingOnly hnodup) Oracle.calm_obeys
    obtain ⟨claims, failed, hresult, -⟩ := hresults enough le_rfl
    cases (hcall enough).symm.trans hresult
  have hexhausted : ∀ calls, (batchRun setup (claimThrough (batchId 1) 2 1 2 fun _ => now)
      (listing exhaustion) calls (pendingOnly 3 exhaustion) .calm).result =
        .error (.attemptExhausted (requestId 1)) :=
    claimUntilDone_of_error (by decide +kernel)
  have himmovable : ∀ calls, (batchRun setup (claimThrough (batchId 1) 2 1 2 fun _ => now)
      (listing immovable) calls (pendingOnly 3 immovable) .calm).result =
        .error (.corruptState (requestId 3) .pending "result metadata is not a regular file") :=
    claimUntilDone_of_error (by decide +kernel)
  exact ⟨hexhausted, hfails (by decide) hexhausted, himmovable, hfails (by decide) himmovable⟩

end QueueSample

end AgentKnowledge
