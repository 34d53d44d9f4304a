import AgentKnowledge.Queue.Invariant
import Mathlib

/-!
The status of a request while the queue goes on.

`status_until` takes no lock. It looks into the state directories one after the other, so between
two looks the request can be renamed, and one pass over the directories can find it in none, in one
or in two of them. A pass during which it stays where it is finds exactly that place
(`seen_of_still`). A pass that does not find one place is repeated, at most three passes in all, and
each repetition takes a rename: with at most two renames some pass answers (`statusDuring_sound`).
-/

namespace AgentKnowledge

open Results Durable

/-! ### The reader -/

/-- A look into one state directory: the look at `access` finds `view access`. -/
def lookInto (view : Nat → QueueDisk) (id : RequestId) (access : Nat) (observed : List QueueState)
    (look : QueueState × Nat) : QueueReading (List QueueState) := do
  .call .deadline .operationDeadlineExceeded
  .call .findExisting .io
  match (view (access + look.2)).slot look.1 id with
  | none => pure observed
  | some _ => pure (observed ++ [look.1])

/-- `observe_states`, with the disk at each look. -/
def observeStatesFrom (view : Nat → QueueDisk) (id : RequestId) (access : Nat) :
    QueueReading (List QueueState) :=
  QueueState.all.zipIdx.foldlM (lookInto view id access) []

/-- `observe_single_state_until`, with the attempts that are left. It also returns the next look. -/
def observeSingleStateFrom (view : Nat → QueueDisk) (id : RequestId) :
    Nat → Nat → QueueReading (Option (QueueState × Nat))
  | 0, _ => .lift (.error (.requestInMultipleStates id))
  | attempts + 1, access => do
      let next := access + QueueState.all.length
      match ← observeStatesFrom view id access with
      | [found] => pure (some (found, next))
      | [] =>
          if attempts = 0 then pure none
          else do
            .call .deadline .operationDeadlineExceeded
            observeSingleStateFrom view id attempts next
      | _ => do
          .call .deadline .operationDeadlineExceeded
          observeSingleStateFrom view id attempts next

/-- What an open request directory holds, wherever renames have taken it since. -/
def QueueDisk.opened (disk : QueueDisk) (id : RequestId) : Option StoredPackage :=
  QueueState.all.findSome? fun state => disk.slot state id

/-- `read_failed_status`, through the handle of the directory. -/
def readFailedStatusOf (x : QueueExternals) (disk : QueueDisk) (id : RequestId) :
    QueueReading QueueRequestStatus :=
  match disk.opened id with
  | some stored => readFailedStatus x stored id
  | none => do
      .call .resultRecord .io
      .lift (.error (.corruptState id .failed "failed request is missing result metadata"))

/-- The status in an observed state, for a request whose directory is open. -/
def statusOf (x : QueueExternals) (id : RequestId) (state : QueueState) (disk : QueueDisk) :
    QueueReading QueueRequestStatus :=
  match state with
  | .pending => pure .pending
  | .processing => pure .processing
  | .completed => pure .completed
  | .failed => readFailedStatusOf x disk id

/-- `status_until` over a queue that changes between the looks. -/
def statusDuring (x : QueueExternals) (id : RequestId) (view : Nat → QueueDisk) :
    QueueReading (Option QueueRequestStatus) := do
  .call .deadline .operationDeadlineExceeded
  .call .queueIdentity .io
  match ← observeSingleStateFrom view id maximumStateObservationAttempts 0 with
  | none => do
      .call .queueIdentity .io
      .call .deadline .operationDeadlineExceeded
      pure none
  | some (state, next) => do
      let status ← statusOf x id state (view next)
      .call .queueIdentity .io
      .call .deadline .operationDeadlineExceeded
      pure (some status)

/-! ### One pass -/

/-- What one pass finds. -/
def seen (view : Nat → QueueDisk) (id : RequestId) (access : Nat) : List QueueState :=
  (QueueState.all.zipIdx.filter fun look =>
    ((view (access + look.2)).slot look.1 id).isSome).map Prod.fst

section Pass

variable {view : Nat → QueueDisk} {id : RequestId} {access : Nat} {state : QueueState}

theorem lookInto_result {observed : List QueueState} {look : QueueState × Nat} :
    (lookInto view id access observed look).result =
      .ok (if ((view (access + look.2)).slot look.1 id).isSome then observed ++ [look.1]
        else observed) := by
  unfold lookInto
  cases (view (access + look.2)).slot look.1 id <;> simp

theorem observeStatesFrom_result :
    (observeStatesFrom view id access).result = .ok (seen view id access) := by
  have hfold : ∀ (looks : List (QueueState × Nat)) (observed : List QueueState),
      looks.foldlM (fun observed look => (lookInto view id access observed look).result) observed =
        .ok (observed ++ (looks.filter fun look =>
          ((view (access + look.2)).slot look.1 id).isSome).map Prod.fst) := by
    intro looks
    induction looks with
    | nil => simp
    | cons look looks ih =>
        intro observed
        rw [List.foldlM_cons, lookInto_result, ok_bind, ih, List.filter_cons]
        split <;> simp
  rw [observeStatesFrom, Reading.result_foldlM]
  exact hfold _ []

/-- Whatever a pass finds was there when it looked. -/
theorem exists_look_of_mem_seen (h : state ∈ seen view id access) :
    ∃ k < QueueState.all.length, ((view (access + k)).slot state id).isSome := by
  obtain ⟨⟨found, k⟩, hlook, rfl⟩ := List.mem_map.1 h
  obtain ⟨hlook, hsome⟩ := List.mem_filter.1 hlook
  exact ⟨k, by simpa using (List.mem_zipIdx hlook).2.1, hsome⟩

/-- A pass over a request that stays where it is finds that place. -/
theorem seen_of_still (h : ∀ k < QueueState.all.length, ∃ stored,
    (view (access + k)).Located id state stored) : seen view id access = [state] := by
  have hlook : ∀ k < QueueState.all.length, ∀ other,
      ((view (access + k)).slot other id).isSome ↔ other = state := by
    intro k hk other
    obtain ⟨stored, hlocated⟩ := h k hk
    constructor
    · intro hsome
      obtain ⟨found, hfound⟩ := Option.isSome_iff_exists.1 hsome
      exact (hlocated.unique hfound).1
    · rintro rfl
      simp [hlocated.here]
  have h0 := hlook 0 (by decide) .pending
  have h1 := hlook 1 (by decide) .processing
  have h2 := hlook 2 (by decide) .completed
  have h3 := hlook 3 (by decide) .failed
  simp only [seen, QueueState.all, List.zipIdx_cons, List.zipIdx_nil, Nat.zero_add, Nat.reduceAdd,
    List.filter_cons, h0, h1, h2, h3, List.filter_nil]
  cases state <;> rfl

theorem seen_of_absent (h : ∀ k < QueueState.all.length, (view (access + k)).Absent id) :
    seen view id access = [] := by
  rw [seen, List.map_eq_nil_iff, List.filter_eq_nil_iff]
  intro look hlook
  rw [h look.2 (by simpa using (List.mem_zipIdx hlook).2.1) look.1]
  simp

end Pass

/-! ### The passes of a call -/

section Passes

variable {view : Nat → QueueDisk} {id : RequestId}

/-- A pass that does not find one place is followed by the next. -/
theorem observeSingleStateFrom_again {attempts access : Nat}
    (h : ∀ state, seen view id access ≠ [state]) (hleft : attempts ≠ 0) :
    (observeSingleStateFrom view id (attempts + 1) access).result =
      (observeSingleStateFrom view id attempts (access + 4)).result := by
  rw [observeSingleStateFrom, Reading.result_bind, observeStatesFrom_result, ok_bind]
  rcases hseen : seen view id access with _ | ⟨first, _ | ⟨second, rest⟩⟩
  · simp [hleft, QueueState.all]
  · exact absurd hseen (h first)
  · simp [QueueState.all]

/-- The first pass that finds one place answers. -/
theorem observeSingleStateFrom_cases (view : Nat → QueueDisk) (id : RequestId)
    (attempts access : Nat) :
    (∃ i < attempts, ∃ state, seen view id (access + 4 * i) = [state] ∧
      (observeSingleStateFrom view id attempts access).result =
        .ok (some (state, access + 4 * i + 4))) ∨
    ∀ i < attempts, ∀ state, seen view id (access + 4 * i) ≠ [state] := by
  induction attempts generalizing access with
  | zero => exact .inr fun i hi => absurd hi (Nat.not_lt_zero i)
  | succ attempts ih =>
      by_cases hfound : ∃ state, seen view id access = [state]
      · obtain ⟨state, hstate⟩ := hfound
        refine .inl ⟨0, Nat.succ_pos _, state, hstate, ?_⟩
        rw [observeSingleStateFrom, Reading.result_bind, observeStatesFrom_result, ok_bind, hstate]
        rfl
      · have hnone := not_exists.1 hfound
        by_cases hleft : attempts = 0
        · refine .inr fun i hi => ?_
          obtain rfl : i = 0 := by omega
          exact hnone
        rw [observeSingleStateFrom_again hnone hleft]
        rcases ih (access + 4) with ⟨i, hi, state, hstate, hresult⟩ | hrest
        · refine .inl ⟨i + 1, by omega, state, ?_, ?_⟩
          · rw [← hstate]
            congr 1
            omega
          · rw [hresult]
            congr 3
            omega
        · refine .inr fun i hi => ?_
          cases i with
          | zero => exact hnone
          | succ i =>
              have := hrest i (by omega)
              rwa [show access + 4 + 4 * i = access + 4 * (i + 1) by omega] at this

/-- Nothing is found where nothing is. -/
theorem observeSingleStateFrom_of_absent {attempts access : Nat} (hattempts : 0 < attempts)
    (h : ∀ k < 4 * attempts, (view (access + k)).Absent id) :
    (observeSingleStateFrom view id attempts access).result = .ok none := by
  induction attempts generalizing access with
  | zero => exact absurd hattempts (Nat.lt_irrefl 0)
  | succ attempts ih =>
      have hseen : seen view id access = [] := seen_of_absent fun k hk => h k (by
        rw [QueueState.all, List.length_cons] at hk
        simp only [List.length_cons, List.length_nil] at hk
        omega)
      by_cases hleft : attempts = 0
      · rw [observeSingleStateFrom, Reading.result_bind, observeStatesFrom_result, ok_bind, hseen]
        simp [hleft]
      · rw [observeSingleStateFrom_again (by simp [hseen]) hleft]
        refine ih (Nat.pos_of_ne_zero hleft) fun k hk => ?_
        rw [Nat.add_assoc]
        exact h (4 + k) (by omega)

end Passes

/-! ### A queue that goes on -/

/-- The disk of a queue step by step, from one that a history of operations has led to. Whatever
operations run, of whatever processes, undisturbed or cut, are such steps (`perform_chain`). -/
structure QueueRun (q : QueueSetup) where
  disk : Nat → QueueDisk
  reached : ∃ events, QueueHistory q events (disk 0)
  step : ∀ n, QueueStep q (disk n) (disk (n + 1)) ∨ disk (n + 1) = disk n

namespace QueueRun

/-- The steps of an operation, after those of a history. -/
def ofChain {q : QueueSetup} {events : List QueueEvent} {s : QueueDisk} {trail : List QueueDisk}
    (hreached : QueueHistory q events s) (hchain : List.IsChain (QueueStep q) (s :: trail)) :
    QueueRun q where
  disk n := (s :: trail).getD n (trail.getLastD s)
  reached := ⟨events, hreached⟩
  step n := by
    by_cases hlast : n + 1 < (s :: trail).length
    · left
      rw [List.getD_eq_getElem _ _ hlast, List.getD_eq_getElem _ _ (Nat.lt_of_succ_lt hlast)]
      exact List.isChain_iff_getElem.1 hchain n hlast
    · right
      rw [List.getD_eq_default _ _ (Nat.le_of_not_lt hlast)]
      by_cases hend : n < (s :: trail).length
      · have hn : n = (s :: trail).length - 1 := by omega
        rw [List.getD_eq_getElem _ _ hend]
        subst hn
        rw [List.getElem_length_sub_one_eq_getLast, List.getLast_eq_getLastD]
      · rw [List.getD_eq_default _ _ (Nat.le_of_not_lt hend)]

variable {q : QueueSetup} (run : QueueRun q) {id : RequestId}

/-- The step `n` is a rename of the request. -/
def Renamed (id : RequestId) (n : Nat) : Prop :=
  ∃ state stored state' stored', (run.disk n).Located id state stored ∧
    (run.disk (n + 1)).Located id state' stored' ∧ state ≠ state'

/-- There are no three renames of the request before the step `last`. -/
def AtMostTwoRenames (id : RequestId) (last : Nat) : Prop :=
  ∀ a b c, a < b → b < c → c < last → run.Renamed id a → run.Renamed id b → ¬ run.Renamed id c

theorem inv (n : Nat) : QueueInv q (run.disk n) := by
  induction n with
  | zero =>
      obtain ⟨events, hevents⟩ := run.reached
      exact (queueInv_of_history hevents).1
  | succ n ih =>
      rcases run.step n with hstep | hsame
      · exact hstep.inv ih
      · rwa [hsame]

theorem reflTransGen {m n : Nat} (h : m ≤ n) :
    Relation.ReflTransGen (QueueStep q) (run.disk m) (run.disk n) := by
  induction n, h using Nat.le_induction with
  | base => exact .refl
  | succ n _ ih =>
      rcases run.step n with hstep | hsame
      · exact ih.tail hstep
      · rwa [hsame]

variable {run} {state : QueueState} {stored : StoredPackage}

/-- Without a rename the request stays where it is. -/
theorem located_of_still {m n : Nat} (hle : m ≤ n) (hlocated : (run.disk m).Located id state stored)
    (hstill : ∀ k, m ≤ k → k < n → ¬ run.Renamed id k) :
    ∃ stored, (run.disk n).Located id state stored := by
  induction n, hle using Nat.le_induction with
  | base => exact ⟨stored, hlocated⟩
  | succ n hle ih =>
      obtain ⟨stored, hhere⟩ := ih fun k hk hlt => hstill k hk (hlt.trans (Nat.lt_succ_self n))
      obtain ⟨state', stored', hnext, -⟩ := progress_of_reflTransGen
        (run.reflTransGen (Nat.le_succ n)) hhere
      have hsame : state = state' := by
        by_contra hne
        exact hstill n hle (Nat.lt_succ_self n) ⟨_, _, _, _, hhere, hnext, hne⟩
      exact ⟨stored', hsame ▸ hnext⟩

/-- A pass that does not find one place has been overtaken by a rename. -/
theorem exists_renamed {clock : Nat → Nat} (hclock : Monotone clock) {access : Nat}
    (hlocated : (run.disk (clock access)).Located id state stored)
    (h : ∀ state, seen (run.disk ∘ clock) id access ≠ [state]) :
    ∃ n, clock access ≤ n ∧ n < clock (access + 3) ∧ run.Renamed id n := by
  by_contra hnone
  refine h state (seen_of_still fun k hk => ?_)
  have hk : k ≤ 3 := Nat.le_of_lt_succ hk
  refine located_of_still (hclock (Nat.le_add_right access k)) hlocated fun n hn hlt hrenamed => ?_
  exact hnone ⟨n, hn, hlt.trans_le (hclock (Nat.add_le_add_left hk access)), hrenamed⟩

/-- Some pass finds one place if the request is in the queue and renamed at most twice. -/
theorem exists_seen {clock : Nat → Nat} (hclock : Monotone clock)
    (hlocated : (run.disk 0).Located id state stored)
    (hrenames : run.AtMostTwoRenames id (clock 12)) :
    ∃ i < 3, ∃ found, seen (run.disk ∘ clock) id (4 * i) = [found] ∧
      (observeSingleStateFrom (run.disk ∘ clock) id maximumStateObservationAttempts 0).result =
        .ok (some (found, 4 * i + 4)) := by
  have hcases := observeSingleStateFrom_cases (run.disk ∘ clock) id
    maximumStateObservationAttempts 0
  simp only [Nat.zero_add] at hcases
  refine hcases.resolve_right fun hnone => ?_
  -- Every pass is overtaken by a rename of its own.
  have hrenamed : ∀ i < 3, ∃ n, clock (4 * i) ≤ n ∧ n < clock (4 * i + 3) ∧ run.Renamed id n := by
    intro i hi
    obtain ⟨state, stored, hhere, -⟩ := progress_of_reflTransGen
      (run.reflTransGen (Nat.zero_le (clock (4 * i)))) hlocated
    exact exists_renamed hclock hhere (hnone i hi)
  obtain ⟨a, -, ha, hfirst⟩ := hrenamed 0 (by decide)
  obtain ⟨b, hb, hb', hsecond⟩ := hrenamed 1 (by decide)
  obtain ⟨c, hc, hc', hthird⟩ := hrenamed 2 (by decide)
  refine hrenames a b c ?_ ?_ ?_ hfirst hsecond hthird
  · exact ha.trans_le ((hclock (by decide)).trans hb)
  · exact hb'.trans_le ((hclock (by decide)).trans hc)
  · exact hc'.trans_le (hclock (by decide))

/-- What is read of a failed request is what it failed with. -/
theorem statusOf_failed {m n : Nat} (hle : m ≤ n) (hlocated : (run.disk m).Located id .failed stored) :
    ∃ record, stored.HasResult q.x record ∧ record.isFailureOf id ∧
      (statusOf q.x id .failed (run.disk n)).result =
        .ok (.failed record.errorCode record.failedAt) := by
  obtain ⟨state', stored', hthere, hprogress⟩ :=
    progress_of_reflTransGen (run.reflTransGen hle) hlocated
  -- Nothing moves a failed request or changes it.
  obtain ⟨rfl, rfl⟩ := hprogress.settled (.inr rfl)
  have hok := ((run.inv n).located hthere.here).2
  obtain ⟨record, hrecord, hfailure⟩ := hok.hasResult (hok.failed rfl)
  have hopened : (run.disk n).opened id = some stored' := by
    simp [QueueDisk.opened, QueueState.all, hthere.here, hthere.only]
  refine ⟨record, hrecord, hfailure, ?_⟩
  rw [statusOf, readFailedStatusOf, hopened]
  exact readFailedStatus_eq_ok.2 ⟨record, hrecord, hfailure, rfl⟩

end QueueRun

/-- The state a status reports. -/
def QueueRequestStatus.state : QueueRequestStatus → QueueState
  | .pending => .pending
  | .processing => .processing
  | .completed => .completed
  | .failed .. => .failed

/-- The call makes its looks `0` to `12` at the steps `clock 0` to `clock 12` of the queue. -/
theorem statusDuring_sound {q : QueueSetup} (run : QueueRun q) (id : RequestId) (clock : Nat → Nat)
    (hclock : Monotone clock) :
    ((∃ state stored, (run.disk 0).Located id state stored) →
      run.AtMostTwoRenames id (clock 12) →
      ∃ k ≤ 12, ∃ stored status,
        (statusDuring q.x id (run.disk ∘ clock)).result = .ok (some status) ∧
        (run.disk (clock k)).Located id status.state stored ∧
        ∀ errorCode failedAt, status = .failed errorCode failedAt →
          ∃ record, stored.HasResult q.x record ∧ record.isFailureOf id ∧
            errorCode = record.errorCode ∧ failedAt = record.failedAt) ∧
    ((∀ n ≤ clock 12, (run.disk n).Absent id) →
      (statusDuring q.x id (run.disk ∘ clock)).result = .ok none) := by
  constructor
  · rintro ⟨start, first, hlocated⟩ hrenames
    obtain ⟨i, hi, found, hseen, hobserved⟩ := QueueRun.exists_seen hclock hlocated hrenames
    have hresult : (statusDuring q.x id (run.disk ∘ clock)).result =
        (statusOf q.x id found (run.disk (clock (4 * i + 4)))).result >>= fun status =>
          .ok (some status) := by
      simp [statusDuring, hobserved]
    obtain ⟨k, hk, hsome⟩ := exists_look_of_mem_seen (hseen ▸ List.mem_singleton_self found)
    have hk : k < 4 := hk
    obtain ⟨stored, hstored⟩ := Option.isSome_iff_exists.1 hsome
    have hhere := ((run.inv (clock (4 * i + k))).located hstored).1
    refine ⟨4 * i + k, by omega, stored, ?_⟩
    cases found with
    | pending => exact ⟨.pending, hresult, hhere, by simp⟩
    | processing => exact ⟨.processing, hresult, hhere, by simp⟩
    | completed => exact ⟨.completed, hresult, hhere, by simp⟩
    | failed =>
        obtain ⟨record, hrecord, hfailure, hstatus⟩ := QueueRun.statusOf_failed
          (hclock (by omega : 4 * i + k ≤ 4 * i + 4)) hhere
        refine ⟨.failed record.errorCode record.failedAt, ?_, hhere, ?_⟩
        · rw [hresult, hstatus]
          rfl
        · rintro errorCode failedAt ⟨⟩
          exact ⟨record, hrecord, hfailure, rfl, rfl⟩
  · intro habsent
    have hnone : (observeSingleStateFrom (run.disk ∘ clock) id maximumStateObservationAttempts
        0).result = .ok none := by
      refine observeSingleStateFrom_of_absent (by decide) fun k hk => habsent _ (hclock ?_)
      have hk : k < 12 := hk
      omega
    simp [statusDuring, hnone]

namespace QueueSample

def acceptedDisk : QueueDisk := playEnd (perform setup) .empty [{ call := .accept (upload 1) }]

def claimSteps : List QueueDisk := (perform setup (claimTurn 1 1).call acceptedDisk .calm).trail

/-- The first look finds the request in `pending/`, the second finds it already claimed. -/
def overtaken (access : Nat) : Nat := min access 1 * 2

theorem status_overtaken :
    ∃ run : QueueRun setup, run.disk 0 = acceptedDisk ∧
      seen (run.disk ∘ overtaken) (requestId 1) 0 = [.pending, .processing] ∧
      ∃ k ≤ 12, ∃ stored status,
        (statusDuring setup.x (requestId 1) (run.disk ∘ overtaken)).result = .ok (some status) ∧
        (run.disk (overtaken k)).Located (requestId 1) status.state stored := by
  have hhistory := history_play (perform setup) .empty [{ call := .accept (upload 1) }]
  have hinv : QueueInv setup acceptedDisk := (queueInv_of_history hhistory).1
  let run := QueueRun.ofChain hhistory (perform_chain (claimTurn 1 1).call .calm hinv)
  have hslot : (acceptedDisk.slot .pending (requestId 1)).isSome := by decide +kernel
  obtain ⟨stored, hstored⟩ := Option.isSome_iff_exists.1 hslot
  have hseen : seen ((fun n => (acceptedDisk :: claimSteps).getD n
      (claimSteps.getLastD acceptedDisk)) ∘ overtaken) (requestId 1) 0 =
        [.pending, .processing] := by decide +kernel
  refine ⟨run, rfl, hseen, ?_⟩
  have hclock : Monotone overtaken := by
    intro a b h
    simp only [overtaken]
    omega
  have hrenames : run.AtMostTwoRenames (requestId 1) (overtaken 12) := by
    intro a b c hab hbc hc
    have hc : c < 2 := hc
    omega
  obtain ⟨k, hk, stored, status, hresult, hlocated, -⟩ :=
    (statusDuring_sound run (requestId 1) overtaken hclock).1
      ⟨_, _, (hinv.located hstored).1⟩ hrenames
  exact ⟨k, hk, stored, status, hresult, hlocated⟩

end QueueSample

end AgentKnowledge
