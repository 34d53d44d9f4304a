import AgentKnowledge.Queue.Batch

/-!
What a batch scan finds in `pending/` and what it makes of it.

A pending directory is `Eligible` up to a boundary sequence, `Damaged`, `Exhausted`, or
past the boundary; the lemmas about the inspection say which error or result each of
them gives. `Arrivals` is what acceptances may do while a scan is in progress, and
`Evolved` relates the disk at any time of a scan to the disk it was opened on.
-/

namespace AgentKnowledge

open Results Durable

/-! ### Verdicts on a pending directory -/

section Verdicts

variable {q : QueueSetup} {b : Nat} {id : RequestId} {stored : StoredPackage} {sequence : Nat}

/-- The directory revalidates under its own name and has this acceptance sequence. -/
def Sequenced (q : QueueSetup) (id : RequestId) (stored : StoredPackage) (sequence : Nat) : Prop :=
  ∃ validated acceptance, (readAcceptedPackage q.x q.policy stored).result = .ok validated ∧
    validated.request.requestId = id ∧ validated.acceptance = some acceptance ∧
    acceptance.sequence = sequence

/-- The phase record permits another attempt. -/
def Permits (q : QueueSetup) (id : RequestId) (stored : StoredPackage) : Prop :=
  ∃ previous, stored.AttemptIs q.x id previous ∧ previous + 1 < 2 ^ 32

/-- A valid request that a scan up to `b` may claim. -/
structure Eligible (q : QueueSetup) (b : Nat) (id : RequestId) (stored : StoredPackage)
    (sequence : Nat) : Prop where
  bound : sequence ≤ b
  sequenced : Sequenced q id stored sequence
  permits : Permits q id stored

/-- A directory that does not revalidate, or is within the boundary and has no readable
phase record. -/
def Damaged (q : QueueSetup) (b : Nat) (id : RequestId) (stored : StoredPackage) : Prop :=
  (∀ sequence, ¬ Sequenced q id stored sequence) ∨
    ∃ sequence ≤ b, Sequenced q id stored sequence ∧ ∀ previous, ¬ stored.AttemptIs q.x id previous

/-- A valid request within the boundary that has used up its attempts. -/
def Exhausted (q : QueueSetup) (b : Nat) (id : RequestId) (stored : StoredPackage) : Prop :=
  ∃ sequence ≤ b, Sequenced q id stored sequence ∧
    ∃ previous, stored.AttemptIs q.x id previous ∧ 2 ^ 32 ≤ previous + 1

theorem Sequenced.unique {sequence' : Nat} (h : Sequenced q id stored sequence)
    (h' : Sequenced q id stored sequence') : sequence = sequence' := by
  obtain ⟨validated, acceptance, hread, -, hacceptance, rfl⟩ := h
  obtain ⟨validated', acceptance', hread', -, hacceptance', rfl⟩ := h'
  cases hread.symm.trans hread'
  cases hacceptance.symm.trans hacceptance'
  rfl

/-- A directory that revalidates has room for a result record. -/
theorem Sequenced.result_ne (h : Sequenced q id stored sequence) : stored.result ≠ some .other := by
  obtain ⟨validated, acceptance, hread, -⟩ := h
  obtain ⟨layout, contents, payload, found, hlayout, -⟩ := readAcceptedPackage_eq_ok.1 hread
  intro hother
  obtain ⟨file, hfile, -⟩ := hlayout.result _ hother
  cases hfile

theorem attemptIs_unique {x : QueueExternals} {m n : Nat} (h : stored.AttemptIs x id m)
    (h' : stored.AttemptIs x id n) : m = n := by
  cases h with
  | unclaimed h =>
      cases h' with
      | unclaimed _ => rfl
      | claimed h' =>
          obtain ⟨file, hfile, -⟩ := h'
          rw [h] at hfile
          cases hfile
  | claimed h =>
      cases h' with
      | unclaimed h' =>
          obtain ⟨file, hfile, -⟩ := h
          rw [h'] at hfile
          cases hfile
      | claimed h' => rw [h.unique h']

theorem Eligible.not_damaged (h : Eligible q b id stored sequence) : ¬ Damaged q b id stored := by
  rintro (hnone | ⟨other, -, -, hnone⟩)
  · exact hnone _ h.sequenced
  · obtain ⟨previous, hprevious, -⟩ := h.permits
    exact hnone previous hprevious

theorem Eligible.not_exhausted (h : Eligible q b id stored sequence) : ¬ Exhausted q b id stored := by
  rintro ⟨other, -, -, previous, hprevious, hbound⟩
  obtain ⟨previous', hprevious', hbound'⟩ := h.permits
  rw [attemptIs_unique hprevious hprevious'] at hbound
  omega

/-! ### What the inspection says -/

/-- Failing calls give I/O errors, and the other errors are `Q`. -/
abbrev WorkerErrs {α : Type} (Q : WorkerQueueError → Prop) (r : WorkerReading α) : Prop :=
  Reading.Errs (fun _ e => e.isIo) Q r

theorem errs_workerIo {Q : WorkerQueueError → Prop} {site : IoSite} :
    WorkerErrs Q (.call site .io) :=
  Reading.errs_call rfl

variable {disk : QueueDisk}

theorem revalidateAccepted_eq_ok {state : QueueState} {validated : ValidatedPackage} :
    (revalidateAccepted q stored id state).result = .ok validated ↔
      (readAcceptedPackage q.x q.policy stored).result = .ok validated := by
  rw [revalidateAccepted, Reading.result_mapError, mapError_eq_ok]

/-- A directory that does not revalidate is condemned. -/
theorem revalidateAccepted_condemns {state : QueueState} {e : WorkerQueueError}
    (h : (revalidateAccepted q stored id state).result = .error e) : e.condemns := by
  rw [revalidateAccepted, Reading.result_mapError, mapError_eq_error] at h
  obtain ⟨d, hd, rfl⟩ := h
  have hio : ¬ d = .io := readAcceptedPackage_errs.own d hd
  cases d <;> simp_all [WorkerQueueError.condemns]

theorem inspectPackage_eq_ok (hslot : disk.slot .pending id = some stored) :
    (inspectPackage q id disk).result = .ok sequence ↔ Sequenced q id stored sequence := by
  unfold inspectPackage Sequenced
  simp only [hslot, Reading.result_bind, Reading.result_lift, Reading.result_pure, ofOption_some,
    ok_bind, bind_eq_ok, exists_unit, revalidateAccepted_eq_ok, rejectIf_eq_ok, not_not,
    ofOption_eq_ok, Except.ok.injEq]
  constructor
  · rintro ⟨validated, hread, hid, acceptance, hacceptance, hsequence⟩
    exact ⟨validated, acceptance, hread, hid, hacceptance, hsequence⟩
  · rintro ⟨validated, acceptance, hread, hid, hacceptance, hsequence⟩
    exact ⟨validated, hread, hid, acceptance, hacceptance, hsequence⟩

theorem inspectPackage_eq_error (hslot : disk.slot .pending id = some stored) {e : WorkerQueueError}
    (h : (inspectPackage q id disk).result = .error e) :
    e.condemns ∧ ∀ sequence, ¬ Sequenced q id stored sequence := by
  refine ⟨?_, fun sequence hsequenced => ?_⟩
  · unfold inspectPackage at h
    simp only [hslot, Reading.result_bind, Reading.result_lift, Reading.result_pure, ofOption_some,
      ok_bind, bind_eq_error, rejectIf_eq_error, ofOption_eq_error] at h
    rcases h with h | ⟨validated, -, ⟨-, rfl⟩ | ⟨-, -, ⟨-, rfl⟩ | ⟨acceptance, -, h⟩⟩⟩
    · exact revalidateAccepted_condemns h
    · rfl
    · rfl
    · cases h
  · rw [(inspectPackage_eq_ok hslot).2 hsequenced] at h
    cases h

theorem readOptionalPhaseRecord_errs {state : QueueState} :
    WorkerErrs (fun e => e.condemns) (readOptionalPhaseRecord q.x stored id state) := by
  refine errs_workerIo.bind fun _ _ => ?_
  split
  · exact Reading.errs_pure _
  · exact Reading.errs_lift (by rintro e ⟨⟩; rfl)
  · refine Reading.Errs.bind ?_ fun _ _ => Reading.errs_pure _
    exact errs_workerIo.bind fun _ _ => errs_workerIo.bind fun _ _ =>
      (Reading.errs_rejectIf (by rfl)).bind fun _ _ =>
      (Reading.errs_ofOption (by rfl)).bind fun _ _ =>
      (Reading.errs_rejectIf (by rfl)).bind fun _ _ =>
      (Reading.errs_rejectIf (by rfl)).bind fun _ _ => Reading.errs_pure _

theorem readOptionalPhaseRecord_condemns {state : QueueState} {e : WorkerQueueError}
    (h : (readOptionalPhaseRecord q.x stored id state).result = .error e) :
    e.condemns ∧ ∀ previous, ¬ stored.AttemptIs q.x id previous := by
  refine ⟨readOptionalPhaseRecord_errs.own e h, fun previous hprevious => ?_⟩
  cases hprevious with
  | unclaimed hphase =>
      rw [readOptionalPhaseRecord_eq_none.2 hphase] at h
      cases h
  | claimed hphase =>
      rw [readOptionalPhaseRecord_eq_some.2 hphase] at h
      cases h

theorem inspectAttempt_eq_ok (hslot : disk.slot .pending id = some stored) :
    (inspectAttempt q id disk).result = .ok () ↔ Permits q id stored := by
  unfold inspectAttempt Permits
  simp only [hslot, Reading.result_bind, Reading.result_lift, Reading.result_pure, ofOption_some,
    ok_bind, bind_eq_ok, nextAttempt_eq_ok, and_true]
  constructor
  · rintro ⟨attempt, hbound, previous, hprevious, rfl⟩
    exact ⟨previous, hprevious, hbound⟩
  · rintro ⟨previous, hprevious, hbound⟩
    exact ⟨_, hbound, previous, hprevious, rfl⟩

theorem inspectAttempt_eq_error (hslot : disk.slot .pending id = some stored) {e : WorkerQueueError}
    (h : (inspectAttempt q id disk).result = .error e) :
    (e.condemns ∧ ∀ previous, ¬ stored.AttemptIs q.x id previous) ∨
      e.condemns = false ∧ ∃ previous, stored.AttemptIs q.x id previous ∧ 2 ^ 32 ≤ previous + 1 := by
  simp only [inspectAttempt, hslot, Reading.result_bind, Reading.result_lift, Reading.result_pure,
    ofOption_some, ok_bind, bind_eq_error] at h
  obtain h | ⟨-, -, h⟩ := h
  · unfold nextAttempt at h
    simp only [Reading.result_bind, Reading.result_lift, Reading.result_pure, bind_eq_error,
      rejectIf_eq_error] at h
    rcases h with h | ⟨record, hread, ⟨hbound, rfl⟩ | ⟨-, -, h⟩⟩
    · exact .inl (readOptionalPhaseRecord_condemns h)
    · refine .inr ⟨rfl, ?_⟩
      cases record with
      | none => exact ⟨0, .unclaimed (readOptionalPhaseRecord_eq_none.1 hread), hbound⟩
      | some record => exact ⟨_, .claimed (readOptionalPhaseRecord_eq_some.1 hread), hbound⟩
    · cases h
  · cases h

theorem currentMaximumSequence_result :
    (currentMaximumSequence disk).result = .ok (disk.nextSequence - 1) := by
  simp [currentMaximumSequence, lockQueue_result]

theorem inspectLate_result :
    (inspectLate id sequence disk).result =
      if disk.nextSequence - 1 < sequence then .error (.corruptState id .pending
        "acceptance sequence exceeds the queue allocation state")
      else .ok () := by
  simp [inspectLate, currentMaximumSequence_result, rejectIf]

end Verdicts

/-! ### Requests that arrive during a scan -/

section Arrivals

variable {q : QueueSetup} {s s' s'' : QueueDisk} {id : RequestId} {state : QueueState}
  {stored : StoredPackage}

theorem QueueDisk.Located.congr (h : s.Located id state stored)
    (hslot : ∀ state, s'.slot state id = s.slot state id) : s'.Located id state stored where
  here := (hslot state).trans h.here
  only other hother := (hslot other).trans (h.only other hother)

theorem QueueDisk.Located.not_absent (h : s.Located id state stored) : ¬ s.Absent id := by
  intro habsent
  have hhere := h.here
  rw [habsent state] at hhere
  cases hhere

/-- A request that has come in since `s`, with a sequence that was free then. -/
structure ArrivedSince (q : QueueSetup) (s s' : QueueDisk) (id : RequestId) : Prop where
  absent : s.Absent id
  pending : ∃ stored sequence, s'.Located id .pending stored ∧ Sequenced q id stored sequence ∧
    s.nextSequence ≤ sequence ∧ sequence < s'.nextSequence

/-- What acceptances may do to a queue. -/
structure Accepts (q : QueueSetup) (s s' : QueueDisk) : Prop where
  next : s.nextSequence ≤ s'.nextSequence
  kept : ∀ id, ¬ s.Absent id → ∀ state, s'.slot state id = s.slot state id
  came : ∀ id, s.Absent id → s'.Absent id ∨ ArrivedSince q s s' id

/-- What acceptances may do to a queue and to an open cursor over `pending/`. -/
structure Arrivals (q : QueueSetup) (w w' : QueueWorld) : Prop extends Accepts q w.disk w'.disk where
  idle : w.scan = none → w'.session = w.session
  /-- The cursor may return some of the new requests, and its order is its own. -/
  cursor : ∀ scan, w.scan = some scan → ∃ entries late, entries.Perm (scan.entries ++ late) ∧
    (∀ entry ∈ late, ∃ id, entry = .request id ∧ ArrivedSince q w.disk w'.disk id) ∧
    w' = (w.withDisk w'.disk).withScan (some { scan with entries })

theorem ArrivedSince.later (h : ArrivedSince q s s' id) (hnext : s'.nextSequence ≤ s''.nextSequence)
    (hslot : ∀ state, s''.slot state id = s'.slot state id) : ArrivedSince q s s'' id := by
  obtain ⟨stored, sequence, hlocated, hsequenced, hlow, hhigh⟩ := h.pending
  exact ⟨h.absent, stored, sequence, hlocated.congr hslot, hsequenced, hlow, by omega⟩

/-- A request that was pending in `s₀` has been moved to `failed/`. -/
def FailedSince (q : QueueSetup) (batchId : BatchId) (s₀ s : QueueDisk) (id : RequestId) : Prop :=
  ∃ stored code time, s₀.Located id .pending stored ∧
    s.Located id .failed (stored.withResult q.x (resultRecord id batchId code time))

/-- A request that was pending in `s₀` has been claimed, and what the claim says of it. -/
def ClaimedSince (q : QueueSetup) (batchId : BatchId) (s₀ s : QueueDisk) (claim : QueueClaim) :
    Prop :=
  ∃ id stored previous time h, s₀.Located id .pending stored ∧
    stored.AttemptIs q.x id previous ∧ claim.token = ⟨id, batchId, previous + 1⟩ ∧
    (readAcceptedPackage q.x q.policy stored).result = .ok claim.package ∧
    s.Located id .processing (stored.withPhase q.x (phaseRecord id batchId (previous + 1) time h))

/-- The disk of a scan that was opened on `s₀`: what the scan has moved, and what has
come in. -/
structure Evolved (q : QueueSetup) (batchId : BatchId) (s₀ : QueueDisk) (moved : List RequestId)
    (claims : List QueueClaim) (s : QueueDisk) : Prop where
  next : s₀.nextSequence ≤ s.nextSequence
  failed : ∀ id ∈ moved, FailedSince q batchId s₀ s id
  claimed : ∀ claim ∈ claims, ClaimedSince q batchId s₀ s claim
  kept : ∀ id, ¬ s₀.Absent id → id ∉ moved → id ∉ claims.map (·.token.requestId) →
    ∀ state, s.slot state id = s₀.slot state id
  came : ∀ id, s₀.Absent id → s.Absent id ∨ ArrivedSince q s₀ s id

variable {batchId : BatchId} {s₀ : QueueDisk} {moved : List RequestId} {claims : List QueueClaim}
  {claim : QueueClaim}

theorem Evolved.refl : Evolved q batchId s₀ [] [] s₀ where
  next := le_rfl
  failed := by simp
  claimed := by simp
  kept _ _ _ _ _ := rfl
  came _ h := .inl h

theorem FailedSince.not_absent (h : FailedSince q batchId s₀ s id) : ¬ s.Absent id := by
  obtain ⟨stored, code, time, -, hlocated⟩ := h
  exact hlocated.not_absent

theorem ClaimedSince.not_absent (h : ClaimedSince q batchId s₀ s claim) :
    ¬ s.Absent claim.token.requestId := by
  obtain ⟨id, stored, previous, time, hvalid, -, -, htoken, -, hlocated⟩ := h
  rw [htoken]
  exact hlocated.not_absent

theorem FailedSince.congr (h : FailedSince q batchId s₀ s id)
    (hslot : ∀ state, s'.slot state id = s.slot state id) : FailedSince q batchId s₀ s' id := by
  obtain ⟨stored, code, time, hstart, hlocated⟩ := h
  exact ⟨stored, code, time, hstart, hlocated.congr hslot⟩

theorem ClaimedSince.congr (h : ClaimedSince q batchId s₀ s claim)
    (hslot : ∀ state, s'.slot state claim.token.requestId = s.slot state claim.token.requestId) :
    ClaimedSince q batchId s₀ s' claim := by
  obtain ⟨id, stored, previous, time, hvalid, hstart, hattempt, htoken, hread, hlocated⟩ := h
  rw [htoken] at hslot
  exact ⟨id, stored, previous, time, hvalid, hstart, hattempt, htoken, hread,
    hlocated.congr hslot⟩

/-- Every request that was there at the start still is. -/
theorem Evolved.not_absent (h : Evolved q batchId s₀ moved claims s) (hid : ¬ s₀.Absent id) :
    ¬ s.Absent id := by
  by_cases hmoved : id ∈ moved
  · exact (h.failed id hmoved).not_absent
  · by_cases hclaimed : id ∈ claims.map (·.token.requestId)
    · obtain ⟨claim, hclaim, rfl⟩ := List.mem_map.1 hclaimed
      exact (h.claimed claim hclaim).not_absent
    · intro habsent
      exact hid fun state => (h.kept id hid hmoved hclaimed state).symm.trans (habsent state)

/-- Acceptances during a scan. -/
theorem Evolved.arrivals {w w' : QueueWorld} (h : Evolved q batchId s₀ moved claims w.disk)
    (harrivals : Arrivals q w w') : Evolved q batchId s₀ moved claims w'.disk where
  next := h.next.trans harrivals.next
  failed id hid := (h.failed id hid).congr (harrivals.kept id (h.failed id hid).not_absent)
  claimed claim hclaim :=
    (h.claimed claim hclaim).congr (harrivals.kept _ (h.claimed claim hclaim).not_absent)
  kept id hid hmoved hclaimed state := by
    rw [harrivals.kept id (h.not_absent hid) state]
    exact h.kept id hid hmoved hclaimed state
  came id hid := by
    rcases h.came id hid with habsent | harrived
    · rcases harrivals.came id habsent with habsent | harrived
      · exact .inl habsent
      · obtain ⟨stored, sequence, hlocated, hsequenced, hlow, hhigh⟩ := harrived.pending
        exact .inr ⟨hid, stored, sequence, hlocated, hsequenced, h.next.trans hlow, hhigh⟩
    · obtain ⟨stored, sequence, hlocated, -⟩ := harrived.pending
      exact .inr (harrived.later harrivals.next (harrivals.kept id hlocated.not_absent))

/-- What a change of one request that was there at the start leaves as it was. -/
theorem Evolved.elsewhere (h : Evolved q batchId s₀ moved claims s) (s' : QueueDisk)
    (hnext : s'.nextSequence = s.nextSequence)
    (hother : ∀ other, other ≠ id → ∀ state, s'.slot state other = s.slot state other)
    (hid : ¬ s₀.Absent id) (hmoved : id ∉ moved) (hclaimed : id ∉ claims.map (·.token.requestId)) :
    (∀ other ∈ moved, FailedSince q batchId s₀ s' other) ∧
    (∀ claim ∈ claims, ClaimedSince q batchId s₀ s' claim) ∧
    (∀ other, other ≠ id → ¬ s₀.Absent other → other ∉ moved →
      other ∉ claims.map (·.token.requestId) → ∀ state, s'.slot state other = s₀.slot state other) ∧
    ∀ other, s₀.Absent other → s'.Absent other ∨ ArrivedSince q s₀ s' other := by
  refine ⟨fun other hmem => (h.failed other hmem).congr (hother other ?_),
    fun claim hmem => (h.claimed claim hmem).congr (hother _ ?_),
    fun other hne hpresent hm hc state => ?_, fun other habsent => ?_⟩
  · rintro rfl
    exact hmoved hmem
  · intro heq
    exact hclaimed (List.mem_map.2 ⟨claim, hmem, heq⟩)
  · rw [hother other hne state]
    exact h.kept other hpresent hm hc state
  · have hne : other ≠ id := by
      rintro rfl
      exact hid habsent
    rcases h.came other habsent with hgone | harrived
    · exact .inl fun state => (hother other hne state).trans (hgone state)
    · exact .inr (harrived.later hnext.ge (hother other hne))

/-- The disk after a failure in `pending/`. -/
theorem Evolved.fail (h : Evolved q batchId s₀ moved claims s)
    (hstart : s₀.Located id .pending stored) (hlocated : s.Located id .pending stored)
    (hmoved : id ∉ moved) (hclaimed : id ∉ claims.map (·.token.requestId)) (code : ErrorCode)
    (time : OffsetDateTime) :
    Evolved q batchId s₀ (id :: moved) claims
      ((failPendingTrail q s id batchId code time).getLastD s) := by
  obtain ⟨hfailed, hclaims, hkept, hcame⟩ :=
    h.elsewhere ((failPendingTrail q s id batchId code time).getLastD s) rfl
      (fun other hne state => (QueueDisk.slot_move_other hne _ _ _).trans
        (QueueDisk.slot_modify_other hne _)) hstart.not_absent hmoved hclaimed
  exact {
    next := h.next
    failed := by
      rintro other (_ | ⟨_, hmem⟩)
      · exact ⟨stored, code, time, hstart, hlocated.modify.move (by decide)⟩
      · exact hfailed other hmem
    claimed := hclaims
    kept := fun other hpresent hm hc =>
      hkept other (fun heq => hm (heq ▸ List.mem_cons_self)) hpresent
        (fun hmem => hm (List.mem_cons_of_mem _ hmem)) hc
    came := hcame }

/-- The disk after a claim. -/
theorem Evolved.claimOne {previous : Nat} {package : ValidatedPackage} {time : OffsetDateTime}
    (h : Evolved q batchId s₀ moved claims s) (hstart : s₀.Located id .pending stored)
    (hlocated : s.Located id .pending stored) (hattempt : stored.AttemptIs q.x id previous)
    (hread : (readAcceptedPackage q.x q.policy stored).result = .ok package)
    (hmoved : id ∉ moved) (hclaimed : id ∉ claims.map (·.token.requestId))
    (hvalid : 0 < previous + 1 ∧ previous + 1 < 2 ^ 32) :
    Evolved q batchId s₀ moved (claims ++ [⟨⟨id, batchId, previous + 1⟩, package⟩])
      ((claimTrail q s id (phaseRecord id batchId (previous + 1) time hvalid)).getLastD s) := by
  obtain ⟨hfailed, hclaims, hkept, hcame⟩ :=
    h.elsewhere
      ((claimTrail q s id (phaseRecord id batchId (previous + 1) time hvalid)).getLastD s) rfl
      (fun other hne state => (QueueDisk.slot_move_other hne _ _ _).trans
        (QueueDisk.slot_modify_other hne _)) hstart.not_absent hmoved hclaimed
  exact {
    next := h.next
    failed := hfailed
    claimed := by
      intro claim hmem
      rcases List.mem_append.1 hmem with hmem | hmem
      · exact hclaims claim hmem
      · rw [List.mem_singleton.1 hmem]
        exact ⟨id, stored, previous, time, hvalid, hstart, hattempt, rfl, hread,
          hlocated.modify.move (by decide)⟩
    kept := fun other hpresent hm hc => by
      rw [List.map_append, List.mem_append, not_or] at hc
      exact hkept other (fun heq => hc.2 (by simp [heq])) hpresent hm hc.1
    came := hcame }

/-! An acceptance does no more than that, wherever it is cut. -/

theorem Accepts.refl : Accepts q s s where
  next := le_rfl
  kept _ _ _ := rfl
  came _ h := .inl h

end Arrivals

end AgentKnowledge
