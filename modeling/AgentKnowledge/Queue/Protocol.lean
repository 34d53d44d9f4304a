import AgentKnowledge.Queue.Status

/-!
The queue as a state machine.

Every operation takes the exclusive queue lock before its first durable step and
holds it to its last, so processes that use one queue at the same time leave a
sequence of operations; a process that dies releases the lock after a prefix of the
steps of its operation. `QueueCall` collects the operations, and a history of
`perform` is such a sequence, with any failing calls and any crashes.

One request goes through the states of `RequestStep`. `Effect` lists what an operation
does from a given disk, `Effect.chain` says that it only spends a sequence, publishes
a new request or makes one request take such a step, `QueueStep.inv` that these keep
`QueueInv`, and `QueueStep.progress` what later states of a request have in common
with earlier ones.
-/

namespace AgentKnowledge

open Results Durable

/-! ### Operations -/

/-- The operations on a queue, with what they are called with. -/
inductive QueueCall where
  | accept (upload : Upload)
  | claim (id : RequestId) (batchId : BatchId) (now : OffsetDateTime) (prepared : ValidatedPackage)
  | requeue (token : ClaimToken)
  | complete (token : ClaimToken) (now : OffsetDateTime)
  | fail (token : ClaimToken) (errorCode : ErrorCode) (now : OffsetDateTime)
  | failPending (id : RequestId) (batchId : BatchId) (errorCode : ErrorCode) (now : OffsetDateTime)
  | validate (claim : QueueClaim)

/-- What an operation answers. -/
inductive QueueReply where
  | enqueued (outcome : EnqueueOutcome)
  | claimed (claim : QueueClaim)
  | done
deriving DecidableEq

/-- Run one operation. -/
def perform (q : QueueSetup) : QueueCall → WorkerProgram QueueReply
  | .accept upload => do
      let outcome ← (accept q upload).mapError WorkerQueueError.queue
      pure (.enqueued outcome)
  | .claim id batchId now prepared => do
      let claim ← claimPrepared q id batchId now prepared
      pure (.claimed claim)
  | .requeue token => do
      requeueClaimed q token
      pure .done
  | .complete token now => do
      completeClaimed q token now
      pure .done
  | .fail token errorCode now => do
      failClaimed q token errorCode now
      pure .done
  | .failPending id batchId errorCode now => do
      failPending q id batchId errorCode now
      pure .done
  | .validate claim => do
      validateClaimed q claim
      pure .done

/-- A run of the queue. -/
abbrev QueueHistory (q : QueueSetup) :=
  History (perform q) QueueDisk.empty

abbrev QueueEvent := Event QueueCall QueueDisk (Except WorkerQueueError QueueReply)

theorem perform_straight (q : QueueSetup) (call : QueueCall) : Straight (perform q call) := by
  cases call with
  | accept upload => exact (accept_straight.mapError _).bind fun _ => straight_pure _
  | claim id batchId now prepared => exact claimPrepared_straight.bind fun _ => straight_pure _
  | requeue token => exact requeueClaimed_straight.bind fun _ => straight_pure _
  | complete token now => exact transitionClaimed_straight.bind fun _ => straight_pure _
  | fail token errorCode now => exact transitionClaimed_straight.bind fun _ => straight_pure _
  | failPending id batchId errorCode now => exact failPending_straight.bind fun _ => straight_pure _
  | validate claim => exact validateClaimed_straight.bind fun _ => straight_pure _

/-- What the operations do from a disk, and what they answer. -/
inductive Effect (q : QueueSetup) (s : QueueDisk) :
    QueueCall → List QueueDisk → Except WorkerQueueError QueueReply → Prop where
  | refused {call : QueueCall} (e : WorkerQueueError) : Effect q s call [] (.error e)
  | existing {upload : Upload} {validated existing : ValidatedPackage} {state : QueueState}
      {stored : StoredPackage}
      (incoming : (readIncomingPackage q.x q.policy upload.staged).result = .ok validated)
      (located : s.Located validated.request.requestId state stored)
      (accepted : (readAcceptedPackage q.x q.policy stored).result = .ok existing)
      (same : existing.digest = validated.digest) :
      Effect q s (.accept upload) []
        (.ok (.enqueued (.existing validated.request.requestId validated.digest state)))
  | accepted {upload : Upload} {validated : ValidatedPackage}
      (incoming : (readIncomingPackage q.x q.policy upload.staged).result = .ok validated)
      (absent : s.Absent validated.request.requestId)
      (h : 0 < s.nextSequence ∧ s.nextSequence < 2 ^ 64) :
      Effect q s (.accept upload)
        [s.allocated, s.allocated.published q upload validated.request.requestId validated.digest
          ⟨s.nextSequence, upload.acceptedAt, upload.clientId, h⟩]
        (.ok (.enqueued (.accepted validated.request.requestId validated.digest)))
  | claimed {id : RequestId} {batchId : BatchId} {now : OffsetDateTime} {prepared : ValidatedPackage}
      {stored : StoredPackage} {previous : Nat} (claimable : Claimable q s id prepared stored previous)
      (h : 0 < previous + 1 ∧ previous + 1 < 2 ^ 32) :
      Effect q s (.claim id batchId now prepared)
        (claimTrail q s id (phaseRecord id batchId (previous + 1) now h))
        (.ok (.claimed ⟨⟨id, batchId, previous + 1⟩, prepared⟩))
  | requeued {token : ClaimToken} {stored : StoredPackage} {record : WorkerPhaseRecord}
      (owned : Owned q s token stored record) :
      Effect q s (.requeue token) [s.move .processing .pending token.requestId] (.ok .done)
  | completed {token : ClaimToken} {now : OffsetDateTime} {stored : StoredPackage}
      {record : WorkerPhaseRecord} (owned : Owned q s token stored record)
      (absent : stored.result = none) :
      Effect q s (.complete token now) [s.move .processing .completed token.requestId] (.ok .done)
  | failed {token : ClaimToken} {errorCode : ErrorCode} {now : OffsetDateTime}
      {stored : StoredPackage} {record : WorkerPhaseRecord} {settled : List QueueDisk}
      (owned : Owned q s token stored record)
      (settles : Settles q s token now stored (some errorCode) settled) :
      Effect q s (.fail token errorCode now) (terminalTrail s settled token.requestId .failed)
        (.ok .done)
  | repeatedSuccess {token : ClaimToken} {now : OffsetDateTime} {stored : StoredPackage}
      (located : s.Located token.requestId .completed stored)
      (valid : (validateTerminalClaim q.x stored token none).result = .ok ()) :
      Effect q s (.complete token now) [] (.ok .done)
  | repeatedFailure {token : ClaimToken} {errorCode : ErrorCode} {now : OffsetDateTime}
      {stored : StoredPackage} (located : s.Located token.requestId .failed stored)
      (valid : (validateTerminalClaim q.x stored token (some errorCode)).result = .ok ()) :
      Effect q s (.fail token errorCode now) [] (.ok .done)
  | rejected {id : RequestId} {batchId : BatchId} {errorCode : ErrorCode} {now : OffsetDateTime}
      {stored : StoredPackage} (located : s.Located id .pending stored)
      (plain : stored.result ≠ some .other) :
      Effect q s (.failPending id batchId errorCode now)
        (failPendingTrail q s id batchId errorCode now) (.ok .done)
  | validated {claim : QueueClaim} {stored : StoredPackage} {record : WorkerPhaseRecord}
      (owned : Owned q s claim.token stored record) : Effect q s (.validate claim) [] (.ok .done)

/-- The undisturbed run of a program that is followed by a computation of its answer. -/
theorem calmly_bind_pure {α β : Type} {p : WorkerProgram α} {f : α → β} {s : QueueDisk}
    (hp : Straight p) :
    (do let a ← p; pure (f a) : WorkerProgram β).calmly s =
      ((p.calmly s).1, (p.calmly s).2.map f) := by
  cases hresult : (p.calmly s).2 with
  | error e => rw [Program.calmly_bind_error hresult]; rfl
  | ok a => rw [Program.calmly_bind_ok hp hresult]; simp [Except.map]

section Answers

variable {q : QueueSetup} {s : QueueDisk} {token : ClaimToken} {now : OffsetDateTime}

theorem perform_accept (upload : Upload) :
    (perform q (.accept upload)).calmly s =
      (((accept q upload).calmly s).1,
        (((accept q upload).calmly s).2.mapError WorkerQueueError.queue).map .enqueued) :=
  calmly_bind_pure (accept_straight.mapError _)

theorem perform_requeue : (perform q (.requeue token)).calmly s =
    (((requeueClaimed q token).calmly s).1,
      ((requeueClaimed q token).calmly s).2.map fun _ => .done) :=
  calmly_bind_pure requeueClaimed_straight

theorem perform_complete : (perform q (.complete token now)).calmly s =
    (((transitionClaimed q token none now).calmly s).1,
      ((transitionClaimed q token none now).calmly s).2.map fun _ => .done) :=
  calmly_bind_pure transitionClaimed_straight

theorem perform_fail {errorCode : ErrorCode} : (perform q (.fail token errorCode now)).calmly s =
    (((transitionClaimed q token (some errorCode) now).calmly s).1,
      ((transitionClaimed q token (some errorCode) now).calmly s).2.map fun _ => .done) :=
  calmly_bind_pure transitionClaimed_straight

end Answers

theorem perform_effect (q : QueueSetup) {s : QueueDisk} (hpos : 0 < s.nextSequence) (call : QueueCall) :
    Effect q s call ((perform q call).calmly s).1 ((perform q call).calmly s).2 := by
  cases call with
  | accept upload =>
      rw [perform_accept]
      rcases accept_cases q upload hpos with ⟨e, hcalm⟩ |
        ⟨validated, state, stored, existing, hincoming, hlocated, hexisting, hdigest, hcalm⟩ |
        ⟨validated, hincoming, habsent, h, hcalm⟩
      · rw [hcalm]
        exact .refused _
      · rw [hcalm]
        exact .existing hincoming hlocated hexisting hdigest
      · rw [hcalm]
        exact .accepted hincoming habsent h
  | claim id batchId now prepared =>
      rw [perform, calmly_bind_pure claimPrepared_straight]
      rcases claimPrepared_cases q _ _ _ _ _ with ⟨e, hcalm⟩ | ⟨stored, previous, hclaimable, h, hcalm⟩
      · rw [hcalm]
        exact .refused e
      · rw [hcalm]
        exact .claimed hclaimable h
  | requeue token =>
      rw [perform_requeue]
      rcases requeueClaimed_cases with ⟨e, hcalm⟩ | ⟨stored, record, howned, hcalm⟩
      · rw [hcalm]
        exact .refused e
      · rw [hcalm]
        exact .requeued howned
  | complete token now =>
      rw [perform_complete]
      rcases transitionClaimed_cases with ⟨e, hcalm⟩ | ⟨stored, hlocated, hvalid, hcalm⟩ |
        ⟨stored, record, settled, howned, hsettles, hcalm⟩
      · rw [hcalm]
        exact .refused e
      · rw [hcalm]
        exact .repeatedSuccess hlocated hvalid
      · rw [hcalm]
        cases hsettles with
        | success habsent => exact .completed howned habsent
  | fail token errorCode now =>
      rw [perform_fail]
      rcases transitionClaimed_cases with ⟨e, hcalm⟩ | ⟨stored, hlocated, hvalid, hcalm⟩ |
        ⟨stored, record, settled, howned, hsettles, hcalm⟩
      · rw [hcalm]
        exact .refused e
      · rw [hcalm]
        exact .repeatedFailure hlocated hvalid
      · rw [hcalm]
        exact .failed howned hsettles
  | failPending id batchId errorCode now =>
      rw [perform, calmly_bind_pure failPending_straight]
      rcases failPending_cases q _ _ _ _ _ with ⟨e, hcalm⟩ | ⟨stored, hlocated, hplain, hcalm⟩
      · rw [hcalm]
        exact .refused e
      · rw [hcalm]
        exact .rejected hlocated hplain
  | validate claim =>
      rw [perform, calmly_bind_pure validateClaimed_straight]
      obtain ⟨htrail, hok⟩ := validateClaimed_calmly q s claim
      rw [htrail]
      cases hresult : ((validateClaimed q claim).calmly s).2 with
      | error e => exact .refused e
      | ok u =>
          obtain ⟨stored, record, howned⟩ := hok hresult
          exact .validated howned

/-! ### The life of one request -/

/-- The acceptance record of a package. -/
def StoredPackage.acceptanceRecord (x : QueueExternals) (stored : StoredPackage) :
    Option AcceptanceMetadata :=
  match stored.acceptance with
  | some (.file file) => x.acceptanceFormat.decode file.bytes
  | _ => none

/-- The phase record is one the queue has written for this request. -/
def StoredPackage.PhaseWritten (x : QueueExternals) (id : RequestId) (stored : StoredPackage) : Prop :=
  ∀ entry, stored.phase = some entry → ∃ record, entry = phaseEntry x record ∧
    record.schemaVersion = currentWorkerPhaseSchemaVersion ∧ record.requestId = id

/-- The result record is one the queue has written for this request. -/
def StoredPackage.ResultWritten (x : QueueExternals) (id : RequestId) (stored : StoredPackage) :
    Prop :=
  ∀ entry, stored.result = some entry → ∃ record, entry = resultEntry x record ∧
    record.schemaVersion = currentWorkerResultSchemaVersion ∧ record.requestId = id

/-- The durable steps an accepted request can take: from a state and a package to the
next. -/
inductive RequestStep (q : QueueSetup) (id : RequestId) :
    QueueState → StoredPackage → QueueState → StoredPackage → Prop where
  | mark {stored : StoredPackage} {previous : Nat} {record : WorkerPhaseRecord}
      (attempt : stored.AttemptIs q.x id previous) (next : record.attempt = previous + 1)
      (version : record.schemaVersion = currentWorkerPhaseSchemaVersion)
      (named : record.requestId = id) :
      RequestStep q id .pending stored .pending (stored.withPhase q.x record)
  | start {stored : StoredPackage} (phase : stored.phase ≠ none) :
      RequestStep q id .pending stored .processing stored
  | requeue {stored : StoredPackage} : RequestStep q id .processing stored .pending stored
  | note {state : QueueState} {stored : StoredPackage} {record : WorkerResultRecord}
      (unsettled : state = .pending ∨ state = .processing)
      (version : record.schemaVersion = currentWorkerResultSchemaVersion)
      (named : record.requestId = id) :
      RequestStep q id state stored state (stored.withResult q.x record)
  | complete {stored : StoredPackage} (result : stored.result = none) :
      RequestStep q id .processing stored .completed stored
  | fail {state : QueueState} {stored : StoredPackage}
      (unsettled : state = .pending ∨ state = .processing) (result : stored.result ≠ none) :
      RequestStep q id state stored .failed stored

/-- What is known about an accepted package in a state directory. -/
structure PackageOk (q : QueueSetup) (nextSequence : Nat) (id : RequestId) (state : QueueState)
    (stored : StoredPackage) : Prop where
  accepted : ∃ package, (readAcceptedPackage q.x q.policy stored).result = .ok package ∧
    package.request.requestId = id
  sequence : ∃ acceptance, stored.acceptanceRecord q.x = some acceptance ∧
    acceptance.sequence < nextSequence
  phase : stored.PhaseWritten q.x id
  result : stored.ResultWritten q.x id
  processing : state = .processing → stored.phase ≠ none
  completed : state = .completed → stored.result = none
  failed : state = .failed → stored.result ≠ none

section Requests

variable {q : QueueSetup} {id : RequestId} {state state' : QueueState}
  {stored stored' : StoredPackage} {next : Nat}

theorem RequestStep.sameContent (h : RequestStep q id state stored state' stored') :
    stored.SameContent stored' := by
  cases h <;> exact ⟨rfl, rfl, rfl, rfl, rfl⟩

theorem StoredPackage.PhaseWritten.plain (h : stored.PhaseWritten q.x id) :
    SidecarPlain stored.phase := by
  intro entry hentry
  obtain ⟨record, rfl, -⟩ := h entry hentry
  exact ⟨_, rfl, rfl, rfl⟩

theorem StoredPackage.ResultWritten.plain (h : stored.ResultWritten q.x id) :
    SidecarPlain stored.result := by
  intro entry hentry
  obtain ⟨record, rfl, -⟩ := h entry hentry
  exact ⟨_, rfl, rfl, rfl⟩

theorem RequestStep.phaseWritten (h : RequestStep q id state stored state' stored')
    (hphase : stored.PhaseWritten q.x id) : stored'.PhaseWritten q.x id := by
  cases h with
  | mark attempt next version named =>
      rintro entry ⟨⟩
      exact ⟨_, rfl, version, named⟩
  | start | requeue | note | complete | fail => exact hphase

theorem RequestStep.resultWritten (h : RequestStep q id state stored state' stored')
    (hresult : stored.ResultWritten q.x id) : stored'.ResultWritten q.x id := by
  cases h with
  | note unsettled version named =>
      rintro entry ⟨⟩
      exact ⟨_, rfl, version, named⟩
  | mark | start | requeue | complete | fail => exact hresult

theorem StoredPackage.SameContent.acceptanceRecord {x : QueueExternals}
    (h : stored.SameContent stored') :
    stored'.acceptanceRecord x = stored.acceptanceRecord x := by
  unfold StoredPackage.acceptanceRecord
  rw [h.acceptance]

theorem RequestStep.packageOk (h : RequestStep q id state stored state' stored')
    (hok : PackageOk q next id state stored) : PackageOk q next id state' stored' := by
  have hphase := h.phaseWritten hok.phase
  have hresult := h.resultWritten hok.result
  obtain ⟨package, hread, hid⟩ := hok.accepted
  refine {
    accepted := ⟨package, readAcceptedPackage_of_sameContent hread h.sameContent hphase.plain
      hresult.plain, hid⟩
    sequence := by rw [h.sameContent.acceptanceRecord]; exact hok.sequence
    phase := hphase
    result := hresult
    processing := ?_
    completed := ?_
    failed := ?_ }
  all_goals intro hstate
  · cases h with
    | start phase => exact phase
    | note unsettled version named => exact hok.processing hstate
    | mark | requeue | complete | fail => cases hstate
  · cases h with
    | complete result => exact result
    | note unsettled version named => rcases unsettled with rfl | rfl <;> cases hstate
    | mark | start | requeue | fail => cases hstate
  · cases h with
    | fail unsettled result => exact result
    | note unsettled version named => rcases unsettled with rfl | rfl <;> cases hstate
    | mark | start | requeue | complete => cases hstate

end Requests

/-! ### The queue -/

/-- The durable steps of the queue: a sequence is spent, a request is published under a
sequence that has been spent for it, or one request takes a step. -/
inductive QueueStep (q : QueueSetup) : QueueDisk → QueueDisk → Prop where
  | allocate {s : QueueDisk} : QueueStep q s s.allocated
  | publish {s : QueueDisk} {upload : Upload} {validated : ValidatedPackage}
      {acceptance : AcceptanceMetadata}
      (incoming : (readIncomingPackage q.x q.policy upload.staged).result = .ok validated)
      (absent : s.Absent validated.request.requestId)
      (spent : acceptance.sequence < s.nextSequence)
      (fresh : ∀ state id stored used, s.slot state id = some stored →
        stored.acceptanceRecord q.x = some used → used.sequence ≠ acceptance.sequence) :
      QueueStep q s
        (s.published q upload validated.request.requestId validated.digest acceptance)
  | request {s s' : QueueDisk} {id : RequestId} {state state' : QueueState}
      {stored stored' : StoredPackage} (before : s.Located id state stored)
      (after : s'.Located id state' stored') (step : RequestStep q id state stored state' stored')
      (frame : ∀ other, other ≠ id → ∀ state, s'.slot state other = s.slot state other)
      (next : s'.nextSequence = s.nextSequence) : QueueStep q s s'

/-- What holds in every state of a queue. -/
structure QueueInv (q : QueueSetup) (s : QueueDisk) : Prop where
  next : 0 < s.nextSequence
  place : ∀ id, s.Absent id ∨
    ∃ state stored, s.Located id state stored ∧ PackageOk q s.nextSequence id state stored
  distinct : ∀ {state state' id id' stored stored' used used'},
    s.slot state id = some stored → s.slot state' id' = some stored' →
    stored.acceptanceRecord q.x = some used → stored'.acceptanceRecord q.x = some used' →
    used.sequence = used'.sequence → id = id'

section Steps

variable {q : QueueSetup} {s s' : QueueDisk} {id : RequestId} {state : QueueState}
  {stored : StoredPackage}

theorem QueueInv.located (h : QueueInv q s) (hslot : s.slot state id = some stored) :
    s.Located id state stored ∧ PackageOk q s.nextSequence id state stored := by
  rcases h.place id with habsent | ⟨other, found, hlocated, hok⟩
  · rw [habsent state] at hslot
    cases hslot
  · obtain ⟨rfl, rfl⟩ := hlocated.unique hslot
    exact ⟨hlocated, hok⟩

theorem QueueInv.empty (q : QueueSetup) : QueueInv q .empty where
  next := by decide
  place _ := .inl fun _ => rfl
  distinct h := by cases h

theorem PackageOk.mono {next next' : Nat} (h : PackageOk q next id state stored) (hle : next ≤ next') :
    PackageOk q next' id state stored := by
  obtain ⟨acceptance, hacceptance, hlt⟩ := h.sequence
  exact { h with sequence := ⟨acceptance, hacceptance, hlt.trans_le hle⟩ }

/-- A request elsewhere is found where it was. -/
theorem QueueDisk.Located.frame (h : s.Located id state stored)
    (hframe : ∀ state, s'.slot state id = s.slot state id) : s'.Located id state stored where
  here := (hframe state).trans h.here
  only other hother := (hframe other).trans (h.only other hother)

theorem QueueDisk.Located.ne_of_absent (h : s.Located id state stored) {other : RequestId}
    (habsent : s.Absent other) : id ≠ other := by
  rintro rfl
  cases h.here.symm.trans (habsent state)

theorem QueueDisk.Absent.frame (h : s.Absent id) (hframe : ∀ state, s'.slot state id = s.slot state id) :
    s'.Absent id :=
  fun state => (hframe state).trans (h state)

theorem acceptanceRecord_acceptedPackage {staged : StoredPackage} {digest : PackageDigest}
    {acceptance : AcceptanceMetadata} :
    (acceptedPackage q.x staged digest acceptance).acceptanceRecord q.x = some acceptance :=
  q.x.acceptanceFormat.decode_encode acceptance

/-- A new package, as it is published. -/
theorem packageOk_acceptedPackage {upload : Upload} {validated : ValidatedPackage}
    {acceptance : AcceptanceMetadata} {next : Nat}
    (hincoming : (readIncomingPackage q.x q.policy upload.staged).result = .ok validated)
    (hspent : acceptance.sequence < next) :
    PackageOk q next validated.request.requestId .pending
      (acceptedPackage q.x upload.staged validated.digest acceptance) := by
  obtain ⟨-, -, -, hnames, -⟩ := readIncomingPackage_eq_ok.1 hincoming
  obtain ⟨-, -, -, hphase, hresult⟩ := hnames
  exact {
    accepted := ⟨_, readAcceptedPackage_of_incoming acceptance hincoming, rfl⟩
    sequence := ⟨acceptance, acceptanceRecord_acceptedPackage, hspent⟩
    phase := fun entry hentry => by rw [acceptedPackage, hphase] at hentry; cases hentry
    result := fun entry hentry => by rw [acceptedPackage, hresult] at hentry; cases hentry
    processing := by rintro ⟨⟩
    completed := by rintro ⟨⟩
    failed := by rintro ⟨⟩ }

theorem QueueDisk.located_published {upload : Upload} {digest : PackageDigest}
    {acceptance : AcceptanceMetadata} (h : s.Absent id) :
    (s.published q upload id digest acceptance).Located id .pending
      (acceptedPackage q.x upload.staged digest acceptance) where
  here := by simp [published, set]
  only other hother := by simp [published, set, hother, h other]

theorem QueueDisk.slot_published_other {upload : Upload} {digest : PackageDigest}
    {acceptance : AcceptanceMetadata} {other : RequestId} (h : other ≠ id) (state : QueueState) :
    (s.published q upload id digest acceptance).slot state other = s.slot state other := by
  simp [published, set, h]

/-- The invariant survives a change of one request whose sequence no other has. -/
theorem QueueInv.update (hinv : QueueInv q s) (hlocated : s'.Located id state stored)
    (hok : PackageOk q s.nextSequence id state stored)
    (hframe : ∀ other, other ≠ id → ∀ state, s'.slot state other = s.slot state other)
    (hnext : s'.nextSequence = s.nextSequence)
    (hfresh : ∀ state other found used used', other ≠ id → s.slot state other = some found →
      found.acceptanceRecord q.x = some used → stored.acceptanceRecord q.x = some used' →
      used.sequence ≠ used'.sequence) : QueueInv q s' := by
  have hpackage : ∀ {state' stored'}, s'.slot state' id = some stored' → stored' = stored :=
    fun hslot => (hlocated.unique hslot).2
  refine ⟨hnext ▸ hinv.next, fun other => ?_, ?_⟩
  · rw [hnext]
    by_cases hother : other = id
    · subst hother
      exact .inr ⟨state, stored, hlocated, hok⟩
    · rcases hinv.place other with habsent | ⟨state', stored', hlocated', hok'⟩
      · exact .inl (habsent.frame (hframe other hother))
      · exact .inr ⟨state', stored', hlocated'.frame (hframe other hother), hok'⟩
  · intro state₁ state₂ id₁ id₂ stored₁ stored₂ used₁ used₂ h₁ h₂ hused₁ hused₂ heq
    by_cases hid₁ : id₁ = id
    · subst hid₁
      by_cases hid₂ : id₂ = id₁
      · exact hid₂.symm
      · rw [hframe id₂ hid₂] at h₂
        rw [hpackage h₁] at hused₁
        exact absurd heq.symm (hfresh _ _ _ _ _ hid₂ h₂ hused₂ hused₁)
    · rw [hframe id₁ hid₁] at h₁
      by_cases hid₂ : id₂ = id
      · subst hid₂
        rw [hpackage h₂] at hused₂
        exact absurd heq (hfresh _ _ _ _ _ hid₁ h₁ hused₁ hused₂)
      · rw [hframe id₂ hid₂] at h₂
        exact hinv.distinct h₁ h₂ hused₁ hused₂ heq

/-- Every step keeps the invariant. -/
theorem QueueStep.inv (h : QueueStep q s s') (hinv : QueueInv q s) : QueueInv q s' := by
  cases h with
  | allocate =>
      refine ⟨Nat.succ_pos _, fun id => ?_, hinv.distinct⟩
      rcases hinv.place id with habsent | ⟨state, stored, hlocated, hok⟩
      · exact .inl habsent
      · exact .inr ⟨state, stored, ⟨hlocated.here, hlocated.only⟩, hok.mono (Nat.le_succ _)⟩
  | publish hincoming habsent hspent hfresh =>
      refine hinv.update (QueueDisk.located_published habsent)
        (packageOk_acceptedPackage hincoming hspent)
        (fun other hother state => QueueDisk.slot_published_other hother state) rfl ?_
      intro state other found used used' _ hslot hused hused'
      rw [acceptanceRecord_acceptedPackage] at hused'
      cases hused'
      exact hfresh state other found used hslot hused
  | request hbefore hafter hstep hframe hnext =>
      refine hinv.update hafter (hstep.packageOk (hinv.located hbefore.here).2) hframe hnext ?_
      intro state other found used used' hother hslot hused hused' heq
      rw [hstep.sameContent.acceptanceRecord] at hused'
      exact hother (hinv.distinct hslot hbefore.here hused hused' heq)

/-! ### What the operations do -/

theorem QueueStep.modify {state : QueueState} {f : StoredPackage → StoredPackage}
    (hlocated : s.Located id state stored) (hstep : RequestStep q id state stored state (f stored)) :
    QueueStep q s (s.modify state id f) :=
  .request hlocated hlocated.modify hstep
    (fun _ hother other => QueueDisk.slot_modify_other hother other) rfl

theorem QueueStep.move {target : QueueState} (hlocated : s.Located id state stored)
    (hne : state ≠ target) (hstep : RequestStep q id state stored target stored) :
    QueueStep q s (s.move state target id) :=
  .request hlocated (hlocated.move hne) hstep
    (fun _ hother other => QueueDisk.slot_move_other hother state target other) rfl

/-- A failure that is recorded and carried out. -/
theorem isChain_noteAndFail {record : WorkerResultRecord} (hlocated : s.Located id state stored)
    (hstate : state = .pending ∨ state = .processing)
    (hversion : record.schemaVersion = currentWorkerResultSchemaVersion)
    (hid : record.requestId = id) :
    List.IsChain (QueueStep q)
      [s, s.modify state id (StoredPackage.withResult q.x record),
        (s.modify state id (StoredPackage.withResult q.x record)).move state .failed id] := by
  have hne : state ≠ .failed := by rcases hstate with rfl | rfl <;> decide
  refine .cons_cons (.modify hlocated (.note hstate hversion hid)) (.cons_cons ?_ (.singleton _))
  exact .move hlocated.modify hne (.fail hstate (by rintro ⟨⟩))

/-- Every operation takes only steps of the queue. -/
theorem Effect.chain {call : QueueCall} {trail : List QueueDisk}
    {result : Except WorkerQueueError QueueReply} (h : Effect q s call trail result)
    (hinv : QueueInv q s) : List.IsChain (QueueStep q) (s :: trail) := by
  cases h with
  | refused | existing | repeatedSuccess | repeatedFailure | validated => exact .singleton _
  | accepted hincoming habsent hvalid =>
      refine .cons_cons .allocate (.cons_cons (.publish hincoming habsent (Nat.lt_succ_self _) ?_)
        (.singleton _))
      -- All sequences in use are below the one that has just been spent.
      intro state id stored used hslot hused heq
      obtain ⟨acceptance, hacceptance, hlt⟩ := (hinv.located hslot).2.sequence
      cases hused.symm.trans hacceptance
      exact absurd heq (Nat.ne_of_lt hlt)
  | claimed hclaimable hvalid =>
      have hlocated := hclaimable.located
      refine .cons_cons (.modify hlocated (.mark hclaimable.attempt rfl rfl rfl))
        (.cons_cons ?_ (.singleton _))
      exact .move hlocated.modify (by decide) (.start (by rintro ⟨⟩))
  | requeued howned => exact .cons_cons (.move howned.located (by decide) .requeue) (.singleton _)
  | completed howned habsent =>
      exact .cons_cons (.move howned.located (by decide) (.complete habsent)) (.singleton _)
  | failed howned hsettles =>
      cases hsettles with
      | failure habsent => exact isChain_noteAndFail howned.located (.inr rfl) rfl rfl
      | again hresult hsame =>
          obtain ⟨file, hfile, -⟩ := hresult
          refine .cons_cons (.move howned.located (by decide) (.fail (.inr rfl) ?_)) (.singleton _)
          rw [hfile]
          rintro ⟨⟩
  | rejected hlocated hplain => exact isChain_noteAndFail hlocated (.inl rfl) rfl rfl

/-- Every operation of a history, disturbed or cut or not, takes only steps of the
queue. -/
theorem perform_chain (call : QueueCall) (o : Oracle QueueMove IoSite) (hinv : QueueInv q s) :
    List.IsChain (QueueStep q) (s :: (perform q call s o).trail) :=
  List.IsChain.prefix ((perform_effect q hinv.next call).chain hinv)
    ((List.prefix_cons_inj _).2 ((perform_straight q call).trail s o))

end Steps

/-! ### How a request gets on -/

/-- The phase record of a package. -/
def StoredPackage.phaseRecord (x : QueueExternals) (stored : StoredPackage) :
    Option WorkerPhaseRecord :=
  match stored.phase with
  | some (.file file) => x.phaseFormat.decode file.bytes
  | _ => none

/-- The attempt in the phase record of a package; zero without one. -/
def StoredPackage.attempt (x : QueueExternals) (stored : StoredPackage) : Nat :=
  (stored.phaseRecord x).elim 0 WorkerPhaseRecord.attempt

/-- What later states of an accepted request have in common with earlier ones. -/
structure Progress (q : QueueSetup) (state : QueueState) (stored : StoredPackage)
    (state' : QueueState) (stored' : StoredPackage) : Prop where
  content : stored.SameContent stored'
  settled : state = .completed ∨ state = .failed → state' = state ∧ stored' = stored
  attempt : stored.attempt q.x ≤ stored'.attempt q.x
  phase : stored'.attempt q.x = stored.attempt q.x → stored'.phase = stored.phase

section Progress

variable {q : QueueSetup} {s s' : QueueDisk} {id : RequestId} {state state' : QueueState}
  {stored stored' : StoredPackage}

theorem StoredPackage.HasPhase.phaseRecord {record : WorkerPhaseRecord}
    (h : stored.HasPhase q.x id record) : stored.phaseRecord q.x = some record := by
  obtain ⟨file, hfile, -, hdecode, -⟩ := h
  simp [StoredPackage.phaseRecord, hfile, hdecode]

theorem StoredPackage.HasPhase.attempt {record : WorkerPhaseRecord}
    (h : stored.HasPhase q.x id record) : stored.attempt q.x = record.attempt := by
  rw [StoredPackage.attempt, h.phaseRecord]
  rfl

theorem StoredPackage.AttemptIs.attempt {n : Nat} (h : stored.AttemptIs q.x id n) :
    stored.attempt q.x = n := by
  cases h with
  | unclaimed h => simp [StoredPackage.attempt, StoredPackage.phaseRecord, h]
  | claimed h => exact h.attempt

@[simp] theorem phaseRecord_withPhase {record : WorkerPhaseRecord} :
    (stored.withPhase q.x record).phaseRecord q.x = some record :=
  q.x.phaseFormat.decode_encode record

@[simp] theorem attempt_withPhase {record : WorkerPhaseRecord} :
    (stored.withPhase q.x record).attempt q.x = record.attempt := by
  rw [StoredPackage.attempt, phaseRecord_withPhase]
  rfl

@[simp] theorem attempt_withResult {record : WorkerResultRecord} :
    (stored.withResult q.x record).attempt q.x = stored.attempt q.x := rfl

theorem StoredPackage.SameContent.refl (stored : StoredPackage) : stored.SameContent stored :=
  ⟨rfl, rfl, rfl, rfl, rfl⟩

theorem StoredPackage.SameContent.trans {stored'' : StoredPackage} (h : stored.SameContent stored')
    (h' : stored'.SameContent stored'') : stored.SameContent stored'' :=
  ⟨h'.request.trans h.request, h'.payload.trans h.payload, h'.digest.trans h.digest,
    h'.acceptance.trans h.acceptance, h'.unexpected.trans h.unexpected⟩

theorem Progress.refl (q : QueueSetup) (state : QueueState) (stored : StoredPackage) :
    Progress q state stored state stored :=
  ⟨.refl stored, fun _ => ⟨rfl, rfl⟩, le_refl _, fun _ => rfl⟩

theorem Progress.trans {state'' : QueueState} {stored'' : StoredPackage}
    (h : Progress q state stored state' stored') (h' : Progress q state' stored' state'' stored'') :
    Progress q state stored state'' stored'' where
  content := h.content.trans h'.content
  settled hstate := by
    obtain ⟨rfl, rfl⟩ := h.settled hstate
    exact h'.settled hstate
  attempt := h.attempt.trans h'.attempt
  phase heq := by
    have hle := h.attempt
    have hle' := h'.attempt
    rw [h'.phase (by omega), h.phase (by omega)]

theorem RequestStep.progress (h : RequestStep q id state stored state' stored') :
    Progress q state stored state' stored' where
  content := h.sameContent
  settled hstate := by
    cases h with
    | note unsettled | fail unsettled =>
        rcases unsettled with rfl | rfl <;> rcases hstate with hstate | hstate <;> cases hstate
    | mark | start | requeue | complete => rcases hstate with hstate | hstate <;> cases hstate
  attempt := by
    cases h with
    | mark attempt next => rw [attempt_withPhase, attempt.attempt]; omega
    | start | requeue | note | complete | fail => exact le_refl _
  phase heq := by
    cases h with
    | mark attempt next => rw [attempt_withPhase, attempt.attempt] at heq; omega
    | start | requeue | note | complete | fail => rfl

/-- Every accepted request is still there later on. -/
theorem QueueStep.progress (h : QueueStep q s s') (hlocated : s.Located id state stored) :
    ∃ state' stored', s'.Located id state' stored' ∧ Progress q state stored state' stored' := by
  cases h with
  | allocate => exact ⟨state, stored, ⟨hlocated.here, hlocated.only⟩, .refl q state stored⟩
  | publish hincoming habsent =>
      exact ⟨state, stored,
        hlocated.frame (QueueDisk.slot_published_other (hlocated.ne_of_absent habsent)),
        .refl q state stored⟩
  | @request _ moved _ _ _ _ hbefore hafter hstep hframe =>
      by_cases hid : id = moved
      · subst hid
        obtain ⟨rfl, rfl⟩ := hbefore.unique hlocated.here
        exact ⟨_, _, hafter, hstep.progress⟩
      · exact ⟨state, stored, hlocated.frame (hframe id hid), .refl q state stored⟩

theorem progress_of_reflTransGen (h : Relation.ReflTransGen (QueueStep q) s s')
    (hlocated : s.Located id state stored) :
    ∃ state' stored', s'.Located id state' stored' ∧ Progress q state stored state' stored' := by
  induction h with
  | refl => exact ⟨state, stored, hlocated, .refl q state stored⟩
  | tail _ hstep ih =>
      obtain ⟨_, _, hmiddle, hprogress⟩ := ih
      obtain ⟨state', stored', hlast, hprogress'⟩ := hstep.progress hmiddle
      exact ⟨state', stored', hlast, hprogress.trans hprogress'⟩

end Progress

end AgentKnowledge
