import AgentKnowledge.Queue.Transitions

/-!
The status of a request as a client sees it (`crates/queue/src/file_queue/status.rs`).

The reader takes no lock, so it looks up to three times when a request seems to be in
no state or in several. The model looks at one disk: what is reported about a queue
that nobody changes meanwhile.
-/

namespace AgentKnowledge

open Results

/-- A request state observed without changing or locking the durable queue. -/
inductive QueueRequestStatus where
  | pending
  | processing
  | completed
  | failed (errorCode : ErrorCode) (failedAt : OffsetDateTime)
deriving DecidableEq

def maximumStateObservationAttempts : Nat := 3

/-- The record the result file of a failed request has to hold. -/
def WorkerResultRecord.isFailureOf (record : WorkerResultRecord) (id : RequestId) : Bool :=
  record.schemaVersion = currentWorkerResultSchemaVersion && record.requestId = id &&
    record.status = .failed

def readFailedStatus (x : QueueExternals) (package : StoredPackage) (id : RequestId) :
    QueueReading QueueRequestStatus := do
  let corrupt := QueueError.corruptState id .failed
  .call .resultRecord .io
  match package.result with
  | none => .lift (.error (corrupt "failed request is missing result metadata"))
  | some .other => .lift (.error (corrupt "failed request result metadata is not a regular file"))
  | some (.file file) => do
      .lift (rejectIf (maximumResultFileBytes < file.bytes.length)
        (corrupt "failed request result metadata exceeds its byte limit"))
      .call .resultRecord .io
      let record ← .lift (ofOption (x.resultFormat.decode file.bytes)
        (corrupt "failed request result metadata is invalid"))
      .lift (rejectIf (¬ record.isFailureOf id)
        (corrupt "failed request result metadata does not match its queue entry"))
      pure (.failed record.errorCode record.failedAt)

/-- `observe_states`: the state directories that hold the request. -/
def observeStates (disk : QueueDisk) (id : RequestId) :
    QueueReading (List (QueueState × StoredPackage)) :=
  QueueState.all.foldlM (fun observed state => do
    .call .deadline .operationDeadlineExceeded
    .call .findExisting .io
    match disk.slot state id with
    | none => pure observed
    | some stored => pure (observed ++ [(state, stored)])) []

/-- `observe_single_state_until`, with the attempts that are left. -/
def observeSingleState (disk : QueueDisk) (id : RequestId) :
    Nat → QueueReading (Option (QueueState × StoredPackage))
  | 0 => .lift (.error (.requestInMultipleStates id))
  | attempts + 1 => do
      match ← observeStates disk id with
      | [found] => pure (some found)
      | [] =>
          if attempts = 0 then pure none
          else do
            .call .deadline .operationDeadlineExceeded
            observeSingleState disk id attempts
      | _ => do
          .call .deadline .operationDeadlineExceeded
          observeSingleState disk id attempts

/-- The status of a request in a state directory. -/
def statusIn (x : QueueExternals) (id : RequestId) (state : QueueState) (stored : StoredPackage) :
    QueueReading QueueRequestStatus :=
  match state with
  | .pending => pure .pending
  | .processing => pure .processing
  | .completed => pure .completed
  | .failed => readFailedStatus x stored id

/-- `status_until`. -/
def statusUntil (x : QueueExternals) (id : RequestId) (disk : QueueDisk) :
    QueueReading (Option QueueRequestStatus) := do
  .call .deadline .operationDeadlineExceeded
  .call .queueIdentity .io
  match ← observeSingleState disk id maximumStateObservationAttempts with
  | none => do
      .call .queueIdentity .io
      pure none
  | some (state, stored) => do
      let status ← statusIn x id state stored
      .call .queueIdentity .io
      pure (some status)

section Status

variable {x : QueueExternals} {disk : QueueDisk} {id : RequestId} {state : QueueState}
  {stored : StoredPackage}

theorem readFailedStatus_eq_ok {status : QueueRequestStatus} :
    (readFailedStatus x stored id).result = .ok status ↔
      ∃ record, stored.HasResult x record ∧ record.isFailureOf id ∧
        status = .failed record.errorCode record.failedAt := by
  unfold readFailedStatus StoredPackage.HasResult
  rcases stored.result with _ | _ | file
  · simp
  · rename_i file
    simp only [Reading.result_bind, Reading.result_call, Reading.result_lift, Reading.result_pure,
      ok_bind, bind_eq_ok, exists_unit, rejectIf_eq_ok, ofOption_eq_ok, Option.some.injEq,
      FileEntry.file.injEq, exists_eq_left', not_lt, not_not, Except.ok.injEq]
    constructor
    · rintro ⟨hlength, record, hdecode, hfailure, rfl⟩
      exact ⟨record, ⟨hlength, hdecode⟩, hfailure, rfl⟩
    · rintro ⟨record, ⟨hlength, hdecode⟩, hfailure, rfl⟩
      exact ⟨hlength, record, hdecode, hfailure, rfl⟩
  · simp

theorem observeStates_of_located (h : disk.Located id state stored) :
    (observeStates disk id).result = .ok [(state, stored)] := by
  rw [observeStates, Reading.result_foldlM]
  simp only [QueueState.all, List.foldlM_cons, List.foldlM_nil]
  cases state <;> simp [h.here, h.only]

/-- A request in one state directory has the status its directory gives it. -/
theorem statusUntil_of_located (h : disk.Located id state stored) :
    (statusUntil x id disk).result =
      (statusIn x id state stored).result >>= fun status => .ok (some status) := by
  simp [statusUntil, observeSingleState, maximumStateObservationAttempts,
    observeStates_of_located h]

end Status

end AgentKnowledge
