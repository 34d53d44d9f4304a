import AgentKnowledge.Lib.Durable
import AgentKnowledge.Queue.Storage

/-!
The file queue: acceptance, claims, and terminal transitions
(`crates/queue/src/file_queue.rs`, `file_queue/worker.rs` and
`file_queue/worker/result.rs`).

A `QueueDisk` is what the four state directories and the sequence file hold. Each
operation runs under the queue lock and is a durable program: its steps are the
renames and record writes that outlive a crash, its calls are the file-system
calls that may fail. Staging directories and temporary files are private to the
operation that makes them and are no part of the state.
-/

namespace AgentKnowledge

open Results Durable

/-- An accepted queue state represented by one directory below `queue/`. -/
inductive QueueState where
  | pending
  | processing
  | completed
  | failed
deriving DecidableEq, Repr

def QueueState.all : List QueueState := [.pending, .processing, .completed, .failed]

/-- The durable state of one queue. -/
structure QueueDisk where
  /-- The request directories of the four states. -/
  slot : QueueState → RequestId → Option StoredPackage
  /-- Why each entry of a state directory that is no request directory is refused. -/
  foreign : QueueState → List String
  /-- The number in `next-sequence`. -/
  nextSequence : Nat

/-- An initialized queue without requests. -/
def QueueDisk.empty : QueueDisk where
  slot _ _ := none
  foreign _ := []
  nextSequence := 1

namespace QueueDisk

/-- The directory with one entry replaced. -/
def set (disk : QueueDisk) (state : QueueState) (id : RequestId) (entry : Option StoredPackage) :
    QueueDisk :=
  { disk with slot := fun s i => if s = state ∧ i = id then entry else disk.slot s i }

/-- The rename of a request directory. -/
def move (disk : QueueDisk) (source target : QueueState) (id : RequestId) : QueueDisk :=
  (disk.set target id (disk.slot source id)).set source id none

/-- A change inside a request directory. -/
def modify (disk : QueueDisk) (state : QueueState) (id : RequestId)
    (f : StoredPackage → StoredPackage) : QueueDisk :=
  disk.set state id ((disk.slot state id).map f)

end QueueDisk

/-- A configured limit on incoming packages. -/
inductive QueueLimit where
  | totalBytes
  | individualFileBytes
  | fileCount
  | directoryCount
  | entryCount
  | pathComponents
deriving DecidableEq

/-- A durable queue operation failure. -/
inductive QueueError where
  | io
  | package (source : PackageValidationError)
  | requestAlreadyWritten
  | payloadAlreadyWritten (path : PayloadPath)
  | payloadPrefixCollision (path : PayloadPath)
  | limitExceeded (limit : QueueLimit) (maximum actual : Nat)
  | requestIdReused (requestId : RequestId) (state : QueueState)
  | sequenceExhausted
  | invalidSequenceState
  | operationDeadlineExceeded
  | requestInMultipleStates (requestId : RequestId)
  | corruptState (requestId : RequestId) (state : QueueState) (detail : String)
deriving DecidableEq

def QueueError.errorCode : QueueError → ErrorCode
  | .io | .operationDeadlineExceeded => .temporaryFailure
  | .package source => source.errorCode
  | .requestAlreadyWritten | .payloadAlreadyWritten _ | .payloadPrefixCollision _ => .invalidRequest
  | .limitExceeded .. => .limitExceeded
  | .requestIdReused .. => .requestIdReused
  | .corruptState .. => .contentValidationFailed
  | .requestInMultipleStates _ | .sequenceExhausted | .invalidSequenceState => .internalError

/-- Failure of a Worker transition. -/
inductive WorkerQueueError where
  | queue (source : QueueError)
  | io
  | invalidPhaseMetadata
  | invalidResultMetadata
  | invalidBatchLimits
  | batchScanChanged (activeBatchId : BatchId)
  | batchScanFailed (failedRequests : Nat) (source : WorkerQueueError)
  | batchScanInProgress (activeBatchId : BatchId)
  | invalidBatchSnapshot
  | processingScanInProgress
  | processingRecoveryRequired
  | invalidProcessingScanLimit
  | invalidPendingEntry (detail : String)
  | invalidProcessingEntry (detail : String)
  | requestNotFound (requestId : RequestId)
  | invalidState (requestId : RequestId) (expected actual : QueueState)
  | corruptPackage (requestId : RequestId) (state : QueueState) (source : PackageValidationError)
  | corruptState (requestId : RequestId) (state : QueueState) (detail : String)
  | attemptExhausted (requestId : RequestId)
  | claimChanged (requestId : RequestId)
  | invalidReconciliation
deriving DecidableEq

def WorkerQueueError.errorCode : WorkerQueueError → ErrorCode
  | .batchScanFailed _ source => source.errorCode
  | .queue source => source.errorCode
  | .io => .temporaryFailure
  | .requestNotFound _ | .invalidState .. | .claimChanged _ | .invalidBatchLimits
  | .batchScanChanged _ | .batchScanInProgress _ | .invalidBatchSnapshot
  | .processingScanInProgress | .processingRecoveryRequired | .invalidProcessingScanLimit
  | .invalidReconciliation => .invalidRequest
  | .corruptPackage .. | .corruptState .. | .invalidPendingEntry _ | .invalidProcessingEntry _
  | .invalidPhaseMetadata | .invalidResultMetadata => .contentValidationFailed
  | .attemptExhausted _ => .internalError

/-- What a queue is configured with. -/
structure QueueSetup where
  x : QueueExternals
  policy : PackagePolicy
  identity : Revision

abbrev QueueReading (α : Type) := Reading IoSite QueueError α
abbrev WorkerReading (α : Type) := Reading IoSite WorkerQueueError α

/-- What a cursor over a state directory returns: a request directory, or an entry that
is refused with a reason. -/
inductive DirectoryEntry where
  | request (id : RequestId)
  | foreign (detail : String)
deriving DecidableEq

/-- A pending request that a batch scan retains. -/
structure PendingCandidate where
  sequence : Nat
  requestId : RequestId
deriving DecidableEq

/-- `PendingBatchScan`, while it is active. The cursor is what it will still return. -/
structure PendingBatchScan where
  entries : List DirectoryEntry
  /-- The heap, as `into_sorted_vec` shows it. -/
  candidates : List PendingCandidate
  batchId : BatchId
  maximumRequests : Nat
  maximumSequence : Nat
  failedRequests : Nat

/-- Exclusive Repository Worker access to one file queue. -/
structure WorkerSession where
  pendingScan : Option PendingBatchScan
  processingScan : Option (List DirectoryEntry)
  processingRecoveryComplete : Bool

/-- A queue and the session of its Worker. -/
structure QueueWorld where
  disk : QueueDisk
  session : WorkerSession

/-- What others may do to the queue while the lock is free. An open cursor may see it. -/
abbrev QueueMove := QueueWorld → QueueWorld

abbrev QueueProgram (α : Type) := Program QueueDisk QueueMove IoSite QueueError α
abbrev WorkerProgram (α : Type) := Program QueueDisk QueueMove IoSite WorkerQueueError α

/-! ### Finding a request -/

/-- `open_queue_lock`, `lock` and `current_identity_locked`. -/
def lockQueue : WorkerReading Unit := do
  .call .queueLock (.queue .io)
  .call .queueLock .io
  .call .queueIdentity (.queue .io)

def checkIdentity : WorkerReading Unit := .call .queueIdentity (.queue .io)

def readStoredDigest (package : StoredPackage) (id : RequestId) (state : QueueState) :
    QueueReading PackageDigest := do
  let corrupt := QueueError.corruptState id state
  .call .storedDigest .io
  let entry ← .lift (ofOption package.digest (corrupt "digest is missing"))
  match entry with
  | .other => .lift (.error (corrupt "digest entry is not a regular file"))
  | .file file => do
      .call .storedDigest .io
      .call .storedDigest .io
      let bytes := file.bytes.take (maximumDigestFileBytes + 1)
      .lift (rejectIf (¬ Bytes.validUtf8 bytes) (corrupt "digest is not UTF-8"))
      .lift (rejectIf (maximumDigestFileBytes < bytes.length) (corrupt "digest file is too large"))
      .lift (rejectIf (bytes.getLast? ≠ some lineFeed) (corrupt "digest is not newline-terminated"))
      .lift (rejectIf (lineFeed ∈ bytes.dropLast) (corrupt "digest contains multiple lines"))
      .lift (ofOption ((Revision.parse bytes.dropLast).map PackageDigest.mk)
        (corrupt "digest is not a canonical SHA-256 value"))

/-- One turn of the loops that look for a request in the four state directories;
`inspect` is what they read of the directory they find. -/
def searchIn {ε α : Type} (io duplicate : ε)
    (inspect : QueueState → StoredPackage → Reading IoSite ε α) (disk : QueueDisk) (id : RequestId)
    (existing : Option α) (state : QueueState) : Reading IoSite ε (Option α) := do
  .call .findExisting io
  match disk.slot state id with
  | none => pure existing
  | some stored => do
      .lift (rejectIf existing.isSome duplicate)
      let found ← inspect state stored
      pure (some found)

def search {ε α : Type} (io duplicate : ε)
    (inspect : QueueState → StoredPackage → Reading IoSite ε α) (disk : QueueDisk)
    (id : RequestId) : Reading IoSite ε (Option α) :=
  QueueState.all.foldlM (searchIn io duplicate inspect disk id) none

/-- `find_existing`. -/
def findExisting (disk : QueueDisk) (id : RequestId) :
    QueueReading (Option (QueueState × PackageDigest)) :=
  search .io (.requestInMultipleStates id) (fun state stored => do
    let digest ← readStoredDigest stored id state
    pure (state, digest)) disk id

/-- `find_existing_state_without_package_read`. -/
def findExistingState (disk : QueueDisk) (id : RequestId) : WorkerReading (Option QueueState) :=
  search .io (.queue (.requestInMultipleStates id)) (fun state _ => pure state) disk id

/-! ### Acceptance -/

/-- One upload: the staged package, the authenticated client and the time of the
acceptance. -/
structure Upload where
  staged : StoredPackage
  clientId : Option ClientId
  acceptedAt : OffsetDateTime

inductive EnqueueOutcome where
  | accepted (requestId : RequestId) (digest : PackageDigest)
  | existing (requestId : RequestId) (digest : PackageDigest) (state : QueueState)
deriving DecidableEq

/-- `allocate_sequence`: the number is spent before it is used. -/
def allocateSequence : QueueProgram Nat := do
  let sequence ← .read fun disk => do
    .call .nextSequence .io
    .call .nextSequence .io
    .lift (rejectIf (2 ^ 64 ≤ disk.nextSequence + 1) .sequenceExhausted)
    .call .acceptWrite .io
    .call .acceptWrite .io
    pure disk.nextSequence
  .step fun disk => { disk with nextSequence := disk.nextSequence + 1 }
  .read fun _ => .call .acceptWrite .io
  pure sequence

/-- The acceptance of an ID that is in the queue already. -/
def acceptExisting (q : QueueSetup) (id : RequestId) (digest : PackageDigest) (state : QueueState)
    (stored : StoredPackage) : QueueReading EnqueueOutcome := do
  let existing ← (readAcceptedPackage q.x q.policy stored).mapError fun
    | .io => .io
    | _ => .corruptState id state "accepted package failed immutable revalidation"
  .lift (rejectIf (existing.request.requestId ≠ id)
    (.corruptState id state "accepted package identity does not match its queue entry"))
  .lift (rejectIf (existing.digest ≠ digest) (.requestIdReused id state))
  .call .acceptWrite .io
  .call .queueIdentity .io
  pure (.existing id digest state)

/-- The staged package with its digest and acceptance record. -/
def acceptedPackage (x : QueueExternals) (staged : StoredPackage) (digest : PackageDigest)
    (acceptance : AcceptanceMetadata) : StoredPackage :=
  { staged with
    digest := some (digestEntry digest)
    acceptance := some (acceptanceEntry x acceptance) }

def acceptanceMetadata (sequence : Nat) (upload : Upload) : Except QueueError AcceptanceMetadata :=
  if h : 0 < sequence ∧ sequence < 2 ^ 64 then .ok ⟨sequence, upload.acceptedAt, upload.clientId, h⟩
  else .error .invalidSequenceState

/-- The acceptance of a new ID. -/
def acceptNew (q : QueueSetup) (upload : Upload) (id : RequestId) (digest : PackageDigest) :
    QueueProgram EnqueueOutcome := do
  let sequence ← allocateSequence
  let acceptance ← .lift (acceptanceMetadata sequence upload)
  .read fun _ => do
    .call .acceptWrite .io
    .call .queueIdentity .io
    .call .acceptWrite .io
  .step fun disk =>
    disk.set .pending id (some (acceptedPackage q.x upload.staged digest acceptance))
  .read fun _ => do
    .call .acceptWrite .io
    .call .queueIdentity .io
  pure (.accepted id digest)

/-- The staged package is validated and synchronized before the lock is taken. -/
def acceptChecks (q : QueueSetup) (upload : Upload) : QueueReading ValidatedPackage := do
  .call .deadline .operationDeadlineExceeded
  let validated ← (readIncomingPackage q.x q.policy upload.staged).mapError QueueError.package
  .call .deadline (.package .io)
  .call .acceptWrite .io
  .call .deadline .operationDeadlineExceeded
  .call .queueLock .io
  .call .deadline .operationDeadlineExceeded
  .call .queueIdentity .io
  pure validated

/-- The state and the directory of a request that is in the queue. -/
def existingPackage (id : RequestId) (disk : QueueDisk) :
    QueueReading (Option (QueueState × StoredPackage)) := do
  match ← findExisting disk id with
  | none => pure none
  | some (state, _) => pure ((disk.slot state id).map fun stored => (state, stored))

/-- `accept_with_hook_until`. -/
def accept (q : QueueSetup) (upload : Upload) : QueueProgram EnqueueOutcome := do
  let validated ← .read fun _ => acceptChecks q upload
  let id := validated.request.requestId
  match ← .read (existingPackage id) with
  | some (state, stored) => .read fun _ => acceptExisting q id validated.digest state stored
  | none => acceptNew q upload id validated.digest

/-! ### Phase records -/

def currentWorkerPhaseSchemaVersion : Nat := 1

def readPhaseRecord (x : QueueExternals) (file : StoredFile) (id : RequestId) (state : QueueState) :
    WorkerReading WorkerPhaseRecord := do
  let corrupt := WorkerQueueError.corruptState id state
  .call .phaseRecord .io
  .call .phaseRecord .io
  .lift (rejectIf (maximumPhaseFileBytes < file.bytes.length)
    (corrupt "phase metadata exceeds its byte limit"))
  let record ← .lift (ofOption (x.phaseFormat.decode file.bytes) .invalidPhaseMetadata)
  .lift (rejectIf (record.schemaVersion ≠ currentWorkerPhaseSchemaVersion)
    (corrupt "phase metadata has an unsupported schema version"))
  .lift (rejectIf (record.requestId ≠ id) (corrupt "phase metadata names a different request"))
  pure record

def readOptionalPhaseRecord (x : QueueExternals) (package : StoredPackage) (id : RequestId)
    (state : QueueState) : WorkerReading (Option WorkerPhaseRecord) := do
  .call .phaseRecord .io
  match package.phase with
  | none => pure none
  | some .other => .lift (.error (.corruptState id state "phase metadata is not a regular file"))
  | some (.file file) => do
      let record ← readPhaseRecord x file id state
      pure (some record)

def readRequiredPhaseRecord (x : QueueExternals) (package : StoredPackage) (id : RequestId)
    (state : QueueState) : WorkerReading WorkerPhaseRecord := do
  let record ← readOptionalPhaseRecord x package id state
  .lift (ofOption record (.corruptState id state "processing package is missing phase metadata"))

def nextAttempt (x : QueueExternals) (package : StoredPackage) (id : RequestId)
    (state : QueueState) : WorkerReading Nat := do
  let record ← readOptionalPhaseRecord x package id state
  let next := (record.elim 0 WorkerPhaseRecord.attempt) + 1
  .lift (rejectIf (2 ^ 32 ≤ next) (.attemptExhausted id))
  pure next

/-- The record `claim_prepared` writes. -/
def phaseRecord (id : RequestId) (batchId : BatchId) (attempt : Nat) (now : OffsetDateTime)
    (h : 0 < attempt ∧ attempt < 2 ^ 32) : WorkerPhaseRecord where
  schemaVersion := currentWorkerPhaseSchemaVersion
  requestId := id
  batchId := batchId
  attempt := attempt
  phase := .claimed
  updatedAt := now
  valid := ⟨by decide, h.1, h.2⟩

/-- Whether a record names the owner and the attempt of a token. -/
def WorkerPhaseRecord.names (record : WorkerPhaseRecord) (token : ClaimToken) : Bool :=
  record.batchId = token.batchId && record.attempt = token.attempt && record.phase = .claimed

/-- The file `write_phase_record` leaves. -/
def phaseEntry (x : QueueExternals) (record : WorkerPhaseRecord) : FileEntry :=
  .file { bytes := x.phaseFormat.encode record }

/-- Put a phase record into a package. -/
def StoredPackage.withPhase (x : QueueExternals) (record : WorkerPhaseRecord)
    (package : StoredPackage) : StoredPackage :=
  { package with phase := some (phaseEntry x record) }

/-! ### Claims -/

/-- A validated package moved from `pending/` to `processing/`. -/
structure QueueClaim where
  token : ClaimToken
  package : ValidatedPackage
deriving DecidableEq

/-- `revalidate_accepted`. -/
def revalidateAccepted (q : QueueSetup) (package : StoredPackage) (id : RequestId)
    (state : QueueState) : WorkerReading ValidatedPackage :=
  (readAcceptedPackage q.x q.policy package).mapError fun
    | .io => .io
    | error => .corruptPackage id state error

/-- `prepare_claim`, on the directory of a pending request. -/
def prepareClaim (q : QueueSetup) (stored : StoredPackage) (id : RequestId) :
    WorkerReading ValidatedPackage := do
  let package ← revalidateAccepted q stored id .pending
  .lift (rejectIf (package.request.requestId ≠ id)
    (.corruptState id .pending "accepted package identity does not match its queue entry"))
  let _ ← nextAttempt q.x stored id .pending
  pure package

/-- `ensure_pending_locked`, with the directory it finds. -/
def ensurePending (disk : QueueDisk) (id : RequestId) :
    WorkerReading (PackageDigest × StoredPackage) := do
  match ← (findExisting disk id).mapError WorkerQueueError.queue with
  | none => .lift (.error (.requestNotFound id))
  | some (state, digest) => do
      .lift (rejectIf (state ≠ .pending) (.invalidState id .pending state))
      let stored ← .lift (ofOption (disk.slot .pending id) (.requestNotFound id))
      pure (digest, stored)

/-- `write_phase_record`, up to the rename of the temporary file. -/
def phaseDestination (stored : StoredPackage) (id : RequestId) : WorkerReading Unit := do
  .call .claimWrite .io
  .lift (rejectIf (stored.phase = some .other)
    (.corruptState id .pending "phase metadata is not a regular file"))
  .call .claimWrite .io

/-- The checks of `claim_prepared_with_hook`; the attempt is the one it will record. -/
def claimChecks (q : QueueSetup) (id : RequestId) (prepared : ValidatedPackage) (disk : QueueDisk) :
    WorkerReading Nat := do
  lockQueue
  let (digest, stored) ← ensurePending disk id
  .lift (rejectIf (digest ≠ prepared.digest)
    (.corruptState id .pending "accepted package changed after Worker validation"))
  let attempt ← nextAttempt q.x stored id .pending
  phaseDestination stored id
  pure attempt

/-- `claim_prepared_with_hook`: the phase record, then the rename. -/
def claimPrepared (q : QueueSetup) (id : RequestId) (batchId : BatchId) (now : OffsetDateTime)
    (prepared : ValidatedPackage) : WorkerProgram QueueClaim := do
  let attempt ← .read fun disk => (claimChecks q id prepared disk).sited .claimWrite
  let record ← .lift (if h : 0 < attempt ∧ attempt < 2 ^ 32 then
    .ok (phaseRecord id batchId attempt now h) else .error (.attemptExhausted id))
  .step fun disk => disk.modify .pending id (StoredPackage.withPhase q.x record)
  .read fun _ => do
    .call .claimWrite (.queue .io)
    checkIdentity.sited .claimWrite
    .call .claimWrite .io
  .step fun disk => disk.move .pending .processing id
  .read fun _ => do
    .call .claimWrite (.queue .io)
    checkIdentity.sited .claimWrite
  pure { token := ⟨id, batchId, attempt⟩, package := prepared }

/-- The ownership check `requeue_claimed` and `validate_claimed` share: the request is
processing under this token. The digest is the stored one. -/
def ensureOwned (q : QueueSetup) (token : ClaimToken) (disk : QueueDisk) :
    WorkerReading PackageDigest := do
  let id := token.requestId
  lockQueue
  match ← (findExisting disk id).mapError WorkerQueueError.queue with
  | none => .lift (.error (.requestNotFound id))
  | some (state, digest) => do
      .lift (rejectIf (state ≠ .processing) (.invalidState id .processing state))
      let stored ← .lift (ofOption (disk.slot .processing id) (.requestNotFound id))
      let record ← readRequiredPhaseRecord q.x stored id .processing
      .lift (rejectIf (¬ record.names token) (.claimChanged id))
      pure digest

/-- `requeue_claimed`. -/
def requeueClaimed (q : QueueSetup) (token : ClaimToken) : WorkerProgram Unit := do
  let id := token.requestId
  .read fun disk => do
    let _ ← ensureOwned q token disk
    checkIdentity
    .call .requeueWrite .io
  .step fun disk => disk.move .processing .pending id
  .read fun _ => do
    .call .requeueWrite (.queue .io)
    checkIdentity

/-- `validate_claimed`. -/
def validateClaimed (q : QueueSetup) (claim : QueueClaim) : WorkerProgram Unit :=
  .read fun disk => do
    let digest ← ensureOwned q claim.token disk
    .lift (rejectIf (digest ≠ claim.package.digest) (.claimChanged claim.token.requestId))

/-! ### Terminal transitions -/

def currentWorkerResultSchemaVersion : Nat := 1

def resultRecord (id : RequestId) (batchId : BatchId) (errorCode : ErrorCode)
    (now : OffsetDateTime) : WorkerResultRecord where
  schemaVersion := currentWorkerResultSchemaVersion
  requestId := id
  batchId := batchId
  status := .failed
  errorCode := errorCode
  failedAt := now
  valid := by decide

/-- The file `write_result_record` leaves. -/
def resultEntry (x : QueueExternals) (record : WorkerResultRecord) : FileEntry :=
  .file { bytes := x.resultFormat.encode record }

def validateClaimToken (x : QueueExternals) (package : StoredPackage) (token : ClaimToken)
    (state : QueueState) : WorkerReading Unit := do
  let record ← readRequiredPhaseRecord x package token.requestId state
  .lift (rejectIf (¬ record.names token) (.claimChanged token.requestId))

def ensureResultAbsent (package : StoredPackage) (id : RequestId) (state : QueueState) :
    WorkerReading Unit := do
  .call .resultRecord .io
  .lift (rejectIf package.result.isSome
    (.corruptState id state "successful request contains failure result metadata"))

/-- Whether a stored result is the one of this claim and code. -/
def WorkerResultRecord.isOf (record : WorkerResultRecord) (token : ClaimToken)
    (errorCode : ErrorCode) : Bool :=
  record.schemaVersion = currentWorkerResultSchemaVersion && record.requestId = token.requestId &&
    record.batchId = token.batchId && record.status = .failed && record.errorCode = errorCode

def validateResultRecord (x : QueueExternals) (package : StoredPackage) (token : ClaimToken)
    (errorCode : ErrorCode) (state : QueueState) : WorkerReading Unit := do
  let corrupt := WorkerQueueError.corruptState token.requestId state
  .call .resultRecord .io
  match package.result with
  | none => .lift (.error .io)
  | some .other => .lift (.error (corrupt "result metadata is not a bounded regular file"))
  | some (.file file) => do
      .lift (rejectIf (maximumResultFileBytes < file.bytes.length)
        (corrupt "result metadata is not a bounded regular file"))
      .call .resultRecord .io
      .call .resultRecord .io
      let record ← .lift (ofOption (x.resultFormat.decode file.bytes) .invalidResultMetadata)
      .lift (rejectIf (¬ record.isOf token errorCode)
        (corrupt "result metadata does not match the terminal outcome"))

/-- `write_result_record`, up to the rename of the temporary file. -/
def resultDestination (site : IoSite) (package : StoredPackage) (id : RequestId) :
    WorkerReading Unit := do
  .call site .io
  .lift (rejectIf (package.result = some .other)
    (.corruptState id .pending "result metadata is not a regular file"))
  .call site .io

/-- Put a result record into a package. -/
def StoredPackage.withResult (x : QueueExternals) (record : WorkerResultRecord)
    (package : StoredPackage) : StoredPackage :=
  { package with result := some (resultEntry x record) }

/-- `ensure_result_record`, on the package of a processing request. -/
def ensureResultRecord (q : QueueSetup) (token : ClaimToken) (errorCode : ErrorCode)
    (now : OffsetDateTime) (stored : StoredPackage) : WorkerProgram Unit :=
  if stored.result.isSome then
    .read fun _ => do
      .call .resultRecord .io
      validateResultRecord q.x stored token errorCode .processing
  else do
    .read fun _ => do
      .call .resultRecord .io
      resultDestination .terminalWrite stored token.requestId
    .step fun disk => disk.modify .processing token.requestId
      (StoredPackage.withResult q.x (resultRecord token.requestId token.batchId errorCode now))
    .read fun _ => .call .terminalWrite (.queue .io)

/-- The terminal state of an outcome: an error code, or none for a success. -/
def terminalState (errorCode : Option ErrorCode) : QueueState :=
  if errorCode.isSome then .failed else .completed

/-- `validate_terminal_claim`. -/
def validateTerminalClaim (x : QueueExternals) (stored : StoredPackage) (token : ClaimToken)
    (errorCode : Option ErrorCode) : WorkerReading Unit := do
  let state := terminalState errorCode
  validateClaimToken x stored token state
  match errorCode with
  | some errorCode => validateResultRecord x stored token errorCode state
  | none => ensureResultAbsent stored token.requestId state

/-- What `transition_claimed` has to do after it has found the request. -/
inductive TransitionCase where
  | done (stored : StoredPackage)
  | processing (stored : StoredPackage)

def transitionCase (id : RequestId) (terminal : QueueState) (disk : QueueDisk) :
    WorkerReading TransitionCase := do
  lockQueue
  match ← findExistingState disk id with
  | none => .lift (.error (.requestNotFound id))
  | some state =>
      if state = terminal then do
        let stored ← .lift (ofOption (disk.slot terminal id) (.requestNotFound id))
        pure (.done stored)
      else do
        .lift (rejectIf (state ≠ .processing) (.invalidState id .processing state))
        let stored ← .lift (ofOption (disk.slot .processing id) (.requestNotFound id))
        pure (.processing stored)

/-- The result record of the outcome: written for a failure, absent for a success. -/
def settleResult (q : QueueSetup) (token : ClaimToken) (errorCode : Option ErrorCode)
    (now : OffsetDateTime) (stored : StoredPackage) : WorkerProgram Unit :=
  match errorCode with
  | some errorCode => ensureResultRecord q token errorCode now stored
  | none => .read fun _ => ensureResultAbsent stored token.requestId .processing

/-- `transition_claimed`: with an error code to `failed/`, without to `completed/`. -/
def transitionClaimed (q : QueueSetup) (token : ClaimToken) (errorCode : Option ErrorCode)
    (now : OffsetDateTime) : WorkerProgram Unit := do
  let id := token.requestId
  let terminal := terminalState errorCode
  match ← .read (transitionCase id terminal) with
  | .done stored => .read fun _ => validateTerminalClaim q.x stored token errorCode
  | .processing stored => do
      .read fun _ => validateClaimToken q.x stored token .processing
      settleResult q token errorCode now stored
      .read fun _ => do
        checkIdentity
        .call .terminalWrite .io
      .step fun disk => disk.move .processing terminal id
      .read fun _ => do
        .call .terminalWrite (.queue .io)
        checkIdentity

def completeClaimed (q : QueueSetup) (token : ClaimToken) (now : OffsetDateTime) :
    WorkerProgram Unit :=
  transitionClaimed q token none now

def failClaimed (q : QueueSetup) (token : ClaimToken) (errorCode : ErrorCode)
    (now : OffsetDateTime) : WorkerProgram Unit :=
  transitionClaimed q token (some errorCode) now

/-- The checks of `fail_pending`. -/
def failPendingChecks (id : RequestId) (disk : QueueDisk) : WorkerReading Unit := do
  lockQueue
  match ← findExistingState disk id with
  | none => .lift (.error (.requestNotFound id))
  | some state => do
      .lift (rejectIf (state ≠ .pending) (.invalidState id .pending state))
      let stored ← .lift (ofOption (disk.slot .pending id) (.requestNotFound id))
      resultDestination .failPendingWrite stored id

/-- `fail_pending`: a pending request that cannot be claimed. -/
def failPending (q : QueueSetup) (id : RequestId) (batchId : BatchId) (errorCode : ErrorCode)
    (now : OffsetDateTime) : WorkerProgram Unit := do
  .read (failPendingChecks id)
  .step fun disk => disk.modify .pending id
    (StoredPackage.withResult q.x (resultRecord id batchId errorCode now))
  .read fun _ => do
    .call .failPendingWrite (.queue .io)
    checkIdentity
    .call .failPendingWrite .io
  .step fun disk => disk.move .pending .failed id
  .read fun _ => do
    .call .failPendingWrite (.queue .io)
    checkIdentity

/-! ### Where a request is -/

section Finding

variable {disk : QueueDisk} {id : RequestId} {state : QueueState} {stored : StoredPackage}

/-- A request is in no state directory. -/
def QueueDisk.Absent (disk : QueueDisk) (id : RequestId) : Prop :=
  ∀ state, disk.slot state id = none

/-- A request is in one state directory only. -/
structure QueueDisk.Located (disk : QueueDisk) (id : RequestId) (state : QueueState)
    (stored : StoredPackage) : Prop where
  here : disk.slot state id = some stored
  only : ∀ other, other ≠ state → disk.slot other id = none

theorem QueueDisk.Located.unique (h : disk.Located id state stored) {other : QueueState}
    {stored' : StoredPackage} (h' : disk.slot other id = some stored') :
    other = state ∧ stored' = stored := by
  by_cases hstate : other = state
  · subst hstate
    exact ⟨rfl, Option.some.inj (h'.symm.trans h.here)⟩
  · rw [h.only other hstate] at h'
    cases h'

section Changes

variable {target : QueueState} {f : StoredPackage → StoredPackage}

theorem QueueDisk.slot_move_other {other : RequestId} (h : other ≠ id) (source target s : QueueState) :
    (disk.move source target id).slot s other = disk.slot s other := by
  simp [move, set, h]

theorem QueueDisk.slot_modify_other {other : RequestId} (h : other ≠ id) (s : QueueState) :
    (disk.modify state id f).slot s other = disk.slot s other := by
  simp [modify, set, h]

/-- A renamed directory is found in its new place only. -/
theorem QueueDisk.Located.move (h : disk.Located id state stored) (hne : state ≠ target) :
    (disk.move state target id).Located id target stored where
  here := by simp [QueueDisk.move, set, hne.symm, h.here]
  only other hother := by
    by_cases hstate : other = state
    · simp [QueueDisk.move, set, hstate]
    · simp [QueueDisk.move, set, hstate, hother, h.only other hstate]

theorem QueueDisk.Located.modify (h : disk.Located id state stored) :
    (disk.modify state id f).Located id state (f stored) where
  here := by simp [QueueDisk.modify, set, h.here]
  only other hother := by simp [QueueDisk.modify, set, hother, h.only other hother]

end Changes

theorem readStoredDigest_eq_ok {digest : PackageDigest} :
    (readStoredDigest stored id state).result = .ok digest ↔
      ∃ file, stored.digest = some (.file file) ∧ digestLine file.bytes = some digest := by
  unfold readStoredDigest
  rcases stored.digest with _ | _ | file
  · simp
  · simp only [Reading.result_bind, Reading.result_call, Reading.result_lift, ok_bind, ofOption_some,
      bind_eq_ok, exists_unit, rejectIf_eq_ok, ofOption_eq_ok, Option.some.injEq,
      FileEntry.file.injEq, exists_eq_left']
    rename_i file
    by_cases hlength : file.bytes.length ≤ maximumDigestFileBytes
    · rw [List.take_of_length_le (by omega)]
      unfold digestLine
      constructor
      · rintro ⟨hutf8, hsize, hlast, hline, hdigest⟩
        rw [if_neg (by tauto), hdigest]
      · intro h
        split at h
        · cases h
        · rename_i hbad
          push Not at hbad
          exact ⟨by simpa using hbad.2.1, by omega, by simpa using hbad.2.2.1, hbad.2.2.2, h⟩
    · have htake : (file.bytes.take (maximumDigestFileBytes + 1)).length =
          maximumDigestFileBytes + 1 := List.length_take_of_le (by omega)
      have hnone : digestLine file.bytes = none := if_pos (.inl (by omega))
      rw [htake, hnone]
      constructor
      · rintro ⟨-, hsize, -⟩
        omega
      · rintro ⟨⟩
  · simp

section Search

variable {ε α : Type} {io duplicate : ε} {inspect : QueueState → StoredPackage → Reading IoSite ε α}

theorem searchIn_of_none {existing : Option α} (h : disk.slot state id = none) :
    (searchIn io duplicate inspect disk id existing state).result = .ok existing := by
  simp [searchIn, h]

theorem searchIn_first (h : disk.slot state id = some stored) :
    (searchIn io duplicate inspect disk id none state).result =
      (inspect state stored).result >>= fun found => .ok (some found) := by
  simp [searchIn, h]

theorem searchIn_second {existing : α} (h : disk.slot state id = some stored) :
    (searchIn io duplicate inspect disk id (some existing) state).result = .error duplicate := by
  simp [searchIn, h]

/-- A search over some of the state directories that succeeds has found the request in
at most one of them. -/
theorem searchIn_fold {states : List QueueState} {found : Option α}
    (h : states.foldlM (fun existing state =>
      (searchIn io duplicate inspect disk id existing state).result) none = .ok found) :
    (found = none ∧ ∀ state ∈ states, disk.slot state id = none) ∨
      ∃ a state stored, found = some a ∧ disk.slot state id = some stored ∧
        (inspect state stored).result = .ok a ∧
        ∀ other ∈ states, other ≠ state → disk.slot other id = none := by
  induction states using List.reverseRecOn generalizing found with
  | nil =>
      cases h
      exact .inl ⟨rfl, by simp⟩
  | append_singleton states last ih =>
      obtain ⟨middle, hmiddle, hlast⟩ := foldlM_append_eq_ok.1 h
      obtain ⟨next, hnext, hnil⟩ := foldlM_cons_eq_ok.1 hlast
      cases hnil
      rcases ih hmiddle with ⟨rfl, hnone⟩ | ⟨a, state, stored, rfl, hstored, hinspect, honly⟩
      · cases hslot : disk.slot last id with
        | none =>
            rw [searchIn_of_none hslot] at hnext
            cases hnext
            refine .inl ⟨rfl, fun state hstate => ?_⟩
            rcases List.mem_append.1 hstate with hstate | hstate
            · exact hnone state hstate
            · rw [List.mem_singleton.1 hstate, hslot]
        | some stored =>
            rw [searchIn_first hslot, bind_eq_ok] at hnext
            obtain ⟨a, hinspect, hfound⟩ := hnext
            cases hfound
            refine .inr ⟨a, last, stored, rfl, hslot, hinspect, fun other hother hne => ?_⟩
            rcases List.mem_append.1 hother with hother | hother
            · exact hnone other hother
            · exact absurd (List.mem_singleton.1 hother) hne
      · cases hslot : disk.slot last id with
        | none =>
            rw [searchIn_of_none hslot] at hnext
            cases hnext
            refine .inr ⟨a, state, stored, rfl, hstored, hinspect, fun other hother hne => ?_⟩
            rcases List.mem_append.1 hother with hother | hother
            · exact honly other hother hne
            · rw [List.mem_singleton.1 hother, hslot]
        | some stored =>
            rw [searchIn_second hslot] at hnext
            cases hnext

theorem QueueState.mem_all (state : QueueState) : state ∈ QueueState.all := by
  cases state <;> decide

theorem search_of_absent (h : disk.Absent id) :
    (search io duplicate inspect disk id).result = .ok none := by
  rw [search, Reading.result_foldlM]
  simp only [QueueState.all, List.foldlM_cons, List.foldlM_nil, searchIn_of_none (h _), ok_bind,
    pure_eq_ok]

theorem search_of_located (h : disk.Located id state stored) :
    (search io duplicate inspect disk id).result =
      (inspect state stored).result >>= fun found => .ok (some found) := by
  have hother : ∀ other (existing : Option α), other ≠ state →
      (searchIn io duplicate inspect disk id existing other).result = .ok existing :=
    fun other existing hne => searchIn_of_none (h.only other hne)
  have hhere : (searchIn io duplicate inspect disk id none state).result = _ := searchIn_first h.here
  rw [search, Reading.result_foldlM]
  simp only [QueueState.all, List.foldlM_cons, List.foldlM_nil]
  cases hinspect : (inspect state stored).result with
  | error e =>
      rw [hinspect, error_bind] at hhere
      cases state <;> simp [hother, hhere]
  | ok a =>
      rw [hinspect, ok_bind] at hhere
      cases state <;> simp [hother, hhere]

theorem search_eq_none : (search io duplicate inspect disk id).result = .ok none ↔ disk.Absent id := by
  refine ⟨fun h => ?_, search_of_absent⟩
  rw [search, Reading.result_foldlM] at h
  rcases searchIn_fold h with ⟨-, hnone⟩ | ⟨a, state, stored, hfound, -⟩
  · exact fun state => hnone state state.mem_all
  · cases hfound

theorem search_eq_some {a : α} :
    (search io duplicate inspect disk id).result = .ok (some a) ↔
      ∃ state stored, disk.Located id state stored ∧ (inspect state stored).result = .ok a := by
  constructor
  · intro h
    rw [search, Reading.result_foldlM] at h
    rcases searchIn_fold h with ⟨hfound, -⟩ | ⟨b, state, stored, hfound, hstored, hinspect, honly⟩
    · cases hfound
    · cases hfound
      exact ⟨state, stored, ⟨hstored, fun other => honly other other.mem_all⟩, hinspect⟩
  · rintro ⟨state, stored, hlocated, hinspect⟩
    rw [search_of_located hlocated, hinspect, ok_bind]

end Search

theorem findExisting_eq_none : (findExisting disk id).result = .ok none ↔ disk.Absent id :=
  search_eq_none

theorem findExisting_eq_some {digest : PackageDigest} :
    (findExisting disk id).result = .ok (some (state, digest)) ↔
      ∃ stored, disk.Located id state stored ∧
        (readStoredDigest stored id state).result = .ok digest := by
  rw [findExisting, search_eq_some]
  simp only [Reading.result_bind, Reading.result_pure, bind_eq_ok, Except.ok.injEq, Prod.mk.injEq]
  constructor
  · rintro ⟨other, stored, hlocated, found, hdigest, rfl, rfl⟩
    exact ⟨stored, hlocated, hdigest⟩
  · rintro ⟨stored, hlocated, hdigest⟩
    exact ⟨state, stored, hlocated, digest, hdigest, rfl, rfl⟩

theorem findExistingState_eq_some :
    (findExistingState disk id).result = .ok (some state) ↔
      ∃ stored, disk.Located id state stored := by
  rw [findExistingState, search_eq_some]
  simp only [Reading.result_pure, Except.ok.injEq]
  constructor
  · rintro ⟨other, stored, hlocated, rfl⟩
    exact ⟨stored, hlocated⟩
  · rintro ⟨stored, hlocated⟩
    exact ⟨state, stored, hlocated, rfl⟩

end Finding

end AgentKnowledge
