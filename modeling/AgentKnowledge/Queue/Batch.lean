import AgentKnowledge.Lib.Least
import AgentKnowledge.Queue.Status

/-!
Batch claims (`crates/queue/src/file_queue/worker/batch.rs`).

A Worker session scans `pending/` in bounded pieces, keeps the earliest candidates and
claims them when the directory has been read. The cursor over the directory is part of
the session, and requests keep arriving while the scan is between two lock-protected
operations (`others`).
-/

namespace AgentKnowledge

open Results Durable

abbrev SessionProgram (α : Type) := Program QueueWorld QueueMove IoSite WorkerQueueError α

namespace QueueWorld

def withDisk (disk : QueueDisk) (w : QueueWorld) : QueueWorld := { w with disk }

def withScan (scan : Option PendingBatchScan) (w : QueueWorld) : QueueWorld :=
  { w with session := { w.session with pendingScan := scan } }

def scan (w : QueueWorld) : Option PendingBatchScan := w.session.pendingScan

end QueueWorld

/-- A queue operation within a session. -/
def onDisk {α : Type} (p : WorkerProgram α) : SessionProgram α :=
  .zoom QueueWorld.disk QueueWorld.withDisk p

/-- The lock is free. -/
def others : SessionProgram Unit := .yield fun move w => move w

/-! ### Candidates -/

/-- `PendingCandidate::cmp`: by sequence, then by request ID. -/
def PendingCandidate.Before (a b : PendingCandidate) : Prop :=
  a.sequence < b.sequence ∨
    a.sequence = b.sequence ∧ a.requestId.ulid.value ≤ b.requestId.ulid.value

instance : DecidableRel PendingCandidate.Before := fun _ _ => inferInstanceAs (Decidable (_ ∨ _))

instance : Std.Total PendingCandidate.Before where
  total a b := by unfold PendingCandidate.Before; omega

instance : IsTrans PendingCandidate PendingCandidate.Before where
  trans a b c := by unfold PendingCandidate.Before; omega

instance : Std.Antisymm PendingCandidate.Before where
  antisymm a b h h' := by
    obtain ⟨sequence, ⟨⟨value, bound⟩⟩⟩ := a
    obtain ⟨sequence', ⟨⟨value', bound'⟩⟩⟩ := b
    simp only [PendingCandidate.Before] at h h'
    obtain rfl : sequence = sequence' := by omega
    obtain rfl : value = value' := by omega
    rfl

/-- `current_maximum_sequence`. -/
def currentMaximumSequence (disk : QueueDisk) : WorkerReading Nat := do
  lockQueue
  .call .nextSequence (.queue .io)
  .call .nextSequence (.queue .io)
  pure (disk.nextSequence - 1)

/-- The immutable part of `inspect_pending_candidate`: the sequence of the package. -/
def inspectPackage (q : QueueSetup) (id : RequestId) (disk : QueueDisk) : WorkerReading Nat := do
  let stored ← .lift (ofOption (disk.slot .pending id) .io)
  let package ← revalidateAccepted q stored id .pending
  .lift (rejectIf (package.request.requestId ≠ id)
    (.corruptState id .pending "accepted package identity does not match its queue entry"))
  let acceptance ← .lift (ofOption package.acceptance
    (.corruptState id .pending "accepted package is missing acceptance metadata"))
  pure acceptance.sequence

/-- A request past the boundary has arrived late, or its sequence was never given out. -/
def inspectLate (id : RequestId) (sequence : Nat) (disk : QueueDisk) : WorkerReading Unit := do
  let maximum ← currentMaximumSequence disk
  .lift (rejectIf (maximum < sequence)
    (.corruptState id .pending "acceptance sequence exceeds the queue allocation state"))

def inspectAttempt (q : QueueSetup) (id : RequestId) (disk : QueueDisk) : WorkerReading Unit := do
  let stored ← .lift (ofOption (disk.slot .pending id) .io)
  let _ ← nextAttempt q.x stored id .pending

/-- `inspect_pending_candidate`. -/
def inspectPendingCandidate (q : QueueSetup) (maximumSequence : Nat) (id : RequestId) :
    SessionProgram (Option PendingCandidate) := do
  let sequence ← .read fun w => inspectPackage q id w.disk
  if maximumSequence < sequence then do
    others
    .read fun w => inspectLate id sequence w.disk
    pure none
  else do
    .read fun w => inspectAttempt q id w.disk
    pure (some ⟨sequence, id⟩)

/-- The errors that condemn a request. -/
def WorkerQueueError.condemns : WorkerQueueError → Bool
  | .corruptPackage .. | .corruptState .. | .invalidPhaseMetadata => true
  | _ => false

/-- The errors a failing file-system call turns into. -/
def WorkerQueueError.isIo : WorkerQueueError → Bool
  | .io | .queue .io => true
  | .batchScanFailed _ source => source.isIo
  | _ => false

/-- What a call of `claim_batch` is given, and the times at which it writes records. -/
structure ClaimBatchCall where
  batchId : BatchId
  maximumScanEntries : Nat
  maximumRequests : Nat
  requestedMaximumSequence : Option Nat
  clock : RequestId → OffsetDateTime

/-- One more request has been moved to `failed/`. -/
def PendingBatchScan.countFailure (scan : PendingBatchScan) : PendingBatchScan :=
  { scan with failedRequests := scan.failedRequests + 1 }

/-- `candidates.push`, then `candidates.pop` when there are too many. -/
def PendingBatchScan.retain (candidate : PendingCandidate) (scan : PendingBatchScan) :
    PendingBatchScan :=
  { scan with
    candidates := Least.keep PendingCandidate.Before scan.maximumRequests scan.candidates candidate }

def modifyScan (f : PendingBatchScan → PendingBatchScan) : SessionProgram Unit :=
  .step fun w => w.withScan (w.scan.map f)

/-- What `retain_pending_candidate` makes of an inspection. -/
def settleInspection (q : QueueSetup) (call : ClaimBatchCall) (id : RequestId) :
    Except WorkerQueueError (Option PendingCandidate) → SessionProgram Unit
  | .ok none => pure ()
  | .ok (some candidate) => modifyScan (PendingBatchScan.retain candidate)
  | .error error =>
      if error.condemns then do
        others
        onDisk (failPending q id call.batchId error.errorCode (call.clock id))
        modifyScan PendingBatchScan.countFailure
      else .lift (.error error)

/-- `retain_pending_candidate`, for a request directory. -/
def retainRequest (q : QueueSetup) (call : ClaimBatchCall) (id : RequestId) : SessionProgram Unit := do
  let boundary ← .read fun w => pure (w.scan.elim 0 PendingBatchScan.maximumSequence)
  let inspected ← (inspectPendingCandidate q boundary id).attempt
  settleInspection q call id inspected

/-- `retain_pending_candidate`. -/
def retainPendingCandidate (q : QueueSetup) (call : ClaimBatchCall) :
    DirectoryEntry → SessionProgram Unit
  | .request id => do
      .read fun _ => .call .pendingScan .io
      retainRequest q call id
  | .foreign detail => do
      .read fun _ => .call .pendingScan .io
      .lift (.error (.invalidPendingEntry detail))

/-! ### The scan -/

def withScanFailures (error : WorkerQueueError) (failedRequests : Nat) : WorkerQueueError :=
  if failedRequests = 0 then error else .batchScanFailed failedRequests error

/-- `entries.next()`. -/
def nextEntry : SessionProgram (Option DirectoryEntry) := do
  let entries ← .read fun w => do
    .call .pendingScan .io
    pure (w.scan.elim [] PendingBatchScan.entries)
  match entries with
  | [] => pure none
  | entry :: rest => do
      modifyScan fun scan => { scan with entries := rest }
      pure (some entry)

/-- The next entry of the cursor, if there is one. -/
def scanPendingEntry (q : QueueSetup) (call : ClaimBatchCall) : SessionProgram Bool := do
  others
  match ← nextEntry with
  | none => pure false
  | some entry => do
      retainPendingCandidate q call entry
      pure true

/-- An error ends the scan; it is reported with the failures recorded so far. -/
def abandonScan {α : Type} (error : WorkerQueueError) : SessionProgram α := do
  let failed ← .read fun w => pure (w.scan.elim 0 PendingBatchScan.failedRequests)
  .step (QueueWorld.withScan none)
  .lift (.error (withScanFailures error failed))

/-- The loop over at most so many entries; whether the end of the directory was seen. -/
def scanPending (q : QueueSetup) (call : ClaimBatchCall) : Nat → SessionProgram Bool
  | 0 => pure false
  | budget + 1 => do
      if ← (scanPendingEntry q call).handle abandonScan then scanPending q call budget
      else pure true

/-! ### Claims -/

def ensureRecoveryComplete (session : WorkerSession) : Except WorkerQueueError Unit :=
  if session.processingRecoveryComplete then .ok ()
  else if session.processingScan.isSome then .error .processingScanInProgress
  else .error .processingRecoveryRequired

def requireProcessingRecovery (w : QueueWorld) : QueueWorld :=
  { w with session :=
    { w.session with processingRecoveryComplete := false, processingScan := none } }

/-- Progress made while selecting and claiming one bounded Worker batch. -/
inductive BatchClaimOutcome where
  | scanning (scannedEntries retainedCandidates failedRequests : Nat)
  | claimed (claims : List QueueClaim) (failedRequests : Nat)
deriving DecidableEq

/-- `prepare_claim` for one candidate; what has been prepared goes in and comes out. -/
def prepareCandidate (q : QueueSetup) (failedRequests : Nat)
    (prepared : List (RequestId × ValidatedPackage)) (candidate : PendingCandidate) :
    SessionProgram (List (RequestId × ValidatedPackage)) := do
  others
  let package ← .read fun w =>
    ((do
      let stored ← .lift (ofOption (w.disk.slot .pending candidate.requestId) .io)
      prepareClaim q stored candidate.requestId : WorkerReading ValidatedPackage).mapError
        (withScanFailures · failedRequests))
  pure (prepared ++ [(candidate.requestId, package)])

/-- `claim_prepared` for one candidate. An error makes a recovery scan necessary. -/
def claimCandidate (q : QueueSetup) (call : ClaimBatchCall) (failedRequests : Nat)
    (claims : List QueueClaim) (prepared : RequestId × ValidatedPackage) :
    SessionProgram (List QueueClaim) := do
  others
  let claim ← (onDisk (claimPrepared q prepared.1 call.batchId (call.clock prepared.1) prepared.2)).handle
    fun error => do
      .step requireProcessingRecovery
      .lift (.error (withScanFailures error failedRequests))
  pure (claims ++ [claim])

/-- The end of a scan: all candidates are prepared before the first is claimed. -/
def claimCandidates (q : QueueSetup) (call : ClaimBatchCall) : SessionProgram BatchClaimOutcome := do
  let (candidates, failed) ← .read fun w =>
    pure (w.scan.elim ([], 0) fun scan => (scan.candidates, scan.failedRequests))
  .step (QueueWorld.withScan none)
  let prepared ← candidates.foldlM (prepareCandidate q failed) []
  let claims ← prepared.foldlM (claimCandidate q call failed) []
  pure (.claimed claims failed)

/-- Whether a call differs from the scan that is active. -/
def PendingBatchScan.changed (scan : PendingBatchScan) (call : ClaimBatchCall) : Bool :=
  scan.batchId ≠ call.batchId || scan.maximumRequests ≠ call.maximumRequests ||
    call.requestedMaximumSequence.any (· ≠ scan.maximumSequence)

def claimBatchChecks (call : ClaimBatchCall) (session : WorkerSession) : WorkerReading Unit := do
  lockQueue
  .lift (rejectIf (call.maximumScanEntries = 0 ∨ call.maximumRequests = 0) .invalidBatchLimits)
  .lift (ensureRecoveryComplete session)
  .lift (rejectIf session.processingScan.isSome .processingScanInProgress)
  match session.pendingScan with
  | none => pure ()
  | some scan => .lift (rejectIf (scan.changed call) (.batchScanChanged scan.batchId))

/-- The boundary of a new scan. -/
def scanBoundary (call : ClaimBatchCall) (disk : QueueDisk) : WorkerReading Nat := do
  let current ← currentMaximumSequence disk
  let maximum := call.requestedMaximumSequence.getD current
  .lift (rejectIf (current < maximum) .invalidBatchSnapshot)
  .call .pendingScan .io
  pure maximum

/-- Open a scan unless one is active; `listing` is what the cursor will return. -/
def openScan (call : ClaimBatchCall) (listing : List DirectoryEntry) : SessionProgram Unit := do
  if ← .read fun w => pure w.scan.isSome then pure ()
  else do
    let maximum ← .read fun w => scanBoundary call w.disk
    .step (QueueWorld.withScan (some {
      entries := listing
      candidates := []
      batchId := call.batchId
      maximumRequests := call.maximumRequests
      maximumSequence := maximum
      failedRequests := 0 }))

/-- `claim_batch`. -/
def claimBatch (q : QueueSetup) (call : ClaimBatchCall) (listing : List DirectoryEntry) :
    SessionProgram BatchClaimOutcome := do
  .read fun w => claimBatchChecks call w.session
  openScan call listing
  if ← scanPending q call call.maximumScanEntries then claimCandidates q call
  else
    .read fun w => pure (w.scan.elim (.scanning call.maximumScanEntries 0 0) fun scan =>
      .scanning call.maximumScanEntries scan.candidates.length scan.failedRequests)

/-- The call repeated while it returns `Scanning`, at most so many times more. -/
def claimUntilDone (q : QueueSetup) (call : ClaimBatchCall) (listing : List DirectoryEntry) :
    Nat → SessionProgram BatchClaimOutcome
  | 0 => claimBatch q call listing
  | calls + 1 => do
      match ← claimBatch q call listing with
      | .claimed claims failed => pure (.claimed claims failed)
      | .scanning .. => do
          others
          claimUntilDone q call listing calls

end AgentKnowledge
