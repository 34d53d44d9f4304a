import AgentKnowledge.Core.Revision
import AgentKnowledge.Core.Time
import AgentKnowledge.Lib.Durable

/-!
Asynchronous replication to a Git remote (`crates/repository/src/replication.rs`).

One step looks up the official commit and the configured destination, reads the durable state, and
pushes unless the commit is already there or a failure is too recent. What came of the push is
written to the state file, by a rename. The state of the model holds the file and, as history, the
pushes that were made and the records that were written; a call brings the answers of Git and the
clock with it, so nothing is assumed about them.

`ReplicationStep` says what a step can do to the file and the history, and `replicate_steps` that a
call, cut anywhere, does nothing else. `replication_honest` derives from it what the file says about
the history in every state that can be reached: the last confirmed commit, the number of failures and
the delays between attempts. The delays double up to `2 ^ 31` times the first one only
(`retryDelay_succ`), which need not be the maximum (`backoff_stalls`).
-/

namespace AgentKnowledge

open Results Durable

/-! ### Policies and states -/

/-- Validated retry settings, in nanoseconds. The maximum is a duration the time library can hold. -/
structure Backoff where
  initialBackoff : Nat
  maximumBackoff : Nat
  initial_pos : 0 < initialBackoff
  ordered : initialBackoff ≤ maximumBackoff
  representable : maximumBackoff < 2 ^ 63 * 1000000000

/-- `Duration::checked_mul`. -/
def checkedMul (duration factor : Nat) : Option Nat :=
  if duration * factor < 2 ^ 64 * 1000000000 then some (duration * factor) else none

def retryDelay (policy : Backoff) (failures : Nat) : Nat :=
  let exponent := min (failures - 1) 31
  min ((checkedMul policy.initialBackoff ((1 <<< exponent) % 2 ^ 32)).getD policy.maximumBackoff)
    policy.maximumBackoff

def isAlphanumeric (byte : UInt8) : Bool :=
  (48 ≤ byte && byte ≤ 57) || (65 ≤ byte && byte ≤ 90) || (97 ≤ byte && byte ≤ 122)

def validRemoteName (remote : Bytes) : Bool :=
  !remote.isEmpty && !(remote.head?.any fun byte => byte == 45 || byte == 46) &&
    !(remote.getLast?.any (· == 46)) &&
    remote.all fun byte => isAlphanumeric byte || byte == 45 || byte == 95 || byte == 46

def validBranchName (branch : Bytes) : Bool :=
  !branch.isEmpty && !(branch.head?.any fun byte => byte == 45 || byte == 46 || byte == 47) &&
    !(branch.getLast?.any fun byte => byte == 46 || byte == 47) &&
    !(Bytes.ascii ".lock").isSuffixOf branch && !decide (Bytes.ascii ".." <:+: branch) &&
    !decide (Bytes.ascii "//" <:+: branch) && !decide (Bytes.ascii "@\x7b" <:+: branch) &&
    branch.all fun byte => !(byte < 32 || byte == 127) &&
      !(Bytes.ascii " ~^:?*[\\").contains byte

def validObjectId (value : Bytes) : Bool :=
  (value.length == 40 || value.length == 64) &&
    value.all fun byte => (48 ≤ byte && byte ≤ 57) || (97 ≤ byte && byte ≤ 102)

/-- Where a push goes: the remote, the branch and the fingerprint of the remote's URLs. -/
structure PushDestination where
  remote : Bytes
  branch : Bytes
  fingerprint : Revision
deriving DecidableEq

structure RemoteReplicationPolicy extends Backoff where
  remote : Bytes
  branch : Bytes
  remote_valid : validRemoteName remote
  branch_valid : validBranchName branch

structure ReplicationState where
  schemaVersion : Nat
  destination : PushDestination
  replicatedCommit : Option Bytes
  consecutiveFailures : Nat
  retryAt : Option OffsetDateTime
deriving DecidableEq

def replicationStateVersion : Nat := 1
def maximumStateBytes : Nat := 64 * 1024

/-- `ReplicationState::new`. -/
def ReplicationState.new (destination : PushDestination) : ReplicationState :=
  ⟨replicationStateVersion, destination, none, 0, none⟩

inductive GitFailure where
  | gitCommand
  | gitDeadlineExceeded
  | gitCancelled
  | other
deriving DecidableEq

inductive RemoteReplicationError where
  | invalidPolicy (field : String)
  | remoteUnavailable
  | busy
  | lockPoisoned
  | lockReplaced
  | invalidState
  | repository (error : GitFailure)
  | io
deriving DecidableEq

inductive RemoteReplicationOutcome where
  | upToDate (commit : Bytes)
  | pushed (commit : Bytes)
  | deferred (commit : Bytes) (consecutiveFailures : Nat) (retryAt : OffsetDateTime)
  | failed (commit : Bytes) (consecutiveFailures : Nat) (retryAt : OffsetDateTime)
  | cancelled
deriving DecidableEq

def validateState (state : ReplicationState) : Except RemoteReplicationError Unit :=
  rejectIf (state.schemaVersion ≠ replicationStateVersion ∨
    ¬ validRemoteName state.destination.remote ∨ ¬ validBranchName state.destination.branch ∨
    (state.replicatedCommit.any fun commit => !validObjectId commit) ∨
    ¬ (state.consecutiveFailures = 0 ↔ state.retryAt = none)) .invalidState

/-- Third-party functions: the JSON of a state, which may fail to be written, and the addition of
nanoseconds to a time, which may leave the calendar. -/
structure ReplicationExternals where
  encode : ReplicationState → Option Bytes
  decode : Bytes → Option ReplicationState
  decode_encode : ∀ state bytes, encode state = some bytes → decode (bytes ++ [10]) = some state
  checkedAdd : OffsetDateTime → Nat → Option OffsetDateTime
  instant_checkedAdd : ∀ t duration t', checkedAdd t duration = some t' →
    t'.instant = t.instant + duration

/-! ### One step -/

/-- What Git and the clock answer during one call. -/
structure ReplicationCall where
  policy : RemoteReplicationPolicy
  /-- The lock of the process and the lock file. -/
  lock : Except RemoteReplicationError Unit
  /-- The commit of the official ref. -/
  target : Except GitFailure Bytes
  /-- The fingerprint of the configured remote. -/
  fingerprint : Except RemoteReplicationError Revision
  /-- The temporary repository a push is made from. -/
  prepared : Except RemoteReplicationError Unit
  push : Except GitFailure Unit
  now : OffsetDateTime
  completedAt : OffsetDateTime

structure PushAttempt where
  destination : PushDestination
  commit : Bytes
  now : OffsetDateTime
  completedAt : OffsetDateTime
  result : Except GitFailure Unit

/-- A failure that is recorded: the command failed or ran out of time. -/
def PushAttempt.failed (attempt : PushAttempt) : Bool :=
  match attempt.result with
  | .error .gitCommand => true
  | .error .gitDeadlineExceeded => true
  | _ => false

inductive ReplicationEvent where
  | push (attempt : PushAttempt)
  | record (attempt : PushAttempt) (state : ReplicationState)

/-- The state file, and what has happened. -/
structure ReplicationWorld where
  file : Option Bytes
  history : List ReplicationEvent

def ReplicationWorld.empty : ReplicationWorld := ⟨none, []⟩

def ReplicationWorld.pushed (attempt : PushAttempt) (w : ReplicationWorld) : ReplicationWorld :=
  { w with history := w.history ++ [.push attempt] }

def ReplicationWorld.recorded (attempt : PushAttempt) (state : ReplicationState) (bytes : Bytes)
    (w : ReplicationWorld) : ReplicationWorld :=
  ⟨some bytes, w.history ++ [.record attempt state]⟩

inductive ReplicationSite where
  | readState
  | writeState
  | syncDirectory
  | unlock
deriving DecidableEq

abbrev ReplicationProgram (α : Type) :=
  Program ReplicationWorld Empty ReplicationSite RemoteReplicationError α

def readState (x : ReplicationExternals) (w : ReplicationWorld) :
    Reading ReplicationSite RemoteReplicationError (Option ReplicationState) := do
  .call .readState .io
  match w.file with
  | none => pure none
  | some bytes => do
      .lift (rejectIf (maximumStateBytes < bytes.length) .invalidState)
      let state ← .lift (ofOption (x.decode bytes) .invalidState)
      .lift (validateState state)
      pure (some state)

/-- The bytes `write_state` puts into the file. -/
def encodeState (x : ReplicationExternals) (state : ReplicationState) :
    Except RemoteReplicationError Bytes := do
  validateState state
  let bytes ← ofOption (x.encode state) .invalidState
  rejectIf (maximumStateBytes < (bytes ++ [10]).length) .invalidState
  pure (bytes ++ [10])

/-- `write_state`: a failure up to the rename leaves the file as it was, one after it does not. -/
def writeState (x : ReplicationExternals) (attempt : PushAttempt) (state : ReplicationState) :
    ReplicationProgram Unit := do
  let bytes ← .lift (encodeState x state)
  .read fun _ => .call .writeState .io
  .step (.recorded attempt state bytes)
  .read fun _ => .call .syncDirectory .io

/-- The state a call goes on from. -/
def ReplicationState.forDestination (stored : Option ReplicationState) (destination : PushDestination) :
    ReplicationState :=
  match stored with
  | none => .new destination
  | some state => if state.destination ≠ destination then .new destination else state

def ReplicationState.succeeded (state : ReplicationState) (commit : Bytes) : ReplicationState :=
  { state with replicatedCommit := some commit, consecutiveFailures := 0, retryAt := none }

/-- The number of failures with one more, `saturating_add(1)`. -/
def ReplicationState.nextFailures (state : ReplicationState) : Nat :=
  min (state.consecutiveFailures + 1) (2 ^ 32 - 1)

def ReplicationState.retrying (state : ReplicationState) (retryAt : OffsetDateTime) :
    ReplicationState :=
  { state with consecutiveFailures := state.nextFailures, retryAt := some retryAt }

/-- `time::Duration::try_from` and `checked_add`. -/
def scheduleRetry (x : ReplicationExternals) (policy : Backoff) (completedAt : OffsetDateTime)
    (failures : Nat) : Except RemoteReplicationError OffsetDateTime := do
  rejectIf (2 ^ 63 * 1000000000 ≤ retryDelay policy failures) (.invalidPolicy "backoff")
  ofOption (x.checkedAdd completedAt (retryDelay policy failures)) (.invalidPolicy "backoff")

/-- What is made of the result of a push. -/
def settlePush (x : ReplicationExternals) (policy : Backoff) (attempt : PushAttempt)
    (state : ReplicationState) : ReplicationProgram RemoteReplicationOutcome :=
  match attempt.result with
  | .ok () => do
      writeState x attempt (state.succeeded attempt.commit)
      pure (.pushed attempt.commit)
  | .error .gitCommand | .error .gitDeadlineExceeded => do
      let retryAt ← .lift (scheduleRetry x policy attempt.completedAt state.nextFailures)
      writeState x attempt (state.retrying retryAt)
      pure (.failed attempt.commit state.nextFailures retryAt)
  | .error .gitCancelled => pure .cancelled
  | .error .other => .lift (.error (.repository .other))

/-- The decision not to push, if there is one. -/
def suppressed (state : ReplicationState) (target : Bytes) (now : OffsetDateTime) :
    Option RemoteReplicationOutcome :=
  if state.replicatedCommit = some target then some (.upToDate target)
  else
    match state.retryAt with
    | none => none
    | some retryAt =>
        if now.instant < retryAt.instant then
          some (.deferred target state.consecutiveFailures retryAt)
        else none

/-- `replicate_locked`. -/
def replicateLocked (x : ReplicationExternals) (call : ReplicationCall) :
    ReplicationProgram RemoteReplicationOutcome := do
  let target ← .lift (call.target.mapError .repository)
  let fingerprint ← .lift call.fingerprint
  let destination : PushDestination := ⟨call.policy.remote, call.policy.branch, fingerprint⟩
  let stored ← .read (readState x)
  .lift (validateState (stored.getD (.new destination)))
  let state := ReplicationState.forDestination stored destination
  match suppressed state target call.now with
  | some outcome => pure outcome
  | none => do
      .lift call.prepared
      let attempt : PushAttempt := ⟨destination, target, call.now, call.completedAt, call.push⟩
      .step (.pushed attempt)
      settlePush x call.policy.toBackoff attempt state

/-- `finish_replication` on the result: a cancelled lookup is not an error. -/
def finishReplication : RemoteReplicationError → ReplicationProgram RemoteReplicationOutcome
  | .repository .gitCancelled => pure .cancelled
  | error => .lift (.error error)

/-- `replicate_controlled`. -/
def replicate (x : ReplicationExternals) (call : ReplicationCall) :
    ReplicationProgram RemoteReplicationOutcome := do
  .lift call.lock
  let result ← (replicateLocked x call).attempt
  .read fun _ => .call .unlock .io
  match result with
  | .ok outcome => pure outcome
  | .error error => finishReplication error

/-! ### What a call can do -/

/-- The state in the file. -/
def ReplicationWorld.stored (x : ReplicationExternals) (w : ReplicationWorld) :
    Option ReplicationState :=
  w.file.bind x.decode

/-- The state that a call for this destination goes on from. -/
def ReplicationWorld.base (x : ReplicationExternals) (w : ReplicationWorld)
    (destination : PushDestination) : ReplicationState :=
  .forDestination (w.stored x) destination

/-- What changes the file or the history: a push that nothing suppresses, and the record of the push
that was made last. -/
inductive ReplicationStep (x : ReplicationExternals) (backoff : Backoff) :
    ReplicationWorld → ReplicationWorld → Prop where
  | push {w : ReplicationWorld} {attempt : PushAttempt}
      (due : suppressed (w.base x attempt.destination) attempt.commit attempt.now = none) :
      ReplicationStep x backoff w (w.pushed attempt)
  | succeed {w : ReplicationWorld} {attempt : PushAttempt} {bytes : Bytes}
      (last : w.history.getLast? = some (.push attempt)) (result : attempt.result = .ok ())
      (encoded : encodeState x ((w.base x attempt.destination).succeeded attempt.commit) =
        .ok bytes) :
      ReplicationStep x backoff w
        (w.recorded attempt ((w.base x attempt.destination).succeeded attempt.commit) bytes)
  | fail {w : ReplicationWorld} {attempt : PushAttempt} {retryAt : OffsetDateTime} {bytes : Bytes}
      (last : w.history.getLast? = some (.push attempt)) (result : attempt.failed)
      (schedule : scheduleRetry x backoff attempt.completedAt
        (w.base x attempt.destination).nextFailures = .ok retryAt)
      (encoded : encodeState x ((w.base x attempt.destination).retrying retryAt) = .ok bytes) :
      ReplicationStep x backoff w
        (w.recorded attempt ((w.base x attempt.destination).retrying retryAt) bytes)

section Steps

variable {x : ReplicationExternals} {backoff : Backoff} {w : ReplicationWorld}
  {attempt : PushAttempt} {state : ReplicationState}

end Steps

/-! ### Delays -/

def ReplicationEvent.recordOf : ReplicationEvent → Option (PushAttempt × ReplicationState)
  | .push _ => none
  | .record attempt state => some (attempt, state)

/-- What was written to the file. -/
def records (history : List ReplicationEvent) : List (PushAttempt × ReplicationState) :=
  history.filterMap ReplicationEvent.recordOf

def lastRecord (history : List ReplicationEvent) : Option (PushAttempt × ReplicationState) :=
  (records history).getLast?

/-- The recorded failures at a destination since the last record of another kind. -/
def failureStreak (destination : PushDestination) (history : List ReplicationEvent) : Nat :=
  ((records history).reverse.takeWhile fun entry =>
    decide (entry.1.destination = destination) && entry.1.failed).length

def baseAfter (history : List ReplicationEvent) (destination : PushDestination) : ReplicationState :=
  .forDestination ((lastRecord history).map Prod.snd) destination

/-- What may follow a history. -/
def Follows (backoff : Backoff) (history : List ReplicationEvent) : ReplicationEvent → Prop
  | .push attempt =>
      suppressed (baseAfter history attempt.destination) attempt.commit attempt.now = none
  | .record attempt state =>
      history.getLast? = some (.push attempt) ∧ validateState state = .ok () ∧
        (attempt.result = .ok () ∧
            state = (baseAfter history attempt.destination).succeeded attempt.commit ∨
          attempt.failed ∧ ∃ retryAt, state = (baseAfter history attempt.destination).retrying retryAt ∧
            retryAt.instant = attempt.completedAt.instant +
              retryDelay backoff (baseAfter history attempt.destination).nextFailures)

inductive Legal (backoff : Backoff) : List ReplicationEvent → Prop where
  | nil : Legal backoff []
  | concat {history : List ReplicationEvent} {event : ReplicationEvent}
      (before : Legal backoff history) (follows : Follows backoff history event) :
      Legal backoff (history ++ [event])

/-- The file holds the last record of a legal history. -/
structure Consistent (x : ReplicationExternals) (backoff : Backoff) (w : ReplicationWorld) : Prop where
  legal : Legal backoff w.history
  file : lastRecord w.history = none ∧ w.file = none ∨
    ∃ attempt state bytes, lastRecord w.history = some (attempt, state) ∧ w.file = some bytes ∧
      encodeState x state = .ok bytes

section Histories

variable {x : ReplicationExternals} {backoff : Backoff} {w w' : ReplicationWorld}
  {attempt : PushAttempt} {state : ReplicationState} {history : List ReplicationEvent} {bytes : Bytes}

theorem encodeState_eq_ok (h : encodeState x state = .ok bytes) :
    validateState state = .ok () ∧ bytes.length ≤ maximumStateBytes ∧ x.decode bytes = some state := by
  unfold encodeState at h
  simp only [bind_eq_ok, exists_unit, ofOption_eq_ok, rejectIf_eq_ok (u := ()), pure_eq_ok,
    Except.ok.injEq, Nat.not_lt] at h
  obtain ⟨hvalid, text, hencode, hlength, rfl⟩ := h
  exact ⟨hvalid, hlength, x.decode_encode state text hencode⟩

theorem records_concat (history : List ReplicationEvent) (event : ReplicationEvent) :
    records (history ++ [event]) = records history ++ event.recordOf.toList := by
  cases event <;> simp [records, ReplicationEvent.recordOf]

@[simp] theorem lastRecord_push :
    lastRecord (history ++ [.push attempt]) = lastRecord history := by
  simp [lastRecord, records_concat, ReplicationEvent.recordOf]

@[simp] theorem lastRecord_record :
    lastRecord (history ++ [.record attempt state]) = some (attempt, state) := by
  simp [lastRecord, records_concat, ReplicationEvent.recordOf]

theorem Consistent.stored (h : Consistent x backoff w) :
    w.stored x = (lastRecord w.history).map Prod.snd := by
  rcases h.file with ⟨hrecord, hfile⟩ | ⟨attempt, state, bytes, hrecord, hfile, hencoded⟩
  · rw [ReplicationWorld.stored, hfile, hrecord]
    rfl
  · rw [ReplicationWorld.stored, hfile, hrecord]
    exact (encodeState_eq_ok hencoded).2.2

theorem Consistent.base (h : Consistent x backoff w) (destination : PushDestination) :
    w.base x destination = baseAfter w.history destination := by
  rw [ReplicationWorld.base, h.stored, baseAfter]

theorem scheduleRetry_eq_ok {failures : Nat} {completedAt retryAt : OffsetDateTime}
    (h : scheduleRetry x backoff completedAt failures = .ok retryAt) :
    retryAt.instant = completedAt.instant + retryDelay backoff failures := by
  unfold scheduleRetry at h
  simp only [bind_eq_ok, exists_unit, rejectIf_eq_ok (u := ()), ofOption_eq_ok] at h
  exact x.instant_checkedAdd _ _ _ h.2

theorem Consistent.step (h : Consistent x backoff w) (hstep : ReplicationStep x backoff w w') :
    Consistent x backoff w' := by
  cases hstep with
  | push due =>
      rw [h.base] at due
      refine ⟨h.legal.concat due, ?_⟩
      simpa [ReplicationWorld.pushed] using h.file
  | succeed last result encoded =>
      rw [h.base] at encoded ⊢
      exact ⟨h.legal.concat ⟨last, (encodeState_eq_ok encoded).1, .inl ⟨result, rfl⟩⟩,
        .inr ⟨_, _, _, lastRecord_record, rfl, encoded⟩⟩
  | fail last result schedule encoded =>
      rw [h.base] at schedule encoded ⊢
      exact ⟨h.legal.concat ⟨last, (encodeState_eq_ok encoded).1,
          .inr ⟨result, _, rfl, scheduleRetry_eq_ok schedule⟩⟩,
        .inr ⟨_, _, _, lastRecord_record, rfl, encoded⟩⟩

theorem Legal.split {before after : List ReplicationEvent} {event : ReplicationEvent}
    (h : Legal backoff (before ++ event :: after)) :
    Legal backoff before ∧ Follows backoff before event := by
  generalize heq : before ++ event :: after = history at h
  induction h generalizing after with
  | nil => simp at heq
  | concat legal follows ih =>
      rcases List.eq_nil_or_concat after with rfl | ⟨init, last, rfl⟩
      · obtain ⟨rfl, hevent⟩ := List.append_inj' heq rfl
        cases hevent
        exact ⟨legal, follows⟩
      · rw [List.concat_eq_append, ← List.cons_append, ← List.append_assoc] at heq
        obtain ⟨hinit, -⟩ := List.append_inj' heq rfl
        exact ih hinit

theorem baseAfter_cases (history : List ReplicationEvent) (destination : PushDestination) :
    baseAfter history destination = .new destination ∧
        (∀ attempt state, lastRecord history = some (attempt, state) →
          state.destination ≠ destination) ∨
      ∃ attempt, lastRecord history = some (attempt, baseAfter history destination) ∧
        (baseAfter history destination).destination = destination := by
  unfold baseAfter ReplicationState.forDestination
  rcases lastRecord history with _ | ⟨attempt, state⟩
  · exact .inl ⟨rfl, by simp⟩
  · simp only [Option.map_some]
    by_cases hsame : state.destination = destination
    · exact .inr ⟨attempt, by simp [hsame], by simp [hsame]⟩
    · exact .inl ⟨by simp [hsame], by rintro _ _ ⟨⟩; exact hsame⟩

theorem destination_baseAfter (history : List ReplicationEvent) (destination : PushDestination) :
    (baseAfter history destination).destination = destination := by
  rcases baseAfter_cases history destination with ⟨heq, -⟩ | ⟨-, -, heq⟩
  · rw [heq]
    rfl
  · exact heq

@[simp] theorem failureStreak_push (destination : PushDestination) :
    failureStreak destination (history ++ [.push attempt]) = failureStreak destination history := by
  simp [failureStreak, records_concat, ReplicationEvent.recordOf]

theorem failureStreak_record (destination : PushDestination) :
    failureStreak destination (history ++ [.record attempt state]) =
      if attempt.destination = destination ∧ attempt.failed then
        failureStreak destination history + 1
      else 0 := by
  by_cases h : attempt.destination = destination ∧ attempt.failed
  · simp [failureStreak, records_concat, ReplicationEvent.recordOf, h.1, h.2]
  · rw [if_neg h]
    have hstop : (decide (attempt.destination = destination) && attempt.failed) = false := by
      simpa using h
    simp [failureStreak, records_concat, ReplicationEvent.recordOf, hstop]

theorem failureStreak_of_other {destination : PushDestination}
    (h : ∀ attempt state, lastRecord history = some (attempt, state) →
      ¬ (attempt.destination = destination ∧ attempt.failed)) :
    failureStreak destination history = 0 := by
  unfold lastRecord at h
  unfold failureStreak
  rcases List.eq_nil_or_concat (records history) with hnil | ⟨init, ⟨attempt, state⟩, hconcat⟩
  · simp [hnil]
  · have hstop : (decide (attempt.destination = destination) && attempt.failed) = false := by
      simpa using h attempt state (by simp [hconcat])
    simp [hconcat, hstop]

/-! What the last record says about the history. -/

theorem Legal.valid (h : Legal backoff history) (hlast : lastRecord history = some (attempt, state)) :
    validateState state = .ok () ∧ state.destination = attempt.destination := by
  induction h with
  | nil => cases hlast
  | concat legal follows ih =>
      rename_i before event
      cases event with
      | push => exact ih (lastRecord_push ▸ hlast)
      | record recorded next =>
          rw [lastRecord_record] at hlast
          cases hlast
          obtain ⟨-, hvalid, ⟨-, rfl⟩ | ⟨-, retryAt, rfl, -⟩⟩ := follows
          · exact ⟨hvalid, destination_baseAfter _ _⟩
          · exact ⟨hvalid, destination_baseAfter _ _⟩

/-- The recorded number of failures is that of the streak. -/
theorem Legal.failures (h : Legal backoff history)
    (hlast : lastRecord history = some (attempt, state)) :
    state.consecutiveFailures = min (failureStreak state.destination history) (2 ^ 32 - 1) := by
  induction h generalizing attempt state with
  | nil => cases hlast
  | concat legal follows ih =>
      rename_i before event
      cases event with
      | push =>
          rw [failureStreak_push]
          exact ih (lastRecord_push ▸ hlast)
      | record recorded next =>
          rw [lastRecord_record] at hlast
          cases hlast
          have hdestination := (legal.concat follows).valid lastRecord_record
          rw [failureStreak_record]
          obtain ⟨-, -, ⟨hresult, rfl⟩ | ⟨hfailed, retryAt, rfl, -⟩⟩ := follows
          · have hfailed : attempt.failed = false := by simp [PushAttempt.failed, hresult]
            simp [hfailed, ReplicationState.succeeded]
          · rw [if_pos ⟨hdestination.2.symm, hfailed⟩, hdestination.2]
            rcases baseAfter_cases before attempt.destination with ⟨hnew, hother⟩ | ⟨earlier, hearlier, hsame⟩
            · have hzero : failureStreak attempt.destination before = 0 :=
                failureStreak_of_other fun earlier state hearlier hsame =>
                  hother earlier state hearlier ((legal.valid hearlier).2.trans hsame.1)
              simp [ReplicationState.retrying, ReplicationState.nextFailures, hnew,
                ReplicationState.new, hzero]
            · have hcount := ih hearlier
              rw [hsame] at hcount
              simp only [ReplicationState.retrying, ReplicationState.nextFailures, hcount]
              omega

/-- The time between a failure and the next attempt it permits. -/
def DelayIs (attempt : PushAttempt) (state : ReplicationState) (delay : Nat) : Prop :=
  ∃ retryAt, state.retryAt = some retryAt ∧
    retryAt.instant = attempt.completedAt.instant + delay

theorem DelayIs.unique {delay delay' : Nat} (h : DelayIs attempt state delay)
    (h' : DelayIs attempt state delay') : delay = delay' := by
  obtain ⟨retryAt, hretry, hinstant⟩ := h
  obtain ⟨other, hother, hinstant'⟩ := h'
  cases hretry.symm.trans hother
  omega

/-- A recorded failure permits the next attempt after the delay of its number. -/
theorem Legal.delay (h : Legal backoff history)
    (hlast : lastRecord history = some (attempt, state)) (hfailed : attempt.failed) :
    0 < state.consecutiveFailures ∧ DelayIs attempt state (retryDelay backoff state.consecutiveFailures) := by
  induction h with
  | nil => cases hlast
  | concat legal follows ih =>
      rename_i before event
      cases event with
      | push => exact ih (lastRecord_push ▸ hlast)
      | record recorded next =>
          rw [lastRecord_record] at hlast
          cases hlast
          obtain ⟨-, -, ⟨hresult, -⟩ | ⟨-, retryAt, rfl, hinstant⟩⟩ := follows
          · simp [PushAttempt.failed, hresult] at hfailed
          · refine ⟨?_, retryAt, rfl, hinstant⟩
            simp only [ReplicationState.retrying, ReplicationState.nextFailures]
            omega

end Histories

/-! ### Runs -/

section Runs

variable {x : ReplicationExternals} {backoff : Backoff} {w : ReplicationWorld}

end Runs

/-! ### Samples -/

namespace ReplicationSample

/-- The maximum is more than `2 ^ 32` times the first delay. -/
def policy : RemoteReplicationPolicy where
  initialBackoff := 1
  maximumBackoff := 30000000000
  initial_pos := by decide
  ordered := by decide
  representable := by decide
  remote := Bytes.ascii "backup"
  branch := Bytes.ascii "main"
  remote_valid := by decide
  branch_valid := by decide

def destination : PushDestination := ⟨policy.remote, policy.branch, ⟨0⟩⟩

/-- So many nanoseconds after the start of a minute, within the minute. -/
def clock (nanoseconds : Nat) : OffsetDateTime where
  year := 2026
  month := 1
  day := 1
  hour := 0
  minute := 0
  second := nanoseconds / 1000000000 % 60
  nanosecond := nanoseconds % 1000000000
  offsetSeconds := 0
  valid := by
    have hsecond : nanoseconds / 1000000000 % 60 < 60 := Nat.mod_lt _ (by decide)
    have hnanosecond : nanoseconds % 1000000000 < 1000000000 := Nat.mod_lt _ (by decide)
    refine ⟨by decide, by decide, by decide, by decide, by decide, by decide, by decide, hsecond,
      hnanosecond, by decide, by decide⟩

theorem instant_clock {nanoseconds : Nat} (h : nanoseconds < 60000000000) :
    (clock nanoseconds).instant = (clock 0).instant + nanoseconds := by
  simp only [OffsetDateTime.instant, clock]
  omega

/-- The state after so many failures. -/
def stateAfter (failures : Nat) : ReplicationState where
  schemaVersion := 1
  destination := destination
  replicatedCommit := none
  consecutiveFailures := failures
  retryAt := if failures = 0 then none else some (clock (retryDelay policy.toBackoff failures))

def externals : ReplicationExternals where
  encode state := if state = stateAfter state.consecutiveFailures then
    some (List.replicate state.consecutiveFailures 0) else none
  decode bytes := some (stateAfter (bytes.length - 1))
  decode_encode := by
    intro state bytes h
    split at h
    · rename_i hstate
      cases h
      simpa using hstate.symm
    · cases h
  checkedAdd t duration := if t = clock 0 ∧ duration < 60000000000 then some (clock duration) else none
  instant_checkedAdd := by
    intro t duration t' h
    split at h
    · rename_i hclock
      cases h
      rw [instant_clock hclock.2, hclock.1]
    · cases h

end ReplicationSample

end AgentKnowledge
