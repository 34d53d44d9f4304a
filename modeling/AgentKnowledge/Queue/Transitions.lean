import AgentKnowledge.Queue.FileQueue

/-!
What the operations of the file queue can do.

Each operation is cut short by a failing call and changes nothing otherwise
(`Straight`), so it is described by its undisturbed run: the lemmas `*_cases` list,
for every disk, the steps such a run takes and when.
-/

namespace AgentKnowledge

open Results Durable

section Records

variable {x : QueueExternals} {stored : StoredPackage} {id : RequestId} {state : QueueState}

/-- The package holds a phase record the readers accept. -/
def StoredPackage.HasPhase (x : QueueExternals) (id : RequestId) (record : WorkerPhaseRecord)
    (stored : StoredPackage) : Prop :=
  ∃ file, stored.phase = some (.file file) ∧ file.bytes.length ≤ maximumPhaseFileBytes ∧
    x.phaseFormat.decode file.bytes = some record ∧
    record.schemaVersion = currentWorkerPhaseSchemaVersion ∧ record.requestId = id

/-- The package holds a result record of readable size and form. -/
def StoredPackage.HasResult (x : QueueExternals) (record : WorkerResultRecord)
    (stored : StoredPackage) : Prop :=
  ∃ file, stored.result = some (.file file) ∧ file.bytes.length ≤ maximumResultFileBytes ∧
    x.resultFormat.decode file.bytes = some record

theorem StoredPackage.HasPhase.unique {record record' : WorkerPhaseRecord}
    (h : stored.HasPhase x id record) (h' : stored.HasPhase x id record') : record = record' := by
  obtain ⟨file, hfile, -, hdecode, -⟩ := h
  obtain ⟨file', hfile', -, hdecode', -⟩ := h'
  cases hfile.symm.trans hfile'
  exact Option.some.inj (hdecode.symm.trans hdecode')

theorem StoredPackage.HasResult.unique {record record' : WorkerResultRecord}
    (h : stored.HasResult x record) (h' : stored.HasResult x record') : record = record' := by
  obtain ⟨file, hfile, -, hdecode⟩ := h
  obtain ⟨file', hfile', -, hdecode'⟩ := h'
  cases hfile.symm.trans hfile'
  exact Option.some.inj (hdecode.symm.trans hdecode')

theorem hasResult_withResult {record : WorkerResultRecord} :
    (stored.withResult x record).HasResult x record :=
  ⟨_, rfl, x.resultFormat.length_encode record, x.resultFormat.decode_encode record⟩

theorem readOptionalPhaseRecord_eq_none :
    (readOptionalPhaseRecord x stored id state).result = .ok none ↔ stored.phase = none := by
  unfold readOptionalPhaseRecord
  rcases stored.phase with _ | _ | file <;> simp [bind_eq_ok]

theorem readOptionalPhaseRecord_eq_some {record : WorkerPhaseRecord} :
    (readOptionalPhaseRecord x stored id state).result = .ok (some record) ↔
      stored.HasPhase x id record := by
  unfold readOptionalPhaseRecord StoredPackage.HasPhase
  rcases stored.phase with _ | _ | file
  · simp
  · rename_i file
    simp only [readPhaseRecord, Reading.result_bind, Reading.result_call, Reading.result_lift,
      Reading.result_pure, ok_bind, bind_eq_ok, exists_unit, rejectIf_eq_ok, ofOption_eq_ok,
      Except.ok.injEq, Option.some.injEq, FileEntry.file.injEq, exists_eq_left', not_lt, not_not]
    constructor
    · rintro ⟨found, ⟨hlength, decoded, hdecode, hversion, hid, rfl⟩, rfl⟩
      exact ⟨hlength, hdecode, hversion, hid⟩
    · rintro ⟨hlength, hdecode, hversion, hid⟩
      exact ⟨record, ⟨hlength, record, hdecode, hversion, hid, rfl⟩, rfl⟩
  · simp

theorem readRequiredPhaseRecord_eq_ok {record : WorkerPhaseRecord} :
    (readRequiredPhaseRecord x stored id state).result = .ok record ↔
      stored.HasPhase x id record := by
  unfold readRequiredPhaseRecord
  simp only [Reading.result_bind, Reading.result_lift, bind_eq_ok, ofOption_eq_ok, exists_eq_right,
    readOptionalPhaseRecord_eq_some]

/-- The attempt of the phase record; a package without one has not been claimed. -/
inductive StoredPackage.AttemptIs (x : QueueExternals) (id : RequestId) (stored : StoredPackage) :
    Nat → Prop where
  | unclaimed (h : stored.phase = none) : AttemptIs x id stored 0
  | claimed {record : WorkerPhaseRecord} (h : stored.HasPhase x id record) :
      AttemptIs x id stored record.attempt

theorem nextAttempt_eq_ok {attempt : Nat} :
    (nextAttempt x stored id state).result = .ok attempt ↔
      attempt < 2 ^ 32 ∧ ∃ previous, stored.AttemptIs x id previous ∧ attempt = previous + 1 := by
  unfold nextAttempt
  simp only [Reading.result_bind, Reading.result_lift, Reading.result_pure, bind_eq_ok, exists_unit,
    rejectIf_eq_ok, Except.ok.injEq, not_le]
  constructor
  · rintro ⟨_ | record, hread, hbound, rfl⟩
    · exact ⟨hbound, 0, .unclaimed (readOptionalPhaseRecord_eq_none.1 hread), rfl⟩
    · exact ⟨hbound, _, .claimed (readOptionalPhaseRecord_eq_some.1 hread), rfl⟩
  · rintro ⟨hbound, previous, hprevious, rfl⟩
    cases hprevious with
    | unclaimed h => exact ⟨none, readOptionalPhaseRecord_eq_none.2 h, hbound, rfl⟩
    | claimed h => exact ⟨some _, readOptionalPhaseRecord_eq_some.2 h, hbound, rfl⟩

theorem validateClaimToken_eq_ok {token : ClaimToken} :
    (validateClaimToken x stored token state).result = .ok () ↔
      ∃ record, stored.HasPhase x token.requestId record ∧ record.names token := by
  unfold validateClaimToken
  simp only [Reading.result_bind, Reading.result_lift, bind_eq_ok, rejectIf_eq_ok, not_not,
    readRequiredPhaseRecord_eq_ok]

theorem ensureResultAbsent_eq_ok :
    (ensureResultAbsent stored id state).result = .ok () ↔ stored.result = none := by
  simp [ensureResultAbsent]

theorem validateResultRecord_eq_ok {token : ClaimToken} {errorCode : ErrorCode} :
    (validateResultRecord x stored token errorCode state).result = .ok () ↔
      ∃ record, stored.HasResult x record ∧ record.isOf token errorCode := by
  unfold validateResultRecord StoredPackage.HasResult
  rcases stored.result with _ | _ | file
  · simp
  · rename_i file
    simp only [Reading.result_bind, Reading.result_call, Reading.result_lift, ok_bind, bind_eq_ok,
      exists_unit, rejectIf_eq_ok, ofOption_eq_ok, Option.some.injEq, FileEntry.file.injEq,
      exists_eq_left', not_lt, not_not]
    constructor
    · rintro ⟨hlength, record, hdecode, hof⟩
      exact ⟨record, ⟨hlength, hdecode⟩, hof⟩
    · rintro ⟨record, ⟨hlength, hdecode⟩, hof⟩
      exact ⟨hlength, record, hdecode, hof⟩
  · simp

theorem WorkerPhaseRecord.names_iff {record : WorkerPhaseRecord} {token : ClaimToken} :
    record.names token ↔ record.batchId = token.batchId ∧ record.attempt = token.attempt := by
  have hphase : record.phase = .claimed := by
    cases record.phase
    rfl
  simp [names, hphase]

theorem resultRecord_isOf {token : ClaimToken} {errorCode : ErrorCode} {now : OffsetDateTime} :
    (resultRecord token.requestId token.batchId errorCode now).isOf token errorCode := by
  simp [WorkerResultRecord.isOf, resultRecord]

end Records

section Operations

variable {q : QueueSetup} {s : QueueDisk} {id : RequestId} {now : OffsetDateTime}

theorem lockQueue_result : lockQueue.result = .ok () := rfl

/-- A pending request that can be claimed with a package validated before. -/
structure Claimable (q : QueueSetup) (s : QueueDisk) (id : RequestId) (prepared : ValidatedPackage)
    (stored : StoredPackage) (previous : Nat) : Prop where
  located : s.Located id .pending stored
  digest : (readStoredDigest stored id .pending).result = .ok prepared.digest
  attempt : stored.AttemptIs q.x id previous
  bound : previous + 1 < 2 ^ 32

theorem ensurePending_eq_ok {found : PackageDigest × StoredPackage} :
    (ensurePending s id).result = .ok found ↔
      s.Located id .pending found.2 ∧ (readStoredDigest found.2 id .pending).result = .ok found.1 := by
  unfold ensurePending
  simp only [Reading.result_bind, Reading.result_mapError, bind_eq_ok, mapError_eq_ok]
  constructor
  · rintro ⟨_ | ⟨state, digest⟩, hfind, hrest⟩
    · cases hrest
    · obtain ⟨stored, hlocated, hdigest⟩ := findExisting_eq_some.1 hfind
      simp only [Reading.result_bind, Reading.result_lift, Reading.result_pure, bind_eq_ok,
        exists_unit, rejectIf_eq_ok, not_not, ofOption_eq_ok, Except.ok.injEq] at hrest
      obtain ⟨rfl, other, hother, rfl⟩ := hrest
      obtain ⟨-, rfl⟩ := hlocated.unique hother
      exact ⟨hlocated, hdigest⟩
  · rintro ⟨hlocated, hdigest⟩
    refine ⟨some (.pending, found.1), findExisting_eq_some.2 ⟨_, hlocated, hdigest⟩, ?_⟩
    simp [hlocated.here]

theorem claimChecks_eq_ok {prepared : ValidatedPackage} {attempt : Nat} :
    (claimChecks q id prepared s).result = .ok attempt ↔
      ∃ stored previous, Claimable q s id prepared stored previous ∧ attempt = previous + 1 := by
  unfold claimChecks phaseDestination
  simp only [Reading.result_bind, Reading.result_lift, Reading.result_pure, Reading.result_call,
    lockQueue_result, ok_bind, bind_eq_ok, exists_unit, ensurePending_eq_ok, rejectIf_eq_ok, not_not,
    nextAttempt_eq_ok, Except.ok.injEq, Prod.exists]
  constructor
  · rintro ⟨digest, stored, ⟨hlocated, hdigest⟩, rfl, next, ⟨hbound, previous, hprevious, rfl⟩, -, rfl⟩
    exact ⟨stored, previous, ⟨hlocated, hdigest, hprevious, hbound⟩, rfl⟩
  · rintro ⟨stored, previous, ⟨hlocated, hdigest, hprevious, hbound⟩, rfl⟩
    refine ⟨_, stored, ⟨hlocated, hdigest⟩, rfl, _, ⟨hbound, previous, hprevious, rfl⟩, ⟨?_, trivial⟩, rfl⟩
    -- A phase record that could be read is a file.
    intro hother
    cases hprevious with
    | unclaimed h => rw [h] at hother; cases hother
    | claimed h =>
        obtain ⟨file, hfile, -⟩ := h
        rw [hfile] at hother
        cases hother

/-- The two steps of a claim. -/
def claimTrail (q : QueueSetup) (s : QueueDisk) (id : RequestId) (record : WorkerPhaseRecord) :
    List QueueDisk :=
  let marked := s.modify .pending id (StoredPackage.withPhase q.x record)
  [marked, marked.move .pending .processing id]

theorem claimPrepared_straight {batchId : BatchId} {prepared : ValidatedPackage} :
    Straight (claimPrepared q id batchId now prepared) :=
  (straight_read _).bind fun _ => (straight_lift _).bind fun _ => (straight_step _).bind fun _ =>
    (straight_read _).bind fun _ => (straight_step _).bind fun _ => (straight_read _).bind fun _ =>
      straight_pure _

theorem claimPrepared_of_claimable {batchId : BatchId} {prepared : ValidatedPackage}
    {stored : StoredPackage} {previous : Nat} (h : Claimable q s id prepared stored previous)
    (hvalid : 0 < previous + 1 ∧ previous + 1 < 2 ^ 32) :
    (claimPrepared q id batchId now prepared).calmly s =
      (claimTrail q s id (phaseRecord id batchId (previous + 1) now hvalid),
        .ok ⟨⟨id, batchId, previous + 1⟩, prepared⟩) := by
  unfold claimPrepared
  rw [Program.calmly_read_bind_ok
      (r := fun disk => (claimChecks q id prepared disk).sited .claimWrite)
      (claimChecks_eq_ok.2 ⟨stored, previous, h, rfl⟩), dif_pos hvalid]
  simp only [Program.calmly_lift_bind_ok, Program.calmly_step_bind]
  rw [Program.calmly_read_bind_ok rfl, Program.calmly_step_bind, Program.calmly_read_bind_ok rfl]
  rfl

theorem claimPrepared_cases (q : QueueSetup) (s : QueueDisk) (id : RequestId) (batchId : BatchId)
    (now : OffsetDateTime) (prepared : ValidatedPackage) :
    (∃ e, (claimPrepared q id batchId now prepared).calmly s = ([], .error e)) ∨
      ∃ stored previous, Claimable q s id prepared stored previous ∧ ∃ h,
        (claimPrepared q id batchId now prepared).calmly s =
          (claimTrail q s id (phaseRecord id batchId (previous + 1) now h),
            .ok ⟨⟨id, batchId, previous + 1⟩, prepared⟩) := by
  cases hread : (claimChecks q id prepared s).result with
  | error e => exact .inl ⟨e, Program.calmly_read_bind_error hread⟩
  | ok attempt =>
      obtain ⟨stored, previous, hclaimable, rfl⟩ := claimChecks_eq_ok.1 hread
      have hvalid : 0 < previous + 1 ∧ previous + 1 < 2 ^ 32 := ⟨by omega, hclaimable.bound⟩
      exact .inr ⟨stored, previous, hclaimable, hvalid, claimPrepared_of_claimable hclaimable hvalid⟩

/-- A processing request under the token of its claim. -/
structure Owned (q : QueueSetup) (s : QueueDisk) (token : ClaimToken) (stored : StoredPackage)
    (record : WorkerPhaseRecord) : Prop where
  located : s.Located token.requestId .processing stored
  phase : stored.HasPhase q.x token.requestId record
  names : record.names token

theorem ensureOwned_eq_ok {token : ClaimToken} {digest : PackageDigest} :
    (ensureOwned q token s).result = .ok digest ↔
      ∃ stored record, Owned q s token stored record ∧
        (readStoredDigest stored token.requestId .processing).result = .ok digest := by
  unfold ensureOwned
  simp only [Reading.result_bind, Reading.result_mapError, lockQueue_result, ok_bind, bind_eq_ok,
    mapError_eq_ok]
  constructor
  · rintro ⟨_ | ⟨state, found⟩, hfind, hrest⟩
    · cases hrest
    · obtain ⟨stored, hlocated, hdigest⟩ := findExisting_eq_some.1 hfind
      simp only [Reading.result_bind, Reading.result_lift, Reading.result_pure, bind_eq_ok,
        exists_unit, rejectIf_eq_ok, not_not, ofOption_eq_ok, readRequiredPhaseRecord_eq_ok,
        Except.ok.injEq] at hrest
      obtain ⟨rfl, other, hother, record, hrecord, hnames, rfl⟩ := hrest
      obtain ⟨-, rfl⟩ := hlocated.unique hother
      exact ⟨other, record, ⟨hlocated, hrecord, hnames⟩, hdigest⟩
  · rintro ⟨stored, record, ⟨hlocated, hrecord, hnames⟩, hdigest⟩
    refine ⟨some (.processing, digest), findExisting_eq_some.2 ⟨_, hlocated, hdigest⟩, ?_⟩
    simp [hlocated.here, readRequiredPhaseRecord_eq_ok.2 hrecord, hnames]

theorem requeueClaimed_straight {token : ClaimToken} : Straight (requeueClaimed q token) :=
  (straight_read _).bind fun _ => (straight_step _).bind fun _ => straight_read _

theorem requeueClaimed_of_owned {token : ClaimToken} {stored : StoredPackage}
    {record : WorkerPhaseRecord} {digest : PackageDigest} (howned : Owned q s token stored record)
    (hdigest : (readStoredDigest stored token.requestId .processing).result = .ok digest) :
    (requeueClaimed q token).calmly s = ([s.move .processing .pending token.requestId], .ok ()) := by
  have hread := ensureOwned_eq_ok.2 ⟨stored, record, howned, hdigest⟩
  unfold requeueClaimed
  rw [Program.calmly_read_bind_ok (by simp [hread]; rfl)]
  rfl

theorem requeueClaimed_cases {token : ClaimToken} :
    (∃ e, (requeueClaimed q token).calmly s = ([], .error e)) ∨
      ∃ stored record, Owned q s token stored record ∧
        (requeueClaimed q token).calmly s =
          ([s.move .processing .pending token.requestId], .ok ()) := by
  cases hread : (ensureOwned q token s).result with
  | error e => exact .inl ⟨e, Program.calmly_read_bind_error (by simp [hread])⟩
  | ok digest =>
      obtain ⟨stored, record, howned, hdigest⟩ := ensureOwned_eq_ok.1 hread
      exact .inr ⟨stored, record, howned, requeueClaimed_of_owned howned hdigest⟩

theorem validateClaimed_straight {claim : QueueClaim} : Straight (validateClaimed q claim) :=
  straight_read _

theorem validateClaimed_calmly (q : QueueSetup) (s : QueueDisk) (claim : QueueClaim) :
    ((validateClaimed q claim).calmly s).1 = [] ∧
      (((validateClaimed q claim).calmly s).2 = .ok () →
        ∃ stored record, Owned q s claim.token stored record) := by
  refine ⟨rfl, fun h => ?_⟩
  unfold validateClaimed at h
  rw [Program.calmly_read] at h
  simp only [Reading.result_bind, Reading.result_lift, bind_eq_ok, rejectIf_eq_ok] at h
  obtain ⟨digest, howned, -⟩ := h
  obtain ⟨stored, record, howned, -⟩ := ensureOwned_eq_ok.1 howned
  exact ⟨stored, record, howned⟩

/-! #### Terminal transitions -/

theorem transitionCase_eq_done {terminal : QueueState} {stored : StoredPackage} :
    (transitionCase id terminal s).result = .ok (.done stored) ↔ s.Located id terminal stored := by
  unfold transitionCase
  simp only [Reading.result_bind, lockQueue_result, ok_bind, bind_eq_ok]
  constructor
  · rintro ⟨_ | state, hfind, hrest⟩
    · cases hrest
    · obtain ⟨found, hlocated⟩ := findExistingState_eq_some.1 hfind
      by_cases hstate : state = terminal
      · simp only [hstate, if_true, Reading.result_bind, Reading.result_lift, Reading.result_pure,
          bind_eq_ok, ofOption_eq_ok, Except.ok.injEq, TransitionCase.done.injEq] at hrest
        obtain ⟨other, hother, rfl⟩ := hrest
        subst hstate
        obtain ⟨-, rfl⟩ := hlocated.unique hother
        exact hlocated
      · simp [hstate, bind_eq_ok] at hrest
  · intro hlocated
    refine ⟨some terminal, findExistingState_eq_some.2 ⟨_, hlocated⟩, ?_⟩
    simp [hlocated.here]

theorem transitionCase_eq_processing {terminal : QueueState} {stored : StoredPackage} :
    (transitionCase id terminal s).result = .ok (.processing stored) ↔
      s.Located id .processing stored ∧ terminal ≠ .processing := by
  unfold transitionCase
  simp only [Reading.result_bind, lockQueue_result, ok_bind, bind_eq_ok]
  constructor
  · rintro ⟨_ | state, hfind, hrest⟩
    · cases hrest
    · obtain ⟨found, hlocated⟩ := findExistingState_eq_some.1 hfind
      by_cases hstate : state = terminal
      · simp [hstate, bind_eq_ok] at hrest
      · simp only [hstate, if_false, Reading.result_bind, Reading.result_lift, Reading.result_pure,
          bind_eq_ok, exists_unit, rejectIf_eq_ok, not_not, ofOption_eq_ok, Except.ok.injEq,
          TransitionCase.processing.injEq] at hrest
        obtain ⟨rfl, other, hother, rfl⟩ := hrest
        obtain ⟨-, rfl⟩ := hlocated.unique hother
        exact ⟨hlocated, fun h => hstate h.symm⟩
  · rintro ⟨hlocated, hterminal⟩
    refine ⟨some .processing, findExistingState_eq_some.2 ⟨_, hlocated⟩, ?_⟩
    simp [hlocated.here, hterminal.symm]

theorem terminalState_ne {errorCode : Option ErrorCode} : terminalState errorCode ≠ .processing := by
  cases errorCode <;> simp [terminalState]

theorem settleResult_straight {token : ClaimToken} {errorCode : Option ErrorCode}
    {stored : StoredPackage} : Straight (settleResult q token errorCode now stored) := by
  cases errorCode with
  | none => exact straight_read _
  | some errorCode =>
      simp only [settleResult, ensureResultRecord]
      split
      · exact straight_read _
      · exact (straight_read _).bind fun _ => (straight_step _).bind fun _ => straight_read _

theorem transitionClaimed_straight {token : ClaimToken} {errorCode : Option ErrorCode} :
    Straight (transitionClaimed q token errorCode now) := by
  refine (straight_read _).bind fun found => ?_
  cases found with
  | done stored => exact straight_read _
  | processing stored =>
      exact (straight_read _).bind fun _ => settleResult_straight.bind fun _ =>
        (straight_read _).bind fun _ => (straight_step _).bind fun _ => straight_read _

/-- The disk after the result of a failure has been recorded. -/
def recordedFailure (q : QueueSetup) (s : QueueDisk) (token : ClaimToken) (errorCode : ErrorCode)
    (now : OffsetDateTime) : QueueDisk :=
  s.modify .processing token.requestId
    (StoredPackage.withResult q.x (resultRecord token.requestId token.batchId errorCode now))

/-- How a terminal transition settles the result record of a processing request: what
it finds there and the steps it takes. -/
inductive Settles (q : QueueSetup) (s : QueueDisk) (token : ClaimToken) (now : OffsetDateTime)
    (stored : StoredPackage) : Option ErrorCode → List QueueDisk → Prop where
  | success (absent : stored.result = none) : Settles q s token now stored none []
  | failure {errorCode : ErrorCode} (absent : stored.result = none) :
      Settles q s token now stored (some errorCode) [recordedFailure q s token errorCode now]
  | again {errorCode : ErrorCode} {record : WorkerResultRecord}
      (result : stored.HasResult q.x record) (same : record.isOf token errorCode) :
      Settles q s token now stored (some errorCode) []

theorem settleResult_of_settles {token : ClaimToken} {errorCode : Option ErrorCode}
    {stored : StoredPackage} {trail : List QueueDisk}
    (h : Settles q s token now stored errorCode trail) :
    (settleResult q token errorCode now stored).calmly s = (trail, .ok ()) := by
  cases h with
  | success habsent => simp [settleResult, ensureResultAbsent_eq_ok.2 habsent]
  | failure habsent =>
      have hnone : ¬ stored.result.isSome := by simp [habsent]
      simp only [settleResult, ensureResultRecord]
      rw [if_neg hnone,
        Program.calmly_read_bind_ok (a := ()) (by simp [resultDestination, habsent])]
      rfl
  | again hresult hsame =>
      have hsome : stored.result.isSome := by
        obtain ⟨file, hfile, -⟩ := hresult
        simp [hfile]
      simp only [settleResult, ensureResultRecord]
      rw [if_pos hsome, Program.calmly_read]
      simp [validateResultRecord_eq_ok.2 ⟨_, hresult, hsame⟩]

theorem settleResult_cases (q : QueueSetup) (s : QueueDisk) (token : ClaimToken)
    (errorCode : Option ErrorCode) (now : OffsetDateTime) (stored : StoredPackage) :
    (∃ e, (settleResult q token errorCode now stored).calmly s = ([], .error e)) ∨
      ∃ trail, Settles q s token now stored errorCode trail := by
  cases errorCode with
  | none =>
      cases hread : (ensureResultAbsent stored token.requestId .processing).result with
      | error e => exact .inl ⟨e, by simp [settleResult, hread]⟩
      | ok u => exact .inr ⟨[], .success (ensureResultAbsent_eq_ok.1 hread)⟩
  | some errorCode =>
      by_cases hresult : stored.result.isSome
      · cases hread : (validateResultRecord q.x stored token errorCode .processing).result with
        | error e =>
            refine .inl ⟨e, ?_⟩
            simp only [settleResult, ensureResultRecord]
            rw [if_pos hresult, Program.calmly_read]
            simp [hread]
        | ok u =>
            obtain ⟨record, hrecord, hof⟩ := validateResultRecord_eq_ok.1 hread
            exact .inr ⟨[], .again hrecord hof⟩
      · exact .inr ⟨_, .failure (by simpa using hresult)⟩

/-- The steps of a terminal transition from `processing/`. -/
def terminalTrail (s : QueueDisk) (settled : List QueueDisk) (id : RequestId) (terminal : QueueState) :
    List QueueDisk :=
  settled ++ [(settled.getLastD s).move .processing terminal id]

/-- A transition that has been made is only checked again. -/
theorem transitionClaimed_of_terminal {token : ClaimToken} {errorCode : Option ErrorCode}
    {stored : StoredPackage} (hlocated : s.Located token.requestId (terminalState errorCode) stored) :
    (transitionClaimed q token errorCode now).calmly s =
      ([], (validateTerminalClaim q.x stored token errorCode).result) := by
  unfold transitionClaimed
  rw [Program.calmly_read_bind_ok (transitionCase_eq_done.2 hlocated)]
  exact Program.calmly_read _ _

/-- A request that is neither processing nor where it should go is refused. -/
theorem transitionClaimed_of_elsewhere {token : ClaimToken} {errorCode : Option ErrorCode}
    {state : QueueState} {stored : StoredPackage} (hlocated : s.Located token.requestId state stored)
    (hterminal : state ≠ terminalState errorCode) (hprocessing : state ≠ .processing) :
    (transitionClaimed q token errorCode now).calmly s =
      ([], .error (.invalidState token.requestId .processing state)) := by
  refine Program.calmly_read_bind_error ?_
  have hfind := findExistingState_eq_some.2 ⟨stored, hlocated⟩
  simp [transitionCase, lockQueue_result, hfind, hterminal, hprocessing]

theorem transitionClaimed_of_owned {token : ClaimToken} {errorCode : Option ErrorCode}
    {stored : StoredPackage} {record : WorkerPhaseRecord} {settled : List QueueDisk}
    (howned : Owned q s token stored record) (hsettles : Settles q s token now stored errorCode settled) :
    (transitionClaimed q token errorCode now).calmly s =
      (terminalTrail s settled token.requestId (terminalState errorCode), .ok ()) := by
  have htoken : (validateClaimToken q.x stored token .processing).result = .ok () :=
    validateClaimToken_eq_ok.2 ⟨record, howned.phase, howned.names⟩
  unfold transitionClaimed
  rw [Program.calmly_read_bind_ok
    (transitionCase_eq_processing.2 ⟨howned.located, terminalState_ne⟩)]
  dsimp only
  rw [Program.calmly_read_bind_ok
      (r := fun _ => validateClaimToken q.x stored token .processing) htoken,
    Program.calmly_bind_ok (a := ()) settleResult_straight
      (by rw [settleResult_of_settles hsettles]), settleResult_of_settles hsettles]
  rfl

theorem transitionClaimed_cases {token : ClaimToken} {errorCode : Option ErrorCode} :
    (∃ e, (transitionClaimed q token errorCode now).calmly s = ([], .error e)) ∨
    (∃ stored, s.Located token.requestId (terminalState errorCode) stored ∧
      (validateTerminalClaim q.x stored token errorCode).result = .ok () ∧
      (transitionClaimed q token errorCode now).calmly s = ([], .ok ())) ∨
    ∃ stored record settled, Owned q s token stored record ∧
      Settles q s token now stored errorCode settled ∧
      (transitionClaimed q token errorCode now).calmly s =
        (terminalTrail s settled token.requestId (terminalState errorCode), .ok ()) := by
  cases hcase : (transitionCase token.requestId (terminalState errorCode) s).result with
  | error e => exact .inl ⟨e, Program.calmly_read_bind_error hcase⟩
  | ok found =>
      cases found with
      | done stored =>
          have hlocated := transitionCase_eq_done.1 hcase
          rw [transitionClaimed_of_terminal hlocated]
          cases hread : (validateTerminalClaim q.x stored token errorCode).result with
          | error e => exact .inl ⟨e, rfl⟩
          | ok u => exact .inr (.inl ⟨stored, hlocated, hread, rfl⟩)
      | processing stored =>
          obtain ⟨hlocated, -⟩ := transitionCase_eq_processing.1 hcase
          cases htoken : (validateClaimToken q.x stored token .processing).result with
          | error e =>
              refine .inl ⟨e, ?_⟩
              unfold transitionClaimed
              rw [Program.calmly_read_bind_ok hcase]
              exact Program.calmly_read_bind_error htoken
          | ok u =>
              obtain ⟨record, hrecord, hnames⟩ := validateClaimToken_eq_ok.1 htoken
              have howned : Owned q s token stored record := ⟨hlocated, hrecord, hnames⟩
              rcases settleResult_cases q s token errorCode now stored
                with ⟨e, herror⟩ | ⟨settled, hsettles⟩
              · refine .inl ⟨e, ?_⟩
                unfold transitionClaimed
                rw [Program.calmly_read_bind_ok hcase]
                dsimp only
                rw [Program.calmly_read_bind_ok
                    (r := fun _ => validateClaimToken q.x stored token .processing) htoken,
                  Program.calmly_bind_error (e := e) (by rw [herror]), herror]
              · exact .inr (.inr ⟨stored, record, settled, howned, hsettles,
                  transitionClaimed_of_owned howned hsettles⟩)

/-! #### Failures in `pending/` -/

theorem failPendingChecks_eq_ok :
    (failPendingChecks id s).result = .ok () ↔
      ∃ stored, s.Located id .pending stored ∧ stored.result ≠ some .other := by
  unfold failPendingChecks resultDestination
  simp only [Reading.result_bind, lockQueue_result, ok_bind, bind_eq_ok]
  constructor
  · rintro ⟨_ | state, hfind, hrest⟩
    · cases hrest
    · obtain ⟨found, hlocated⟩ := findExistingState_eq_some.1 hfind
      simp only [Reading.result_bind, Reading.result_lift, Reading.result_call, ok_bind, bind_eq_ok,
        exists_unit, rejectIf_eq_ok, not_not, ofOption_eq_ok] at hrest
      obtain ⟨rfl, other, hother, hresult, -⟩ := hrest
      obtain ⟨-, rfl⟩ := hlocated.unique hother
      exact ⟨other, hlocated, hresult⟩
  · rintro ⟨stored, hlocated, hresult⟩
    refine ⟨some .pending, findExistingState_eq_some.2 ⟨_, hlocated⟩, ?_⟩
    simp [hlocated.here, hresult]

/-- The two steps of a failure in `pending/`. -/
def failPendingTrail (q : QueueSetup) (s : QueueDisk) (id : RequestId) (batchId : BatchId)
    (errorCode : ErrorCode) (now : OffsetDateTime) : List QueueDisk :=
  let marked := s.modify .pending id
    (StoredPackage.withResult q.x (resultRecord id batchId errorCode now))
  [marked, marked.move .pending .failed id]

theorem failPending_straight {batchId : BatchId} {errorCode : ErrorCode} :
    Straight (failPending q id batchId errorCode now) :=
  (straight_read _).bind fun _ => (straight_step _).bind fun _ => (straight_read _).bind fun _ =>
    (straight_step _).bind fun _ => straight_read _

theorem failPending_of_located {batchId : BatchId} {errorCode : ErrorCode} {stored : StoredPackage}
    (hlocated : s.Located id .pending stored) (hresult : stored.result ≠ some .other) :
    (failPending q id batchId errorCode now).calmly s =
      (failPendingTrail q s id batchId errorCode now, .ok ()) := by
  unfold failPending
  rw [Program.calmly_read_bind_ok (failPendingChecks_eq_ok.2 ⟨stored, hlocated, hresult⟩)]
  simp only [Program.calmly_step_bind]
  rw [Program.calmly_read_bind_ok rfl]
  rfl

theorem failPending_cases (q : QueueSetup) (s : QueueDisk) (id : RequestId) (batchId : BatchId)
    (errorCode : ErrorCode) (now : OffsetDateTime) :
    (∃ e, (failPending q id batchId errorCode now).calmly s = ([], .error e)) ∨
      ∃ stored, s.Located id .pending stored ∧ stored.result ≠ some .other ∧
        (failPending q id batchId errorCode now).calmly s =
          (failPendingTrail q s id batchId errorCode now, .ok ()) := by
  cases hread : (failPendingChecks id s).result with
  | error e => exact .inl ⟨e, Program.calmly_read_bind_error hread⟩
  | ok u =>
      obtain ⟨stored, hlocated, hresult⟩ := failPendingChecks_eq_ok.1 hread
      exact .inr ⟨stored, hlocated, hresult, failPending_of_located hlocated hresult⟩

/-! #### Acceptance -/

theorem acceptChecks_eq_ok {upload : Upload} {validated : ValidatedPackage} :
    (acceptChecks q upload).result = .ok validated ↔
      (readIncomingPackage q.x q.policy upload.staged).result = .ok validated := by
  simp [acceptChecks, bind_eq_ok, mapError_eq_ok]

theorem existingPackage_eq_none :
    (existingPackage id s).result = .ok none ↔ s.Absent id := by
  unfold existingPackage
  simp only [Reading.result_bind, bind_eq_ok]
  constructor
  · rintro ⟨_ | ⟨state, digest⟩, hfind, hrest⟩
    · exact findExisting_eq_none.1 hfind
    · obtain ⟨stored, hlocated, -⟩ := findExisting_eq_some.1 hfind
      simp [hlocated.here] at hrest
  · intro habsent
    exact ⟨none, findExisting_eq_none.2 habsent, rfl⟩

theorem existingPackage_eq_some {state : QueueState} {stored : StoredPackage} :
    (existingPackage id s).result = .ok (some (state, stored)) ↔
      s.Located id state stored ∧ ∃ digest, (readStoredDigest stored id state).result = .ok digest := by
  unfold existingPackage
  simp only [Reading.result_bind, bind_eq_ok]
  constructor
  · rintro ⟨_ | ⟨other, digest⟩, hfind, hrest⟩
    · cases hrest
    · obtain ⟨found, hlocated, hdigest⟩ := findExisting_eq_some.1 hfind
      simp only [hlocated.here, Reading.result_pure, Option.map_some, Except.ok.injEq,
        Option.some.injEq, Prod.mk.injEq] at hrest
      obtain ⟨rfl, rfl⟩ := hrest
      exact ⟨hlocated, digest, hdigest⟩
  · rintro ⟨hlocated, digest, hdigest⟩
    refine ⟨some (state, digest), findExisting_eq_some.2 ⟨stored, hlocated, hdigest⟩, ?_⟩
    simp [hlocated.here]

theorem acceptExisting_eq_ok {digest : PackageDigest} {state : QueueState} {stored : StoredPackage}
    {outcome : EnqueueOutcome} :
    (acceptExisting q id digest state stored).result = .ok outcome ↔
      ∃ existing, (readAcceptedPackage q.x q.policy stored).result = .ok existing ∧
        existing.request.requestId = id ∧ existing.digest = digest ∧
        outcome = .existing id digest state := by
  unfold acceptExisting
  simp only [Reading.result_bind, Reading.result_mapError, Reading.result_lift, Reading.result_call,
    Reading.result_pure, ok_bind, bind_eq_ok, exists_unit, mapError_eq_ok, rejectIf_eq_ok, not_not,
    Except.ok.injEq]
  constructor
  · rintro ⟨existing, hread, hid, hdigest, rfl⟩
    exact ⟨existing, hread, hid, hdigest, rfl⟩
  · rintro ⟨existing, hread, hid, hdigest, rfl⟩
    exact ⟨existing, hread, hid, hdigest, rfl⟩

/-- An undisturbed attempt on a request that is in the queue. -/
theorem accept_of_existing {upload : Upload} {validated existing : ValidatedPackage}
    {state : QueueState} {stored : StoredPackage}
    (hincoming : (readIncomingPackage q.x q.policy upload.staged).result = .ok validated)
    (hlocated : s.Located validated.request.requestId state stored)
    (hexisting : (readAcceptedPackage q.x q.policy stored).result = .ok existing)
    (hid : existing.request.requestId = validated.request.requestId) :
    (accept q upload).calmly s =
      ([], if validated.digest = existing.digest then
          .ok (.existing validated.request.requestId validated.digest state)
        else .error (.requestIdReused validated.request.requestId state)) := by
  have hdigest : ∃ digest,
      (readStoredDigest stored validated.request.requestId state).result = .ok digest := by
    obtain ⟨layout, contents, -, -, hlayout, -, hdigest, -⟩ := readAcceptedPackage_eq_ok.1 hexisting
    obtain ⟨entry, hentry, hfile, -⟩ := hlayout.digest
    exact ⟨_, readStoredDigest_eq_ok.2 ⟨layout.digest, by rw [hentry, hfile], hdigest⟩⟩
  unfold accept
  rw [Program.calmly_read_bind_ok (r := fun _ => acceptChecks q upload)
      (acceptChecks_eq_ok.2 hincoming),
    Program.calmly_read_bind_ok (existingPackage_eq_some.2 ⟨hlocated, hdigest⟩)]
  simp only [Program.calmly_read, acceptExisting, Reading.result_bind, Reading.result_mapError,
    hexisting, Reading.result_lift, Reading.result_call, Reading.result_pure]
  by_cases hsame : validated.digest = existing.digest
  · simp [Except.mapError, hid, hsame]
  · simp [Except.mapError, hid, hsame, Ne.symm hsame]

theorem acceptNew_straight {upload : Upload} {digest : PackageDigest} :
    Straight (acceptNew q upload id digest) :=
  ((straight_read _).bind fun _ => (straight_step _).bind fun _ => (straight_read _).bind fun _ =>
    straight_pure _).bind fun _ => (straight_lift _).bind fun _ => (straight_read _).bind fun _ =>
      (straight_step _).bind fun _ => (straight_read _).bind fun _ => straight_pure _

theorem accept_straight {upload : Upload} : Straight (accept q upload) := by
  refine (straight_read _).bind fun validated => (straight_read _).bind fun found => ?_
  cases found with
  | none => exact acceptNew_straight
  | some found => exact straight_read _

/-- The disk after a sequence has been spent. -/
def QueueDisk.allocated (s : QueueDisk) : QueueDisk :=
  { s with nextSequence := s.nextSequence + 1 }

/-- The disk after an accepted package has been moved into `pending/`. -/
def QueueDisk.published (s : QueueDisk) (q : QueueSetup) (upload : Upload) (id : RequestId)
    (digest : PackageDigest) (acceptance : AcceptanceMetadata) : QueueDisk :=
  s.set .pending id (some (acceptedPackage q.x upload.staged digest acceptance))

theorem allocateSequence_calmly :
    (allocateSequence.calmly s = ([], .error .sequenceExhausted) ∧ 2 ^ 64 ≤ s.nextSequence + 1) ∨
      (allocateSequence.calmly s = ([s.allocated], .ok s.nextSequence) ∧
        s.nextSequence + 1 < 2 ^ 64) := by
  unfold allocateSequence
  by_cases hbound : 2 ^ 64 ≤ s.nextSequence + 1
  · have hstop : rejectIf (2 ^ 64 ≤ s.nextSequence + 1) QueueError.sequenceExhausted = .error _ :=
      rejectIf_eq_error.2 ⟨hbound, rfl⟩
    exact .inl ⟨Program.calmly_read_bind_error (by simp only [Reading.result_bind,
      Reading.result_call, Reading.result_lift, hstop, ok_bind, error_bind]), hbound⟩
  · have hgo : rejectIf (2 ^ 64 ≤ s.nextSequence + 1) QueueError.sequenceExhausted = .ok () :=
      rejectIf_eq_ok.2 hbound
    refine .inr ⟨?_, by omega⟩
    rw [Program.calmly_read_bind_ok (a := s.nextSequence) (by simp only [Reading.result_bind,
      Reading.result_call, Reading.result_lift, Reading.result_pure, hgo, ok_bind])]
    rfl

theorem acceptNew_cases (q : QueueSetup) (upload : Upload) (id : RequestId) (digest : PackageDigest)
    (hpos : 0 < s.nextSequence) :
    (∃ e, (acceptNew q upload id digest).calmly s = ([], .error e)) ∨
      ∃ h, (acceptNew q upload id digest).calmly s =
        ([s.allocated, s.allocated.published q upload id digest
            ⟨s.nextSequence, upload.acceptedAt, upload.clientId, h⟩],
          .ok (.accepted id digest)) := by
  have hstraight : Straight allocateSequence :=
    (straight_read _).bind fun _ => (straight_step _).bind fun _ => (straight_read _).bind fun _ =>
      straight_pure _
  unfold acceptNew
  rcases allocateSequence_calmly (s := s) with ⟨hcalm, -⟩ | ⟨hcalm, hbound⟩
  · refine .inl ⟨.sequenceExhausted, ?_⟩
    rw [Program.calmly_bind_error (e := .sequenceExhausted) (by rw [hcalm]), hcalm]
  · have hvalid : 0 < s.nextSequence ∧ s.nextSequence < 2 ^ 64 := ⟨hpos, by omega⟩
    refine .inr ⟨hvalid, ?_⟩
    rw [Program.calmly_bind_ok (a := s.nextSequence) hstraight (by rw [hcalm]), hcalm]
    simp only [acceptanceMetadata, dif_pos hvalid, Program.calmly_lift_bind_ok]
    rw [Program.calmly_read_bind_ok rfl, Program.calmly_step_bind, Program.calmly_read_bind_ok rfl]
    rfl

/-- The three ends of an undisturbed acceptance. -/
theorem accept_cases (q : QueueSetup) (upload : Upload) (hpos : 0 < s.nextSequence) :
    (∃ e, (accept q upload).calmly s = ([], .error e)) ∨
    (∃ validated state stored existing,
      (readIncomingPackage q.x q.policy upload.staged).result = .ok validated ∧
      s.Located validated.request.requestId state stored ∧
      (readAcceptedPackage q.x q.policy stored).result = .ok existing ∧
      existing.digest = validated.digest ∧
      (accept q upload).calmly s =
        ([], .ok (.existing validated.request.requestId validated.digest state))) ∨
    ∃ validated, (readIncomingPackage q.x q.policy upload.staged).result = .ok validated ∧
      s.Absent validated.request.requestId ∧ ∃ h,
        (accept q upload).calmly s =
          ([s.allocated, s.allocated.published q upload validated.request.requestId validated.digest
              ⟨s.nextSequence, upload.acceptedAt, upload.clientId, h⟩],
            .ok (.accepted validated.request.requestId validated.digest)) := by
  unfold accept
  cases hchecks : (acceptChecks q upload).result with
  | error e => exact .inl ⟨e, Program.calmly_read_bind_error hchecks⟩
  | ok validated =>
      have hvalidated := acceptChecks_eq_ok.1 hchecks
      rw [Program.calmly_read_bind_ok (r := fun _ => acceptChecks q upload) hchecks]
      cases hfind : (existingPackage validated.request.requestId s).result with
      | error e => exact .inl ⟨e, Program.calmly_read_bind_error hfind⟩
      | ok found =>
          rw [Program.calmly_read_bind_ok hfind]
          rcases found with _ | ⟨state, stored⟩
          · rcases acceptNew_cases q upload validated.request.requestId validated.digest hpos
              with herror | ⟨h, hcalm⟩
            · exact .inl herror
            · exact .inr (.inr ⟨validated, hvalidated, existingPackage_eq_none.1 hfind, h, hcalm⟩)
          · dsimp only
            rw [Program.calmly_read]
            cases hread : (acceptExisting q validated.request.requestId validated.digest state
                stored).result with
            | error e => exact .inl ⟨e, rfl⟩
            | ok outcome =>
                obtain ⟨existing, hexisting, -, hdigest, rfl⟩ := acceptExisting_eq_ok.1 hread
                exact .inr (.inl ⟨validated, state, stored, existing, hvalidated,
                  (existingPackage_eq_some.1 hfind).1, hexisting, hdigest, rfl⟩)

end Operations

end AgentKnowledge
