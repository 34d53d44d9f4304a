import AgentKnowledge.Repository.Journal
import AgentKnowledge.Repository.Worktree
import Mathlib

/-!
The outcome of a batch and the journal that survives a crash (`crates/repository/src/git.rs`).

A running batch knows its outcome as claim tokens. Its journal records request identifiers, and
recovery looks the tokens up again among the journal's claims (`outcomeFromJournal`). Finalization
compares the two outcomes, so they have to be equal to the last attempt number and in order
(`PreparedBatch.terminal_journal`), and every journal that is accepted has an outcome
(`outcome_of_validated`).

Journals are taken as the values they decode to: the JSON text, its size limit and the schema
versions are left out.
-/

namespace AgentKnowledge

open Results

/-- A call outside the repository's own durable state, which may fail for reasons of its own. -/
inductive TransactionSite where
  | storage
  | canonical
  | git
  | trialBuild
  | publication
  | queue
  | release
deriving DecidableEq

inductive TransactionError where
  | emptyBatch
  | invalidClaims
  | journalMissing
  | journalMismatch
  | journalState
  | unfinishedTransaction
  | transactionRequiresRecovery (batchId : BatchId)
  | officialBranchChanged (expected actual : CommitId)
  | worktreeAlreadyExists
  | publicationIncomplete
  | apply (error : BatchError)
  | failed (site : TransactionSite)
deriving DecidableEq

inductive BatchCommitOutcome where
  | noChanges (failures : List RequestFailure)
  | committed (commit : CommitId) (successful : List ClaimToken) (failures : List RequestFailure)
deriving DecidableEq

def BatchCommitOutcome.tokens : BatchCommitOutcome → List ClaimToken
  | .noChanges failures => failures.map RequestFailure.token
  | .committed _ successful failures => successful ++ failures.map RequestFailure.token

def BatchCommitOutcome.commit : BatchCommitOutcome → Option CommitId
  | .noChanges _ => none
  | .committed commit _ _ => some commit

/-- The form of a Git object name. -/
def CommitId.validObjectId (value : CommitId) : Bool :=
  (value.utf8ByteSize == 40 || value.utf8ByteSize == 64) &&
    value.toList.all fun c => isAsciiDigit c || ('a' ≤ c && c ≤ 'f')

/-! ### Claims -/

def journalClaims (claims : List ClaimedPackage) : List JournalClaim :=
  claims.map fun claim =>
    ⟨claim.token.requestId, claim.token.attempt,
      claim.package.acceptance.elim 0 AcceptanceMetadata.sequence⟩

/-- The claims belong to the batch and follow each other in acceptance order. `owned` is the check of
a claim against the queue. -/
def validateBatchClaims (owned : ClaimedPackage → Bool) (batchId : BatchId) :
    List ClaimedPackage → (requestIds : List RequestId) → (previousOrder : Option Nat) →
    Except TransactionError Unit
  | [], _, _ => .ok ()
  | claim :: rest, requestIds, previousOrder => do
      rejectIf (claim.token.batchId ≠ batchId ∨ claim.token.requestId ∈ requestIds) .invalidClaims
      rejectIf (¬ owned claim) (.failed .queue)
      let acceptance ← ofOption claim.package.acceptance .invalidClaims
      rejectIf (previousOrder.any (acceptance.sequence ≤ ·)) .invalidClaims
      validateBatchClaims owned batchId rest (claim.token.requestId :: requestIds)
        (some acceptance.sequence)

/-! ### Journals -/

/-- What a terminal state records: the commit, if there is one, and the requests. -/
def JournalState.outcome? :
    JournalState → Option (Option CommitId × List RequestId × List JournalFailure)
  | .preparing => none
  | .noChanges failures => some (none, [], failures)
  | .committed commit successful failures _ => some (some commit, successful, failures)

def validateJournalStructure (journal : TransactionJournal) (batchId : BatchId) :
    Except TransactionError Unit := do
  rejectIf (journal.batchId ≠ batchId ∨ ¬ journal.baseCommit.validObjectId ∨
      (∃ claim ∈ journal.claims, claim.attempt = 0 ∨ claim.acceptanceSequence = 0) ∨
      ¬ journal.claims.IsChain fun a b => a.acceptanceSequence < b.acceptanceSequence)
    .journalMismatch
  match journal.state.outcome? with
  | none => pure ()
  | some (commit, successful, failures) =>
      rejectIf (commit.any fun commit => !commit.validObjectId) .journalMismatch
      let claimIds := journal.claims.map JournalClaim.requestId
      let outcomes := successful ++ failures.map JournalFailure.requestId
      rejectIf (¬ outcomes.Nodup ∨ claimIds.toFinset.card ≠ journal.claims.length ∨
        outcomes.toFinset ≠ claimIds.toFinset) .journalMismatch

/-- The token of a request, from the journal's claims. -/
def TransactionJournal.token (journal : TransactionJournal) (requestId : RequestId) :
    Except TransactionError ClaimToken := do
  let claim ← ofOption (journal.claims.find? (·.requestId == requestId)) .journalMismatch
  rejectIf (claim.attempt = 0) .journalMismatch
  pure ⟨requestId, journal.batchId, claim.attempt⟩

def TransactionJournal.failure (journal : TransactionJournal) (failure : JournalFailure) :
    Except TransactionError RequestFailure := do
  let token ← journal.token failure.requestId
  pure ⟨token, failure.errorCode⟩

def outcomeFromJournal (journal : TransactionJournal) :
    Except TransactionError BatchCommitOutcome := do
  let (commit, successful, failures) ← ofOption journal.state.outcome? .journalState
  let successful ← successful.mapM journal.token
  let failures ← failures.mapM journal.failure
  match commit with
  | some commit => pure (.committed commit successful failures)
  | none => if successful = [] then pure (.noChanges failures) else throw .journalMismatch

/-- A failure as the journal records it. -/
def RequestFailure.recorded (failure : RequestFailure) : JournalFailure :=
  ⟨failure.token.requestId, failure.errorCode⟩

/-- The terminal state that a prepared batch writes. -/
def PreparedBatch.terminalState (prepared : PreparedBatch) (commit : CommitId)
    (publicationStarted : Bool) : JournalState :=
  if prepared.successful = [] then .noChanges (prepared.failures.map RequestFailure.recorded)
  else .committed commit (prepared.successful.map ClaimToken.requestId)
    (prepared.failures.map RequestFailure.recorded) publicationStarted

/-- The outcome that a prepared batch returns. -/
def PreparedBatch.outcome (prepared : PreparedBatch) (commit : CommitId) : BatchCommitOutcome :=
  if prepared.successful = [] then .noChanges prepared.failures
  else .committed commit prepared.successful prepared.failures

/-! ### What validated claims are -/

/-- Claims that pass are of the batch, distinct and in acceptance order. -/
theorem validateBatchClaims_eq_ok {owned : ClaimedPackage → Bool} {batchId : BatchId}
    {claims : List ClaimedPackage} {requestIds : List RequestId} {previousOrder : Option Nat}
    (h : validateBatchClaims owned batchId claims requestIds previousOrder = .ok ()) :
    (∀ claim ∈ claims, claim.token.batchId = batchId) ∧
    (claims.map fun claim => claim.token.requestId).Nodup ∧
    (∀ claim ∈ claims, claim.token.requestId ∉ requestIds) ∧
    (∀ claim ∈ journalClaims claims, 0 < claim.acceptanceSequence) ∧
    (∀ order ∈ previousOrder, ∀ claim ∈ (journalClaims claims).head?,
      order < claim.acceptanceSequence) ∧
    (journalClaims claims).IsChain fun a b => a.acceptanceSequence < b.acceptanceSequence := by
  induction claims generalizing requestIds previousOrder with
  | nil => simp [journalClaims]
  | cons claim rest ih =>
      simp only [validateBatchClaims, bind_eq_ok, exists_unit, rejectIf_eq_ok, ofOption_eq_ok,
        not_or, not_not] at h
      obtain ⟨⟨hbatch, hnew⟩, -, acceptance, hacceptance, horder, hrest⟩ := h
      obtain ⟨hbatches, hnodup, hfresh, hpositive, hhead, hchain⟩ := ih hrest
      refine ⟨List.forall_mem_cons.2 ⟨hbatch, hbatches⟩, ?_, ?_, ?_, ?_, ?_⟩
      · refine List.nodup_cons.2 ⟨fun hmem => ?_, hnodup⟩
        obtain ⟨other, hother, heq⟩ := List.mem_map.1 hmem
        exact hfresh other hother (heq ▸ List.mem_cons_self)
      · refine List.forall_mem_cons.2 ⟨hnew, fun other hother hmem => ?_⟩
        exact hfresh other hother (List.mem_cons_of_mem _ hmem)
      · refine List.forall_mem_cons.2 ⟨?_, hpositive⟩
        simpa [hacceptance] using acceptance.sequence_valid.1
      · intro order horder' first hfirst
        obtain rfl := Option.some.inj hfirst
        simpa [hacceptance, Option.mem_def.1 horder'] using horder
      · refine hchain.cons fun first hfirst => ?_
        simpa [hacceptance] using hhead _ rfl first hfirst

/-! ### Looking tokens up -/

/-- The token that a claim of the journal stands for. -/
def TransactionJournal.tokenOf (journal : TransactionJournal) (claim : JournalClaim) : ClaimToken :=
  ⟨claim.requestId, journal.batchId, claim.attempt⟩

/-- The token that a request identifier is read as. -/
def TransactionJournal.tokenFor (journal : TransactionJournal) (requestId : RequestId) :
    ClaimToken :=
  ⟨requestId, journal.batchId,
    (journal.claims.find? (·.requestId == requestId)).elim 0 JournalClaim.attempt⟩

section Outcome

variable {journal : TransactionJournal} {batchId : BatchId} {claims : List ClaimedPackage}

/-- Distinct identifiers lead back to the claim they were taken from. -/
theorem find?_claim {claim : JournalClaim}
    (hnodup : (journal.claims.map JournalClaim.requestId).Nodup) (hclaim : claim ∈ journal.claims) :
    journal.claims.find? (·.requestId == claim.requestId) = some claim := by
  obtain ⟨found, hfound⟩ : ∃ found,
      journal.claims.find? (·.requestId == claim.requestId) = some found :=
    Option.isSome_iff_exists.1 (List.find?_isSome.2 ⟨claim, hclaim, by simp⟩)
  have hsame : found.requestId = claim.requestId := by
    simpa using List.find?_some hfound
  rw [hfound, List.inj_on_of_nodup_map hnodup (List.mem_of_find?_eq_some hfound) hclaim hsame]

theorem map_tokenFor (hnodup : (journal.claims.map JournalClaim.requestId).Nodup) :
    (journal.claims.map JournalClaim.requestId).map journal.tokenFor =
      journal.claims.map journal.tokenOf := by
  rw [List.map_map]
  refine List.map_congr_left fun claim hclaim => ?_
  simp [TransactionJournal.tokenFor, TransactionJournal.tokenOf, find?_claim hnodup hclaim]

theorem journalClaims_map_tokenOf (hclaims : journal.claims = journalClaims claims)
    (hbatch : ∀ claim ∈ claims, claim.token.batchId = journal.batchId) :
    journal.claims.map journal.tokenOf = claims.map ClaimedPackage.token := by
  rw [hclaims, journalClaims, List.map_map]
  refine List.map_congr_left fun claim hclaim => ?_
  simp [TransactionJournal.tokenOf, ← hbatch claim hclaim]

theorem JournalState.successful_eq_nil {state : JournalState} {ids : List RequestId}
    {failures : List JournalFailure} (h : state.outcome? = some (none, ids, failures)) :
    ids = [] := by
  cases state <;> simp_all [JournalState.outcome?]

/-- What the terminal state of a prepared batch records. -/
theorem PreparedBatch.outcome?_terminalState (prepared : PreparedBatch) {commit : CommitId}
    {started : Bool} (hstate : journal.state = prepared.terminalState commit started) :
    journal.state.outcome? = some (if prepared.successful = [] then none else some commit,
      prepared.successful.map ClaimToken.requestId,
      prepared.failures.map RequestFailure.recorded) := by
  rw [hstate, terminalState]
  split
  next hnone => simp [JournalState.outcome?, hnone]
  next => rfl

/-- A split of the claims' tokens is found again, in its order. -/
theorem outcomeFromJournal_eq {commit : Option CommitId} {successful : List ClaimToken}
    {failures : List RequestFailure}
    (hrecorded : journal.state.outcome? = some (commit, successful.map ClaimToken.requestId,
      failures.map RequestFailure.recorded))
    (hnodup : (journal.claims.map JournalClaim.requestId).Nodup)
    (hattempts : ∀ claim ∈ journal.claims, claim.attempt ≠ 0)
    (hsplit : (successful ++ failures.map RequestFailure.token).Perm
      (journal.claims.map journal.tokenOf)) :
    outcomeFromJournal journal = commit.elim
      (if successful = [] then .ok (.noChanges failures) else .error .journalMismatch)
      fun commit => .ok (.committed commit successful failures) := by
  have htoken : ∀ token ∈ successful ++ failures.map RequestFailure.token,
      journal.token token.requestId = .ok token := by
    intro token htoken
    obtain ⟨claim, hclaim, rfl⟩ := List.mem_map.1 (hsplit.mem_iff.1 htoken)
    simp [TransactionJournal.token, TransactionJournal.tokenOf, find?_claim hnodup hclaim,
      rejectIf, hattempts claim hclaim]
  rw [List.forall_mem_append, List.forall_mem_map] at htoken
  have hsuccessful : (successful.map ClaimToken.requestId).mapM journal.token = .ok successful :=
    mapM_map_eq_ok htoken.1
  have hfailures : (failures.map RequestFailure.recorded).mapM journal.failure = .ok failures :=
    mapM_map_eq_ok fun failure hfailure => by
      simp [TransactionJournal.failure, RequestFailure.recorded, htoken.2 failure hfailure]
  simp only [outcomeFromJournal, hrecorded, ofOption, ok_bind, hsuccessful, hfailures]
  cases commit <;> rfl

/-- What a validated terminal journal says. -/
theorem validateJournalStructure_terminal
    {recorded : Option CommitId × List RequestId × List JournalFailure}
    (hterminal : journal.state.outcome? = some recorded) :
    validateJournalStructure journal batchId = .ok () ↔
      (journal.batchId = batchId ∧ journal.baseCommit.validObjectId = true ∧
        (∀ claim ∈ journal.claims, claim.attempt ≠ 0 ∧ claim.acceptanceSequence ≠ 0) ∧
        journal.claims.IsChain fun a b => a.acceptanceSequence < b.acceptanceSequence) ∧
      (∀ commit ∈ recorded.1, commit.validObjectId = true) ∧
      (journal.claims.map JournalClaim.requestId).Nodup ∧
      (recorded.2.1 ++ recorded.2.2.map JournalFailure.requestId).Perm
        (journal.claims.map JournalClaim.requestId) := by
  obtain ⟨commit, successful, failures⟩ := recorded
  have hids : ∀ ids : List RequestId,
      (ids.Nodup ∧ (journal.claims.map JournalClaim.requestId).toFinset.card =
          journal.claims.length ∧
        ids.toFinset = (journal.claims.map JournalClaim.requestId).toFinset) ↔
      (journal.claims.map JournalClaim.requestId).Nodup ∧
        ids.Perm (journal.claims.map JournalClaim.requestId) := by
    intro ids
    have hcard : (journal.claims.map JournalClaim.requestId).toFinset.card =
        (journal.claims.map JournalClaim.requestId).length ↔ _ :=
      Multiset.toFinset_card_eq_card_iff_nodup.trans Multiset.coe_nodup
    rw [← List.length_map (f := JournalClaim.requestId), hcard]
    constructor
    · rintro ⟨hids, hclaims, hsame⟩
      exact ⟨hclaims, List.perm_of_nodup_nodup_toFinset_eq hids hclaims hsame⟩
    · rintro ⟨hclaims, hperm⟩
      exact ⟨hperm.nodup_iff.2 hclaims, hclaims, List.toFinset_eq_of_perm _ _ hperm⟩
  simp only [validateJournalStructure, hterminal, bind_eq_ok, exists_unit, rejectIf_eq_ok, not_or,
    not_not, not_exists, not_and, ne_eq, hids]
  cases commit <;> simp

/-- A terminal journal of a batch that was prepared from validated claims passes the checks of
recovery, and it leads back to the outcome of the batch. -/
theorem PreparedBatch.terminal_journal {context : BatchContext} {base : ContentTree}
    {prepared : PreparedBatch} {commit : CommitId} {started : Bool}
    (hclaims : validateBatchClaims context.owned journal.batchId claims [] none = .ok ())
    (hattempts : ∀ claim ∈ claims, claim.token.attempt ≠ 0)
    (hprepared : context.applyInWorktree base claims = .ok prepared)
    (hbase : journal.baseCommit.validObjectId = true) (hcommit : commit.validObjectId = true)
    (hjournal : journal.claims = journalClaims claims)
    (hstate : journal.state = prepared.terminalState commit started) :
    validateJournalStructure journal journal.batchId = .ok () ∧
      outcomeFromJournal journal = .ok (prepared.outcome commit) := by
  obtain ⟨hbatch, hnodup, -, hpositive, -, hchain⟩ := validateBatchClaims_eq_ok hclaims
  have htokens := journalClaims_map_tokenOf hjournal hbatch
  have hids : journal.claims.map JournalClaim.requestId =
      (journal.claims.map journal.tokenOf).map ClaimToken.requestId := by
    rw [List.map_map]
    rfl
  have hnodup : (journal.claims.map JournalClaim.requestId).Nodup := by
    rwa [hids, htokens, List.map_map]
  have hpositive : ∀ claim ∈ journal.claims, claim.attempt ≠ 0 ∧ claim.acceptanceSequence ≠ 0 := by
    intro claim hclaim
    rw [hjournal] at hclaim
    obtain ⟨claimed, hclaimed, rfl⟩ := List.mem_map.1 hclaim
    exact ⟨hattempts claimed hclaimed, (hpositive _ hclaim).ne'⟩
  have hsplit : (prepared.successful ++ prepared.failures.map RequestFailure.token).Perm
      (journal.claims.map journal.tokenOf) := by
    simp only [BatchContext.applyInWorktree, bind_eq_ok, pure_eq_ok, Except.ok.injEq] at hprepared
    obtain ⟨state, hrun, rfl⟩ := hprepared
    obtain ⟨hattempted, hrecorded⟩ := BatchContext.recorded_of_run hrun
    rw [htokens, ← hattempted, List.map_map]
    exact (BatchContext.Recorded.partition hrecorded).2.2
  have hrecorded := prepared.outcome?_terminalState hstate
  constructor
  · rw [validateJournalStructure_terminal hrecorded]
    refine ⟨⟨rfl, hbase, hpositive, hjournal ▸ hchain⟩, ?_, hnodup, ?_⟩
    · split <;> simp [hcommit]
    · have hperm := hids ▸ hsplit.map ClaimToken.requestId
      simpa [RequestFailure.recorded, Function.comp_def] using hperm
  · rw [outcomeFromJournal_eq hrecorded hnodup (fun claim hclaim => (hpositive claim hclaim).1) hsplit,
      PreparedBatch.outcome]
    by_cases hnone : prepared.successful = [] <;> simp [hnone]

/-- Whatever terminal journal passes the checks, recovery finds an outcome for it, in which each claim
of the journal occurs once, with its own attempt. -/
theorem outcome_of_validated (hvalid : validateJournalStructure journal batchId = .ok ())
    (hterminal : journal.state ≠ .preparing) :
    ∃ outcome, outcomeFromJournal journal = .ok outcome ∧
      outcome.tokens.Perm (journal.claims.map journal.tokenOf) := by
  obtain ⟨commit, ids, failed, hrecorded⟩ : ∃ commit ids failed,
      journal.state.outcome? = some (commit, ids, failed) := by
    cases hstate : journal.state with
    | preparing => exact absurd hstate hterminal
    | noChanges failures => exact ⟨_, _, _, rfl⟩
    | committed commit successful failures started => exact ⟨_, _, _, rfl⟩
  obtain ⟨⟨-, -, hclaims, -⟩, -, hnodup, hperm⟩ :=
    (validateJournalStructure_terminal hrecorded).1 hvalid
  have hsplit := (hperm.map journal.tokenFor).trans (.of_eq (map_tokenFor hnodup))
  let failures := failed.map fun failure =>
    (⟨journal.tokenFor failure.requestId, failure.errorCode⟩ : RequestFailure)
  have hfailures : failures.map RequestFailure.token =
      (failed.map JournalFailure.requestId).map journal.tokenFor := by
    simp [failures, Function.comp_def]
  rw [List.map_append, ← hfailures] at hsplit
  have hread : journal.state.outcome? = some (commit,
      (ids.map journal.tokenFor).map ClaimToken.requestId,
      failures.map RequestFailure.recorded) := by
    simp [hrecorded, failures, Function.comp_def, TransactionJournal.tokenFor,
      RequestFailure.recorded]
  rw [outcomeFromJournal_eq hread hnodup (fun claim hclaim => (hclaims claim hclaim).1) hsplit]
  cases commit with
  | some commit => exact ⟨_, rfl, hsplit⟩
  | none =>
      -- Only a state without changes has no commit, and it has no successes either.
      obtain rfl := JournalState.successful_eq_nil hrecorded
      exact ⟨_, rfl, hsplit⟩

end Outcome

namespace Sample

def newCommit : CommitId := "00000000000000000000000000000000000000c0"

/-- A batch of two requests, of which the second one failed. -/
def halfJournal : TransactionJournal where
  batchId := takeOutClaim.token.batchId
  queueIdentity := revision
  baseCommit := "0000000000000000000000000000000000000000"
  claims := [⟨takeOut.requestId, 1, 4⟩, ⟨missing.requestId, 2, 9⟩]
  claimFailures := 0
  state := .committed newCommit [takeOut.requestId] [⟨missing.requestId, .documentNotFound⟩] true

theorem halfJournal_outcome :
    validateJournalStructure halfJournal halfJournal.batchId = .ok () ∧
      ∃ outcome, outcomeFromJournal halfJournal = .ok outcome ∧
        outcome.tokens.Perm (halfJournal.claims.map halfJournal.tokenOf) := by
  have hvalid : validateJournalStructure halfJournal halfJournal.batchId = .ok () := by decide
  exact ⟨hvalid, outcome_of_validated hvalid (by simp [halfJournal])⟩

end Sample

end AgentKnowledge
