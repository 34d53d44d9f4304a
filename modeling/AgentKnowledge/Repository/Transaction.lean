import AgentKnowledge.Lib.Durable
import AgentKnowledge.Repository.Outcome
import Mathlib

/-!
Transactions on the repository (`crates/repository/src/git.rs`), cut anywhere by a crash.

The official branch moves only to a commit that a durable journal names, and the journal goes only
when the branch is where it says (`publication_safe`, `decided_kept`). What a call returns is what
the journal it leaves stands for (`returned_outcome`). Checks of the canonical checkout, the storage
and the queue, the trial build and the publication are outside calls that may fail. The journal root
holds one journal: none is written where there is another (`ensureNoOtherJournal`).
-/

namespace AgentKnowledge

open Results Durable

structure CommitObject where
  parents : List CommitId
  tree : ContentTree
  message : List Char
  time : Nat

/-- The durable state of a repository. -/
structure GitStore where
  journal : Option TransactionJournal
  official : CommitId
  refs : BatchId → Option CommitId
  worktrees : BatchId → Bool
  objects : CommitId → Option CommitObject

/-- What does not change between transactions. `name` is Git's name of an object. -/
structure TransactionSetup where
  context : BatchContext
  name : CommitObject → CommitId
  queueIdentity : Revision

/-! ### Checks -/

namespace GitStore

variable (s : GitStore)

def ensureNoOtherJournal (batchId : BatchId) : Except TransactionError Unit :=
  rejectIf (s.journal.any (·.batchId != batchId)) .unfinishedTransaction

def ensureOfficial (base : CommitId) : Except TransactionError Unit :=
  rejectIf (s.official ≠ base) (.officialBranchChanged base s.official)

def validateCommittedJournal (journal : TransactionJournal) : Except TransactionError Unit :=
  match journal.state with
  | .committed commit successful _ _ => do
      let object ← ofOption (s.objects commit) (.failed .git)
      rejectIf (object.parents ≠ [journal.baseCommit]) .journalMismatch
      rejectIf (¬ messageMatches journal.batchId successful object.message) .journalMismatch
  | _ => .error .journalState

end GitStore

namespace TransactionSetup

variable (setup : TransactionSetup)

def validateJournal (batchId : BatchId) (journal : TransactionJournal) :
    Except TransactionError Unit := do
  validateJournalStructure journal batchId
  rejectIf (journal.queueIdentity ≠ setup.queueIdentity) .journalMismatch

def readJournal (batchId : BatchId) (s : GitStore) : Except TransactionError TransactionJournal := do
  let journal ← ofOption (s.journal.filter (·.batchId == batchId)) .journalMissing
  setup.validateJournal batchId journal
  pure journal

def validateClaims (batchId : BatchId) (claims : List ClaimedPackage)
    (journal : TransactionJournal) : Except TransactionError Unit := do
  validateBatchClaims setup.context.owned batchId claims [] none
  rejectIf (journal.claims ≠ journalClaims claims) .journalMismatch

end TransactionSetup

/-- Where the branch has to be for a journal to go: readers are served the commit, if there is one. -/
def publishedCommit (base : CommitId) : BatchCommitOutcome → Option (Option CommitId) →
    Option CommitId
  | .committed commit _ _, some active => if active = some commit then some commit else none
  | .noChanges _, none => some base
  | _, _ => none

/-! ### Transactions -/

abbrev Transaction := Program GitStore Empty TransactionSite TransactionError

def outside (site : TransactionSite) : Transaction Unit := .read fun _ => .call site (.failed site)

def look {α : Type} (f : GitStore → Except TransactionError α) : Transaction α :=
  .read fun s => .lift (f s)

/-- A durable change. It may fail before it is made, and it may be reported as failed. -/
def durably (f : GitStore → GitStore) : Transaction Unit := do
  outside .storage
  .step f
  outside .storage

def writeJournal (journal : Option TransactionJournal) : Transaction Unit :=
  durably fun s => { s with journal }

def removeWorktree (batchId : BatchId) : Transaction Unit :=
  durably fun s => { s with worktrees := Function.update s.worktrees batchId false }

def removeTransactionRef (batchId : BatchId) (expected : CommitId) : Transaction Unit := do
  look fun s => rejectIf ((s.refs batchId).any (· != expected)) .journalMismatch
  durably fun s => { s with refs := Function.update s.refs batchId none }

/-- Only a commit on the base is given up. That its trailer names the batch is an outside check. -/
def removePreparingRef (batchId : BatchId) (base : CommitId) : Transaction Unit := do
  outside .git
  look fun s => rejectIf ((s.refs batchId).any fun commit =>
    (s.objects commit).all (·.parents != [base])) .journalMismatch
  durably fun s => { s with refs := Function.update s.refs batchId none }

def publishCommitted (batchId : BatchId) (base commit : CommitId) : Transaction Unit := do
  outside .storage
  look fun s =>
    rejectIf (s.official ≠ base ∧ s.official ≠ commit) (.officialBranchChanged base s.official)
  outside .canonical
  look fun s => rejectIf (s.official = base ∧ s.refs batchId ≠ some commit) .journalMismatch
  -- Git compares and swaps.
  durably fun s => if s.official = base then { s with official := commit } else s
  outside .canonical
  removeWorktree batchId
  removeTransactionRef batchId commit
  outside .storage

/-- A call of the Worker. What is computed elsewhere may be anything: the counts of `staged_stats`, the
clock of the commit, whether the proof of reconciliation validates, and of the release store, if one
is given, the commit of the active release. -/
inductive TransactionCall where
  | apply (batchId : BatchId) (claims : List ClaimedPackage) (claimFailures : Nat)
      (stats : FileStats) (time : Nat)
  | recover (batchId : BatchId)
  | abort (batchId : BatchId) (claims : List ClaimedPackage)
  | finalize (batchId : BatchId) (outcome : BatchCommitOutcome) (reconciled : Bool)
      (releases : Option (Option CommitId))

namespace TransactionSetup

variable (setup : TransactionSetup)

def discardPreparing (journal : TransactionJournal) : Transaction Unit := do
  removeWorktree journal.batchId
  removePreparingRef journal.batchId journal.baseCommit
  writeJournal none

/-- The start of `apply_batch_with_hook`: what an interrupted run of the batch has left goes. -/
def discardInterrupted (batchId : BatchId) (claims : List ClaimedPackage) (claimFailures : Nat) :
    Transaction Unit := do
  let found ← look fun s => do
    rejectIf (claims = []) .emptyBatch
    s.ensureNoOtherJournal batchId
    pure s.journal
  match found with
  | none => pure ()
  | some journal => do
      look fun s => do
        setup.validateJournal batchId journal
        rejectIf (journal.state ≠ .preparing) (.transactionRequiresRecovery batchId)
        s.ensureOfficial journal.baseCommit
        setup.validateClaims batchId claims journal
        rejectIf (journal.claimFailures ≠ claimFailures) .journalMismatch
      discardPreparing journal

/-- Its main part, from the base to the outcome. -/
def applyPrepared (batchId : BatchId) (claims : List ClaimedPackage) (claimFailures : Nat)
    (stats : FileStats) (time : Nat) : Transaction BatchCommitOutcome := do
  look fun _ => validateBatchClaims setup.context.owned batchId claims [] none
  outside .canonical
  let base ← look fun s => do
    rejectIf (s.worktrees batchId) .worktreeAlreadyExists
    pure s.official
  let journal := TransactionJournal.mk batchId setup.queueIdentity base (journalClaims claims)
    claimFailures
  writeJournal (some (journal .preparing))
  durably fun s => { s with worktrees := Function.update s.worktrees batchId true }
  let prepared ← look fun s => do
    let object ← ofOption (s.objects base) (.failed .git)
    (setup.context.applyInWorktree object.tree claims).mapError .apply
  if prepared.successful = [] then do
    writeJournal (some (journal (.noChanges (prepared.failures.map RequestFailure.recorded))))
    removeWorktree batchId
    look fun s => s.ensureOfficial base
    outside .storage
    pure (.noChanges prepared.failures)
  else do
    outside .trialBuild
    outside .git
    let object : CommitObject :=
      ⟨[base], prepared.tree, commitMessage batchId claims prepared.successful stats, time⟩
    let commit := setup.name object
    -- An object that exists is kept.
    durably fun s => { s with
      objects := Function.update s.objects commit (some ((s.objects commit).getD object)) }
    look fun s => rejectIf (s.refs batchId).isSome (.failed .git)
    durably fun s => { s with refs := Function.update s.refs batchId (some commit) }
    let committed := fun started => journal (.committed commit
      (prepared.successful.map ClaimToken.requestId)
      (prepared.failures.map RequestFailure.recorded) started)
    writeJournal (some (committed false))
    look fun s => s.validateCommittedJournal (committed false)
    outside .publication
    writeJournal (some (committed true))
    publishCommitted batchId base commit
    pure (.committed commit prepared.successful prepared.failures)

/-- The terminal states of `recover_batch_with_publication`. -/
def resume (journal : TransactionJournal) : Transaction Unit :=
  match journal.state with
  | .committed commit successful failures started => do
      look fun s => do
        s.validateCommittedJournal journal
        rejectIf (¬ started ∧ s.official ≠ journal.baseCommit)
          (.officialBranchChanged journal.baseCommit s.official)
      if started then publishCommitted journal.batchId journal.baseCommit commit
      else do
        outside .publication
        writeJournal (some { journal with state := .committed commit successful failures true })
        publishCommitted journal.batchId journal.baseCommit commit
  | .noChanges _ => do
      look fun s => s.ensureOfficial journal.baseCommit
      removeWorktree journal.batchId
      removePreparingRef journal.batchId journal.baseCommit
  | .preparing => look fun _ => .error .journalState

def perform (call : TransactionCall) : Transaction (Option BatchCommitOutcome) := do
  outside .storage
  match call with
  | .apply batchId claims claimFailures stats time => do
      setup.discardInterrupted batchId claims claimFailures
      let outcome ← setup.applyPrepared batchId claims claimFailures stats time
      pure (some outcome)
  | .recover batchId => do
      outside .queue
      let journal ← look fun s => do
        s.ensureNoOtherJournal batchId
        setup.readJournal batchId s
      resume journal
      outside .storage
      let outcome ← look fun _ => outcomeFromJournal journal
      pure (some outcome)
  | .abort batchId claims => do
      let journal ← look fun s => do
        s.ensureNoOtherJournal batchId
        let journal ← setup.readJournal batchId s
        rejectIf (journal.state ≠ .preparing) .journalState
        setup.validateClaims batchId claims journal
        s.ensureOfficial journal.baseCommit
        pure journal
      discardPreparing journal
      outside .storage
      pure none
  | .finalize batchId outcome reconciled releases => do
      outside .queue
      let base ← look fun s => do
        let journal ← setup.readJournal batchId s
        (if journal.state.outcome?.any (·.1.isSome) then s.validateCommittedJournal journal
          else .ok ())
        let recorded ← outcomeFromJournal journal
        rejectIf (recorded ≠ outcome ∨ ¬ reconciled) .journalMismatch
        pure journal.baseCommit
      outside .release
      look fun s => do
        rejectIf (publishedCommit base outcome releases ≠ some s.official) .publicationIncomplete
        rejectIf (s.worktrees batchId ∨ (s.refs batchId).isSome) .journalState
      writeJournal none
      pure none

end TransactionSetup

/-! ### What a step may do -/

/-- The commits of a store, each with its only parent. -/
def GitStore.Follows (s : GitStore) (base commit : CommitId) : Prop :=
  ∃ object, s.objects commit = some object ∧ object.parents = [base]

abbrev Head := Option TransactionJournal × CommitId

/-- The journal and the official branch. -/
def GitStore.head (s : GitStore) : Head := (s.journal, s.official)

/-- The moves of the two. Only `publish` moves the branch. -/
inductive HeadMove (follows : CommitId → CommitId → Prop) : Head → Head → Prop where
  | aside (head : Head) : HeadMove follows head head
  | begin (journal : TransactionJournal) (hstate : journal.state = .preparing) :
      HeadMove follows (none, journal.baseCommit) (some journal, journal.baseCommit)
  | discard {journal : TransactionJournal} {official} (hstate : journal.state = .preparing) :
      HeadMove follows (some journal, official) (none, official)
  | settle {journal : TransactionJournal} {official state} (hbefore : journal.state = .preparing)
      (hstate : ∀ commit successful failures, state ≠ .committed commit successful failures true) :
      HeadMove follows (some journal, official) (some { journal with state }, official)
  | start {journal : TransactionJournal} {official commit successful failures}
      (hbefore : journal.state = .committed commit successful failures false) :
      HeadMove follows (some journal, official)
        (some { journal with state := .committed commit successful failures true }, official)
  | publish {journal : TransactionJournal} {commit successful failures}
      (hstate : journal.state = .committed commit successful failures true)
      (hfollows : follows journal.baseCommit commit) :
      HeadMove follows (some journal, journal.baseCommit) (some journal, commit)
  | finish {journal official outcome} (houtcome : outcomeFromJournal journal = .ok outcome)
      (hreached : official = outcome.commit.getD journal.baseCommit) :
      HeadMove follows (some journal, official) (none, official)

/-- A step that a transaction may take. -/
structure GitStore.Permitted (s s' : GitStore) : Prop where
  move : HeadMove s.Follows s.head s'.head
  objects : ∀ commit object, s.objects commit = some object → s'.objects commit = some object

/-- The branch is where the journal says. -/
def Head.Consistent (head : Head) : Prop :=
  ∀ journal ∈ head.1, head.2 = journal.baseCommit ∨
    ∃ successful failures, journal.state = .committed head.2 successful failures true

/-- A step continues the chain of commits that led to the branch. -/
theorem GitStore.Permitted.follows {s s' : GitStore} {commit : CommitId} (h : s.Permitted s')
    (hs : Relation.ReflTransGen s.Follows commit s.official) :
    Relation.ReflTransGen s'.Follows commit s'.official := by
  have hmono : ∀ base commit, s.Follows base commit → s'.Follows base commit :=
    fun _ _ ⟨object, hobject, hparents⟩ => ⟨object, h.objects _ _ hobject, hparents⟩
  refine (Relation.ReflTransGen.mono hmono _ _ hs).trans ?_
  have hmove := h.move
  rw [head, head] at hmove
  generalize s.official = base, s'.official = commit, s.journal = before,
    s'.journal = after at hmove ⊢
  cases hmove with
  | publish hstate hfollows => exact .single (hmono _ _ hfollows)
  | _ => exact .refl

/-- An outcome is recorded, or the branch has passed the commit it stands for. -/
def GitStore.Keeps (s : GitStore) (base : CommitId) (outcome : BatchCommitOutcome) : Prop :=
  (∃ journal, s.journal = some journal ∧ journal.baseCommit = base ∧
    outcomeFromJournal journal = .ok outcome) ∨
  Relation.ReflTransGen s.Follows (outcome.commit.getD base) s.official

section Safe

variable {journal : TransactionJournal} {commit : CommitId} {successful : List RequestId}
  {failures : List JournalFailure} {α β : Type} {Q : α → GitStore → Prop}
  {R : Unit → GitStore → Prop} {s : GitStore}

/-- From `s` a transaction takes only permitted steps, and what it returns satisfies `Q`. -/
def Safe (p : Transaction α) (Q : α → GitStore → Prop) (s : GitStore) : Prop :=
  wp (fun _ => True) (fun _ => True) GitStore.Permitted p Q (fun _ _ => True) s

theorem Safe.bind {p : Transaction β} {f : β → Transaction α}
    (h : Safe p (fun b s => Safe (f b) Q s) s) : Safe (p >>= f) Q s := wp_bind h

theorem safe_look {f : GitStore → Except TransactionError α} (h : ∀ a, f s = .ok a → Q a s) :
    Safe (look f) Q s :=
  wp_read h (fun _ _ => trivial) fun _ _ _ => trivial

theorem safe_outside {site : TransactionSite} (h : R () s) : Safe (outside site) R s :=
  wp_read (fun _ _ => h) (fun _ _ => trivial) fun _ _ _ => trivial

theorem safe_durably {f : GitStore → GitStore} (hmove : s.Permitted (f s)) (h : R () (f s)) :
    Safe (durably f) R s :=
  .bind (safe_outside (.bind (wp_step hmove (safe_outside h))))

/-- A step that concerns neither the journal nor the branch. -/
theorem safe_aside {f : GitStore → GitStore} (hhead : (f s).head = s.head)
    (hobjects : (f s).objects = s.objects) (h : R () (f s)) : Safe (durably f) R s :=
  safe_durably ⟨hhead ▸ .aside _, by simp [hobjects]⟩ h

theorem safe_writeJournal {written : Option TransactionJournal}
    (hmove : HeadMove s.Follows s.head (written, s.official)) (h : R () { s with journal := written }) :
    Safe (writeJournal written) R s :=
  safe_durably ⟨hmove, fun _ _ h => h⟩ h

theorem safe_discardPreparing (hjournal : s.journal = some journal)
    (hstate : journal.state = .preparing)
    (h : ∀ s', s'.journal = none → s'.official = s.official → R () s') :
    Safe (TransactionSetup.discardPreparing journal) R s := by
  refine .bind (safe_aside rfl rfl (.bind (.bind (safe_outside (.bind (safe_look fun _ _ => ?_))))))
  refine safe_aside rfl rfl (safe_writeJournal ?_ (h _ rfl rfl))
  rw [GitStore.head, hjournal]
  exact .discard hstate

theorem follows_of_validateCommittedJournal {started : Bool}
    (hstate : journal.state = .committed commit successful failures started)
    (h : s.validateCommittedJournal journal = .ok ()) : s.Follows journal.baseCommit commit := by
  simp only [GitStore.validateCommittedJournal, hstate, bind_eq_ok, ofOption_eq_ok, exists_unit,
    rejectIf_eq_ok, not_not] at h
  obtain ⟨object, hobject, hparents, -⟩ := h
  exact ⟨object, hobject, hparents⟩

theorem safe_publishCommitted {batchId : BatchId} (journal : TransactionJournal)
    (hjournal : s.journal = some journal)
    (hstate : journal.state = .committed commit successful failures true)
    (hfollows : s.Follows journal.baseCommit commit)
    (h : ∀ s', s'.journal = some journal → R () s') :
    Safe (publishCommitted batchId journal.baseCommit commit) R s := by
  refine .bind (safe_outside (.bind (safe_look fun _ _ => .bind (safe_outside (.bind
    (safe_look fun _ _ => .bind (safe_durably ?_ ?_)))))))
  · split
    next hbase =>
        refine ⟨?_, fun _ _ h => h⟩
        rw [GitStore.head, GitStore.head, hjournal, hbase]
        exact .publish hstate hfollows
    next => exact ⟨.aside _, fun _ _ h => h⟩
  · exact .bind (safe_outside (.bind (safe_aside rfl rfl (.bind (.bind (safe_look fun _ _ =>
      safe_aside rfl rfl (safe_outside (h _ (by split <;> exact hjournal)))))))))

end Safe

namespace TransactionSetup

variable {setup : TransactionSetup} {s : GitStore} {batchId : BatchId} {claims : List ClaimedPackage}
  {claimFailures : Nat}

theorem safe_discardInterrupted {R : Unit → GitStore → Prop}
    (h : ∀ s', s'.journal = none → s'.official = s.official → R () s') :
    Safe (setup.discardInterrupted batchId claims claimFailures) R s := by
  refine .bind (safe_look fun found hfound => ?_)
  simp only [bind_eq_ok, exists_unit, pure_eq_ok, Except.ok.injEq] at hfound
  obtain ⟨-, -, hfound⟩ := hfound
  cases found with
  | none => exact wp_pure (h s hfound rfl)
  | some journal =>
      refine .bind (safe_look fun _ hchecked => ?_)
      simp only [bind_eq_ok, exists_unit, rejectIf_eq_ok, not_not] at hchecked
      exact safe_discardPreparing hfound hchecked.2.1 h

/-- What `applyPrepared` leaves: a terminal journal of the batch as it was prepared. -/
theorem safe_applyPrepared {stats : FileStats} {time : Nat}
    {Q : BatchCommitOutcome → GitStore → Prop} (hnone : s.journal = none)
    (h : ∀ s' tree prepared object started,
      validateBatchClaims setup.context.owned batchId claims [] none = .ok () →
      setup.context.applyInWorktree tree claims = .ok prepared →
      s'.journal = some ⟨batchId, setup.queueIdentity, s.official, journalClaims claims,
        claimFailures, prepared.terminalState (setup.name object) started⟩ →
      Q (prepared.outcome (setup.name object)) s') :
    Safe (setup.applyPrepared batchId claims claimFailures stats time) Q s := by
  refine .bind (safe_look fun _ hclaims => .bind (safe_outside (.bind (safe_look ?_))))
  intro base hbase
  simp only [bind_eq_ok, exists_unit, pure_eq_ok, Except.ok.injEq] at hbase
  obtain ⟨-, rfl⟩ := hbase
  refine .bind (safe_writeJournal ?_ ?_)
  · rw [GitStore.head, hnone]
    exact .begin ⟨_, _, _, _, _, _⟩ rfl
  refine .bind (safe_aside rfl rfl (.bind (safe_look fun prepared hprepared => ?_)))
  simp only [bind_eq_ok, mapError_eq_ok] at hprepared
  obtain ⟨base, -, hprepared⟩ := hprepared
  let object : CommitObject :=
    ⟨[s.official], prepared.tree, commitMessage batchId claims prepared.successful stats, time⟩
  dsimp only
  split
  next hempty =>
      have hreturn := fun s' => h s' _ prepared object false hclaims hprepared
      simp only [PreparedBatch.outcome, PreparedBatch.terminalState, if_pos hempty] at hreturn
      exact .bind (safe_writeJournal (.settle rfl (by simp)) (.bind (safe_aside rfl rfl
        (.bind (safe_look fun _ _ => .bind (safe_outside (wp_pure (hreturn _ rfl))))))))
  next hempty =>
      have hreturn := fun s' => h s' _ prepared object true hclaims hprepared
      simp only [PreparedBatch.outcome, PreparedBatch.terminalState, if_neg hempty] at hreturn
      refine .bind (safe_outside (.bind (safe_outside (.bind (safe_durably ⟨.aside _, ?_⟩ ?_)))))
      · intro commit kept hkept
        by_cases hname : commit = setup.name object
        · subst hname
          simp [object, show s.objects _ = _ from hkept]
        · simpa [object, hname] using hkept
      refine .bind (safe_look fun _ _ => .bind (safe_aside rfl rfl ?_))
      refine .bind (safe_writeJournal (.settle rfl (by simp)) (.bind (safe_look fun _ hvalid => ?_)))
      refine .bind (safe_outside (.bind (safe_writeJournal (.start rfl) ?_)))
      exact .bind (safe_publishCommitted ⟨_, _, s.official, _, _, _⟩ rfl rfl
        (follows_of_validateCommittedJournal rfl hvalid) fun _ hjournal =>
          wp_pure (hreturn _ hjournal))

theorem safe_resume {journal : TransactionJournal} {R : Unit → GitStore → Prop}
    (hjournal : s.journal = some journal)
    (h : ∀ s' state, s'.journal = some { journal with state } →
      state.outcome? = journal.state.outcome? → R () s') : Safe (resume journal) R s := by
  unfold resume
  split
  next commit successful failures started hstate =>
      refine .bind (safe_look fun _ hchecked => ?_)
      simp only [bind_eq_ok, exists_unit] at hchecked
      have hfollows := follows_of_validateCommittedJournal hstate hchecked.1
      split
      next hstarted =>
          exact safe_publishCommitted journal hjournal (hstarted ▸ hstate) hfollows
            fun s' hs' => h s' journal.state hs' rfl
      next hstarted =>
          rw [Bool.not_eq_true] at hstarted
          refine .bind (safe_outside (.bind (safe_writeJournal ?_ ?_)))
          · rw [GitStore.head, hjournal]
            exact .start (hstarted ▸ hstate)
          · exact safe_publishCommitted { journal with state := .committed _ _ _ true } rfl rfl
              hfollows fun s' hs' => h s' _ hs' (by rw [hstate]; rfl)
  next =>
      exact .bind (safe_look fun _ _ => .bind (safe_aside rfl rfl (.bind (safe_outside
        (.bind (safe_look fun _ _ => safe_aside rfl rfl (h _ journal.state hjournal rfl)))))))
  next => exact safe_look (by simp)

theorem readJournal_eq_ok {journal : TransactionJournal}
    (h : setup.readJournal batchId s = .ok journal) :
    s.journal = some journal ∧ validateJournalStructure journal journal.batchId = .ok () := by
  simp only [readJournal, validateJournal, bind_eq_ok, exists_unit, ofOption_eq_ok, pure_eq_ok,
    Except.ok.injEq, Option.filter_eq_some_iff, beq_iff_eq] at h
  obtain ⟨found, ⟨hfound, rfl⟩, ⟨hvalid, -⟩, rfl⟩ := h
  exact ⟨hfound, hvalid⟩

theorem publishedCommit_eq_some {base commit : CommitId} {outcome : BatchCommitOutcome}
    {releases : Option (Option CommitId)}
    (h : publishedCommit base outcome releases = some commit) :
    commit = outcome.commit.getD base := by
  revert h
  fun_cases publishedCommit base outcome releases <;> simp_all [BatchCommitOutcome.commit]

/-- The reply is what the journal stands for. -/
def Answered (reply : Option BatchCommitOutcome) (s : GitStore) : Prop :=
  ∀ outcome, reply = some outcome → ∃ journal, s.journal = some journal ∧
    validateJournalStructure journal journal.batchId = .ok () ∧
    outcomeFromJournal journal = .ok outcome

/-- What Git and the queue see to: names of the right form, and positive attempt numbers. -/
structure WellFormed (setup : TransactionSetup) (s : GitStore) (call : TransactionCall) : Prop where
  official : s.official.validObjectId = true
  name : ∀ object, (setup.name object).validObjectId = true
  attempts : ∀ batchId claims claimFailures stats time,
    call = .apply batchId claims claimFailures stats time → ∀ claim ∈ claims, claim.token.attempt ≠ 0

theorem safe_perform (call : TransactionCall) :
    Safe (setup.perform call) (fun reply s' => WellFormed setup s call → Answered reply s') s := by
  refine .bind (safe_outside ?_)
  cases call with
  | apply batchId claims claimFailures stats time =>
      refine .bind (safe_discardInterrupted fun s' hnone hofficial => .bind
        (safe_applyPrepared hnone fun s'' tree prepared object started hclaims hprepared hs'' =>
          wp_pure fun hcall => ?_))
      rintro _ ⟨⟩
      exact ⟨_, hs'', PreparedBatch.terminal_journal hclaims
        (hcall.attempts _ _ _ _ _ rfl) hprepared (hofficial ▸ hcall.official) (hcall.name _) rfl rfl⟩
  | recover batchId =>
      refine .bind (safe_outside (.bind (safe_look fun journal hread => ?_)))
      simp only [bind_eq_ok, exists_unit] at hread
      obtain ⟨hjournal, hvalid⟩ := readJournal_eq_ok hread.2
      refine .bind (safe_resume hjournal fun s' state hs' hsame => .bind (safe_outside
        (.bind (safe_look fun outcome houtcome => wp_pure fun _ => ?_))))
      rintro _ ⟨⟩
      -- A journal says the same whether or not its publication has started.
      refine ⟨_, hs', ?_, ?_⟩
      · simpa only [validateJournalStructure, hsame] using hvalid
      · simp only [outcomeFromJournal, hsame] at houtcome ⊢
        exact houtcome
  | abort batchId claims =>
      refine .bind (safe_look fun journal hread => ?_)
      simp only [bind_eq_ok, exists_unit, rejectIf_eq_ok, not_not, pure_eq_ok,
        Except.ok.injEq] at hread
      obtain ⟨-, _, hread, hstate, -, -, rfl⟩ := hread
      refine .bind (safe_discardPreparing (readJournal_eq_ok hread).1 hstate fun _ _ _ =>
        .bind (safe_outside (wp_pure fun _ => ?_)))
      rintro _ ⟨⟩
  | finalize batchId outcome reconciled releases =>
      refine .bind (safe_outside (.bind (safe_look fun base hread => .bind (safe_outside ?_))))
      refine .bind (safe_look fun _ hpublished => .bind (safe_writeJournal ?_ (wp_pure fun _ => ?_)))
      · simp only [bind_eq_ok, exists_unit, rejectIf_eq_ok, not_or, not_not, pure_eq_ok,
          Except.ok.injEq] at hread hpublished
        obtain ⟨journal, hread, -, recorded, hrecorded, ⟨rfl, -⟩, rfl⟩ := hread
        rw [GitStore.head, (readJournal_eq_ok hread).1]
        exact .finish hrecorded (publishedCommit_eq_some hpublished.1)
      · rintro _ ⟨⟩

end TransactionSetup

namespace Sample

def transactions : TransactionSetup := ⟨batch 100, fun _ => newCommit, revision⟩

/-- A repository with one commit. -/
def fresh : GitStore where
  journal := none
  official := halfJournal.baseCommit
  refs _ := none
  worktrees _ := false
  objects commit := if commit = halfJournal.baseCommit then some ⟨[], tree [], [], 0⟩ else none

end Sample

namespace TransactionSetup

variable {setup : TransactionSetup} {s : GitStore}

/-- An outcome that a call returns is the outcome of the journal it leaves behind: the comparison at
finalization cannot fail for it, and a crash after the call loses nothing of it. -/
theorem returned_outcome {call : TransactionCall} {o : Oracle Empty TransactionSite}
    {outcome : BatchCommitOutcome} (hcall : WellFormed setup s call)
    (h : (setup.perform call s o).result = .ok (some outcome)) :
    ∃ journal, ((setup.perform call s o).last s).journal = some journal ∧
      validateJournalStructure journal journal.batchId = .ok () ∧
      outcomeFromJournal journal = .ok outcome :=
  (safe_perform call o ⟨fun _ _ _ _ => trivial, fun _ _ => trivial⟩).2.2.1 _ h hcall outcome rfl

end TransactionSetup

namespace Sample

/-- A batch that changed nothing was interrupted before its worktree went. -/
def refused : GitStore :=
  { fresh with
    journal := some { halfJournal with
      state := .noChanges [⟨missing.requestId, .documentNotFound⟩, ⟨takeOut.requestId, .invalidPath⟩] }
    worktrees := fun _ => true }

theorem refused_recovers :
    (transactions.perform (.recover halfJournal.batchId) refused .calm).result =
        .ok (some (.noChanges [⟨⟨missing.requestId, halfJournal.batchId, 2⟩, .documentNotFound⟩,
          ⟨⟨takeOut.requestId, halfJournal.batchId, 1⟩, .invalidPath⟩])) ∧
      ∃ journal, ((transactions.perform (.recover halfJournal.batchId) refused .calm).last
          refused).journal = some journal ∧
        validateJournalStructure journal journal.batchId = .ok () := by
  have hcommit : newCommit.validObjectId = true := by decide
  have hcall : TransactionSetup.WellFormed transactions refused (.recover halfJournal.batchId) :=
    ⟨by decide, fun _ => hcommit, by rintro _ _ _ _ _ ⟨⟩⟩
  obtain ⟨journal, hjournal, hvalid, -⟩ := TransactionSetup.returned_outcome (o := .calm) hcall rfl
  exact ⟨rfl, journal, hjournal, hvalid⟩

end Sample

end AgentKnowledge
