import AgentKnowledge.Repository.View

/-!
Applying the claims of a batch in one worktree (`apply_in_worktree` in
`crates/repository/src/git.rs`).

The claims are applied one after the other. After a success the worktree is
recorded as the new tree; after a failure it is reset to the last recorded one.
A recorded tree has no empty directories, the worktree may have some
(`FileTree.prune`), and they count towards the entry limit of the index. So the
batch is the fold of its requests (`applyOnce`), and failed requests can be left
out, as long as that limit is out of reach (`Roomy`); which claims succeed, fail
and move what is recorded faithfully in any case. Both are in `batch_isolation`.
-/

namespace AgentKnowledge

open Results

structure RequestFailure where
  token : ClaimToken
  errorCode : ErrorCode
deriving DecidableEq, Repr

/-- What is left of a batch for the commit. The tree is a recorded one. -/
structure PreparedBatch where
  tree : ContentTree
  successful : List ClaimToken := []
  failures : List RequestFailure := []
  moves : List AppliedMove := []
deriving DecidableEq

inductive BatchError where
  | queue
  | apply (requestId : RequestId) (source : ApplyError)
deriving DecidableEq

/-- The running state: the worktree, and the batch as it would be recorded. -/
structure BatchState where
  worktree : ContentTree
  prepared : PreparedBatch

/-- A claim with what became of it. -/
structure Attempt where
  claim : ClaimedPackage
  result : Except ApplyError (ContentTree × ApplyOutcome)

namespace Attempt

def succeeded (attempt : Attempt) : Bool := attempt.result.isOk

def failure (attempt : Attempt) : Option RequestFailure :=
  match attempt.result with
  | .ok _ => none
  | .error error => error.requestErrorCode.map fun code => ⟨attempt.claim.token, code⟩

def moves (attempt : Attempt) : List AppliedMove :=
  match attempt.result with
  | .ok (_, outcome) => outcome.moves
  | .error _ => []

end Attempt

/-- What does not change during a batch. `owned` is the check of a claim against
the queue (`validate_claimed`). -/
structure BatchContext where
  x : Externals
  policy : ContentPolicy
  packagePolicy : PackagePolicy
  owned : ClaimedPackage → Bool

namespace BatchContext

variable (c : BatchContext)

/-- Apply one claim to a tree. -/
def attempt (tree : ContentTree) (claim : ClaimedPackage) :
    Except ApplyError (ContentTree × ApplyOutcome) :=
  applyClaimed c.x c.policy c.packagePolicy tree claim

/-- The body of the loop. Whatever a failed request has changed is undone by the reset. -/
def applyClaim (state : BatchState) (claim : ClaimedPackage) : Except BatchError BatchState := do
  rejectIf (¬ c.owned claim) .queue
  match c.attempt state.worktree claim with
  | .ok (worktree, outcome) =>
      pure {
        worktree
        prepared := { state.prepared with
          tree := worktree.prune
          successful := state.prepared.successful ++ [claim.token]
          moves := state.prepared.moves ++ outcome.moves } }
  | .error error =>
      match error.requestErrorCode with
      | none => throw (.apply claim.token.requestId error)
      | some errorCode =>
          pure {
            worktree := state.prepared.tree
            prepared := { state.prepared with
              failures := state.prepared.failures ++ [⟨claim.token, errorCode⟩] } }

/-- The worktree of a batch is a checkout of the base tree. -/
def initial (base : ContentTree) : BatchState := ⟨base, { tree := base }⟩

def applyInWorktree (base : ContentTree) (claims : List ClaimedPackage) :
    Except BatchError PreparedBatch := do
  let state ← claims.foldlM c.applyClaim (initial base)
  pure state.prepared

/-! ### What a batch should do -/

/-- The attempts a batch makes, in order. -/
def attempts : BatchState → List ClaimedPackage → List Attempt
  | _, [] => []
  | state, claim :: rest =>
      ⟨claim, c.attempt state.worktree claim⟩ ::
        match c.applyClaim state claim with
        | .ok next => attempts next rest
        | .error _ => []

/-- The claims whose requests succeed in a batch. -/
def kept (state : BatchState) (claims : List ClaimedPackage) : List ClaimedPackage :=
  ((c.attempts state claims).filter Attempt.succeeded).map Attempt.claim

/-- The most entries a request can add to a tree. -/
def requestEntries (claim : ClaimedPackage) : Nat :=
  PlanInput.operationEntries * claim.package.request.operations.length

/-- The entry limit leaves room for every operation of the batch. -/
def Roomy (base : ContentTree) (claims : List ClaimedPackage) : Prop :=
  base.entryCount + (claims.map requestEntries).sum ≤ c.policy.maximumEntryCount

end BatchContext

namespace BatchContext

variable {c : BatchContext} {state state' : BatchState} {claim : ClaimedPackage}
  {claims : List ClaimedPackage}

/-- One turn of the loop: a success or a failure of the request. -/
inductive Turn (c : BatchContext) (state : BatchState) (claim : ClaimedPackage) :
    BatchState → Prop
  | success {worktree : ContentTree} {outcome : ApplyOutcome}
      (attempted : c.attempt state.worktree claim = .ok (worktree, outcome)) :
      Turn c state claim ⟨worktree, { state.prepared with
        tree := worktree.prune
        successful := state.prepared.successful ++ [claim.token]
        moves := state.prepared.moves ++ outcome.moves }⟩
  | failure {error : ApplyError} {errorCode : ErrorCode}
      (attempted : c.attempt state.worktree claim = .error error)
      (code : error.requestErrorCode = some errorCode) :
      Turn c state claim ⟨state.prepared.tree, { state.prepared with
        failures := state.prepared.failures ++ [⟨claim.token, errorCode⟩] }⟩

theorem applyClaim_eq_ok :
    c.applyClaim state claim = .ok state' ↔ c.owned claim ∧ Turn c state claim state' := by
  unfold applyClaim
  rw [bind_eq_ok, exists_unit, rejectIf_eq_ok, not_not]
  refine and_congr_right fun _ => ?_
  constructor
  · intro h
    split at h
    · rename_i worktree outcome hattempt
      cases h
      exact .success hattempt
    · rename_i error hattempt
      split at h
      · cases h
      · rename_i errorCode hcode
        cases h
        exact .failure hattempt hcode
  · rintro (hattempt | ⟨hattempt, hcode⟩)
    · rw [hattempt]
      rfl
    · rw [hattempt]
      simp only [hcode]
      rfl

theorem attempts_cons (hstep : c.applyClaim state claim = .ok state') :
    c.attempts state (claim :: claims) =
      ⟨claim, c.attempt state.worktree claim⟩ :: c.attempts state' claims := by
  rw [attempts, hstep]

/-- What a batch records of its attempts. -/
structure Recorded (attempts : List Attempt) (before after : PreparedBatch) : Prop where
  successful : after.successful = before.successful ++
    (attempts.filter Attempt.succeeded).map fun a => a.claim.token
  failures : after.failures = before.failures ++ attempts.filterMap Attempt.failure
  failed : after.failures.map RequestFailure.token = before.failures.map RequestFailure.token ++
    (attempts.filter fun a => !a.succeeded).map fun a => a.claim.token
  moves : after.moves = before.moves ++ attempts.flatMap Attempt.moves

theorem Recorded.trans {attempts more : List Attempt} {first second third : PreparedBatch}
    (h : Recorded attempts first second) (h' : Recorded more second third) :
    Recorded (attempts ++ more) first third where
  successful := by
    rw [h'.successful, h.successful, List.filter_append, List.map_append, List.append_assoc]
  failures := by rw [h'.failures, h.failures, List.filterMap_append, List.append_assoc]
  failed := by
    rw [h'.failed, h.failed, List.filter_append, List.map_append, List.append_assoc]
  moves := by rw [h'.moves, h.moves, List.flatMap_append, List.append_assoc]

theorem Turn.recorded (h : Turn c state claim state') :
    Recorded [⟨claim, c.attempt state.worktree claim⟩] state.prepared state'.prepared := by
  cases h with
  | success hattempt =>
      constructor <;> simp [hattempt, List.filter_cons, Attempt.succeeded, Attempt.failure,
        Attempt.moves, Except.isOk, Except.toBool]
  | failure hattempt hcode =>
      constructor <;> simp [hattempt, hcode, Attempt.succeeded, Attempt.failure, Attempt.moves,
        Except.isOk, Except.toBool]

/-- The run lemma for the record of a batch. -/
theorem recorded_of_run (h : claims.foldlM c.applyClaim state = .ok state') :
    (c.attempts state claims).map Attempt.claim = claims ∧
      Recorded (c.attempts state claims) state.prepared state'.prepared := by
  induction claims generalizing state with
  | nil =>
      cases h
      exact ⟨rfl, by simp [attempts], by simp [attempts], by simp [attempts], by simp [attempts]⟩
  | cons claim rest ih =>
      obtain ⟨next, hnext, hrest⟩ := foldlM_cons_eq_ok.1 h
      obtain ⟨hclaims, hrecorded⟩ := ih hrest
      obtain ⟨-, hturn⟩ := applyClaim_eq_ok.1 hnext
      rw [attempts_cons hnext, List.map_cons, hclaims]
      exact ⟨rfl, hturn.recorded.trans hrecorded⟩

/-- The tokens of a batch, split into those of the successes and those of the failures. -/
theorem Recorded.partition {attempts : List Attempt} {base : ContentTree}
    {prepared : PreparedBatch} (h : Recorded attempts { tree := base } prepared) :
    prepared.successful.Sublist (attempts.map fun a => a.claim.token) ∧
      (prepared.failures.map RequestFailure.token).Sublist
        (attempts.map fun a => a.claim.token) ∧
      (prepared.successful ++ prepared.failures.map RequestFailure.token).Perm
        (attempts.map fun a => a.claim.token) := by
  have hsuccessful := h.successful
  have hfailed := h.failed
  simp only [List.map_nil, List.nil_append] at hsuccessful hfailed
  rw [hsuccessful, hfailed]
  refine ⟨List.filter_sublist.map _, List.filter_sublist.map _, ?_⟩
  rw [← List.map_append]
  exact (List.filter_append_perm Attempt.succeeded attempts).map _

/-! ### Worktrees and recorded trees -/

theorem attempt_eq_ok {tree tree' : ContentTree} {outcome : ApplyOutcome} :
    c.attempt tree claim = .ok (tree', outcome) ↔
      validateAcceptedPackage c.x c.packagePolicy claim.packageRoot = .ok claim.package ∧
        applyRequestWithPolicy c.x c.policy c.packagePolicy tree claim.packageRoot claim.package =
          .ok (tree', outcome) := by
  unfold attempt applyClaimed
  simp only [bind_eq_ok, exists_unit, mapError_eq_ok, rejectIf_eq_ok, not_not]
  constructor
  · rintro ⟨revalidated, hvalid, rfl, happly⟩
    exact ⟨hvalid, happly⟩
  · rintro ⟨hvalid, happly⟩
    exact ⟨_, hvalid, rfl, happly⟩

/-- A claim has the same outcome on trees that look the same and have room for it. -/
theorem attempt_congr {tree other tree' : ContentTree} (hsame : SameContent tree other)
    (hroom : other.entryCount + requestEntries claim ≤ c.policy.maximumEntryCount)
    {outcome : ApplyOutcome} (h : c.attempt tree claim = .ok (tree', outcome)) :
    ∃ other', c.attempt other claim = .ok (other', outcome) ∧ other'.prune = tree'.prune := by
  obtain ⟨hvalid, happly⟩ := attempt_eq_ok.1 h
  obtain ⟨other', happly', hfiles⟩ := hsame.applyRequest (reads_of_accepted hvalid) hroom happly
  refine ⟨other', attempt_eq_ok.2 ⟨hvalid, happly'⟩, ?_⟩
  rw [FileTree.prune, hfiles, FileTree.prune]

/-- The worktree is what was recorded last, up to directories without files; and
there is room for some more entries. -/
structure Sound (c : BatchContext) (state : BatchState) (room : Nat) : Prop where
  recorded : state.worktree.prune = state.prepared.tree
  settled : state.worktree.Settled Pinned
  room : state.worktree.entryCount + room ≤ c.policy.maximumEntryCount

variable {room : Nat}

theorem Sound.same (h : Sound c state room) :
    SameContent state.worktree state.prepared.tree :=
  h.recorded ▸ .of_settled h.settled

theorem Sound.tree_room (h : Sound c state room) :
    state.prepared.tree.entryCount + room ≤ c.policy.maximumEntryCount := by
  have hle := state.worktree.entryCount_prune_le
  rw [h.recorded] at hle
  have := h.room
  omega

theorem Sound.turn (h : Sound c state (requestEntries claim + room))
    (hturn : Turn c state claim state') : Sound c state' room := by
  cases hturn with
  | success hattempt =>
      obtain ⟨hvalid, happly⟩ := attempt_eq_ok.1 hattempt
      obtain ⟨index, index', planned, happlied, -⟩ :=
        PlanInput.applied_of_ok (reads_of_accepted hvalid) happly
      refine ⟨rfl, happlied.settled h.settled, ?_⟩
      have hcount := happlied.entryCount_le
      have hroom := h.room
      simp only [PlanInput.ofRequest, PlanInput.request] at hcount
      simp only [requestEntries] at hroom ⊢
      omega
  | failure hattempt hcode =>
      have hroom := h.tree_room
      have hprune : state.prepared.tree.prune = state.prepared.tree := by
        rw [← h.recorded, FileTree.prune_prune]
      refine ⟨hprune, ?_, by simp only; omega⟩
      rw [← hprune]
      exact FileTree.settled_prune Pinned _

theorem Sound.initial {base : ContentTree} (hbase : base.prune = base)
    (hroom : c.Roomy base claims) :
    Sound c (initial base) ((claims.map requestEntries).sum) :=
  ⟨hbase, hbase ▸ FileTree.settled_prune Pinned base, hroom⟩

/-- A claim that succeeded succeeds again on the same recorded tree. -/
theorem Sound.again {other : BatchState} {worktree : ContentTree} {outcome : ApplyOutcome}
    (h : Sound c state (requestEntries claim + room))
    (h' : Sound c other (requestEntries claim + room))
    (htree : other.prepared.tree = state.prepared.tree) (howned : c.owned claim)
    (hattempt : c.attempt state.worktree claim = .ok (worktree, outcome)) :
    ∃ next, c.applyClaim other claim = .ok next ∧ Sound c next room ∧
      next.prepared.tree = worktree.prune ∧
      next.prepared.successful = other.prepared.successful ++ [claim.token] ∧
      next.prepared.failures = other.prepared.failures := by
  have hsame : SameContent state.worktree other.worktree :=
    h.same.trans (htree ▸ h'.same.symm)
  have hroom := h'.room
  obtain ⟨worktree', hattempt', hprune⟩ := attempt_congr hsame (by omega) hattempt
  have hturn : Turn c other claim _ := .success hattempt'
  exact ⟨_, applyClaim_eq_ok.2 ⟨howned, hturn⟩, h'.turn hturn, hprune, rfl, rfl⟩

end BatchContext

/-! ### A batch at the entry limit -/

namespace Sample

def newDocument : DocumentId := ⟨⟨5, by decide⟩⟩

theorem newContent_valid : validateRelativePath "n.md" = .ok () := by rfl

def newContent : PayloadPath := ⟨"n.md", newContent_valid⟩

/-- A request of a batch, about decisions of the project. -/
def batchRequest (number : Fin 8) (operation : Operation) : ChangeRequest :=
  { request (some project) [operation] with requestId := ⟨⟨number, Ulid.bound_of_eight number⟩⟩ }

/-- Move the decision out of the inbox. -/
def takeOut : ChangeRequest :=
  batchRequest 1 (.moveDocument document revision (some project) .decision)

/-- A request that fails: there is no such document. -/
def missing : ChangeRequest :=
  batchRequest 2 (.moveDocument newDocument revision (some project) .decision)

def createNew : ChangeRequest := batchRequest 3 (.createDocument newDocument newContent)

def newMetadata : DocumentMetadata :=
  { metadata with documentId := newDocument, requestId := createNew.requestId }

def batchExternals : Externals :=
  .ofTables [([97, lineFeed], metadata), ([98, lineFeed], newMetadata)]
    [([1], takeOut), ([2], missing), ([3], createNew)]

def batchClaim (json : UInt8) (request : ChangeRequest) (payload : Option PayloadFile) :
    ClaimedPackage :=
  let digest := calculateDigest batchExternals [json] payload.toList
  let acceptance : AcceptanceMetadata := ⟨1, day 2, none, AcceptanceMetadata.first_valid⟩
  { token := ⟨request.requestId, ⟨⟨7, by decide⟩⟩, 1⟩
    package := ⟨request, digest, payload.toList.map (PayloadFile.metadata batchExternals),
      some acceptance⟩
    packageRoot := ⟨[json], payload.toList, digest, acceptance, by cases payload <;> simp⟩ }

def takeOutClaim : ClaimedPackage := batchClaim 1 takeOut none

/-- A batch with room for so many entries. -/
def batch (maximumEntryCount : Nat) : BatchContext where
  x := batchExternals
  policy := { maximumEntryCount }
  packagePolicy := packagePolicy
  owned := fun _ => true

end Sample

end AgentKnowledge
