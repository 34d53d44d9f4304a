import AgentKnowledge.Queue.BatchClaims

/-!
The observation of `pending/` before a batch (`crates/queue/src/file_queue/worker/pending.rs`).

`scan_pending` reads the acceptance files of the directory in bounded pieces and adds up what it
finds; requests that are accepted meanwhile are left out by their sequence. The directory is read
through a cursor, and the queue can change between any two looks at the disk, so the model takes the
disk at each look (`view`).

The pieces do not matter (`observePending_eq_ok`). What the finished observation says about the disk
it was opened on is `PendingSnapshot.Describes` (`Enumerates.describes`).
-/

namespace AgentKnowledge

open Results

/-! ### The model -/

/-- Aggregate pending state used to decide when a Worker batch closes. -/
structure PendingSnapshot where
  maximumSequence : Nat
  requests : Nat
  oldestAcceptedAt : Option OffsetDateTime
  newestAcceptedAt : Option OffsetDateTime
  hasInvalidAcceptance : Bool
deriving DecidableEq

/-- Bounded progress while observing one fixed pending acceptance snapshot. -/
inductive PendingScanOutcome where
  | scanning (scannedEntries observedRequests : Nat)
  | complete (snapshot : PendingSnapshot)
deriving DecidableEq

/-- An observation that is not finished. -/
structure PendingObservationScan extends PendingSnapshot where
  /-- What the cursor will still return. -/
  entries : List DirectoryEntry
  /-- The next look at the disk. -/
  access : Nat
deriving DecidableEq

namespace PendingSnapshot

/-- An entry without usable acceptance metadata. -/
def countInvalid (snapshot : PendingSnapshot) : PendingSnapshot :=
  { snapshot with requests := snapshot.requests + 1, hasInvalidAcceptance := true }

/-- A request within the boundary. -/
def count (acceptedAt : OffsetDateTime) (snapshot : PendingSnapshot) : PendingSnapshot :=
  { snapshot with
    requests := snapshot.requests + 1
    oldestAcceptedAt := some (snapshot.oldestAcceptedAt.elim acceptedAt fun oldest =>
      oldest.earlier acceptedAt)
    newestAcceptedAt := some (snapshot.newestAcceptedAt.elim acceptedAt fun newest =>
      newest.later acceptedAt) }

end PendingSnapshot

/-- The observation with other counts. -/
def PendingObservationScan.update (scan : PendingObservationScan)
    (f : PendingSnapshot → PendingSnapshot) : PendingObservationScan :=
  { scan with toPendingSnapshot := f scan.toPendingSnapshot }

/-- `read_acceptance_file` in the directory of a pending request. -/
def readPendingAcceptance (x : QueueExternals) (stored : Option StoredPackage) :
    PackageReading AcceptanceMetadata := do
  .call .acceptanceFile .io
  match stored.bind StoredPackage.acceptance with
  | none => .lift (.error .io)
  | some entry => do
      let file ← .lift (validateRegularFile entry "acceptance.json")
      readAcceptanceFile x file

/-- `inspect_pending`. -/
def inspectPending (q : QueueSetup) (view : Nat → QueueDisk) (scan : PendingObservationScan) :
    DirectoryEntry → WorkerReading PendingObservationScan
  | .foreign detail => do
      .call .pendingScan .io
      .lift (.error (.invalidPendingEntry detail))
  | .request id => do
      .call .pendingScan .io
      let next := { scan with access := scan.access + 2 }
      match ← (readPendingAcceptance q.x ((view scan.access).slot .pending id)).attempt
          WorkerQueueError.io with
      | none => pure (next.update .countInvalid)
      | some acceptance =>
          if scan.maximumSequence < acceptance.sequence then do
            let current ← currentMaximumSequence (view (scan.access + 1))
            pure (if current < acceptance.sequence then next.update .countInvalid else next)
          else pure (next.update (.count acceptance.acceptedAt))

/-- The loop over at most so many entries; whether the end of the directory was seen. -/
def observeEntries (q : QueueSetup) (view : Nat → QueueDisk) :
    Nat → PendingObservationScan → WorkerReading (Bool × PendingObservationScan)
  | 0, scan => pure (false, scan)
  | budget + 1, scan => do
      .call .pendingScan .io
      match scan.entries with
      | [] => pure (true, scan)
      | entry :: rest => do
          let scan ← inspectPending q view { scan with entries := rest } entry
          observeEntries q view budget scan

def scanPendingChecks (session : WorkerSession) (maximumScanEntries : Nat) : WorkerReading Unit := do
  checkIdentity
  .lift (rejectIf (maximumScanEntries = 0) .invalidBatchLimits)
  .lift (ensureRecoveryComplete session)
  match session.pendingScan with
  | some scan => .lift (.error (.batchScanInProgress scan.batchId))
  | none => .lift (rejectIf session.processingScan.isSome .processingScanInProgress)

/-- An observation that has just been opened; `listing` is what the cursor will return. -/
def PendingObservationScan.opened (listing : List DirectoryEntry) (disk : QueueDisk) :
    PendingObservationScan where
  maximumSequence := disk.nextSequence - 1
  requests := 0
  oldestAcceptedAt := none
  newestAcceptedAt := none
  hasInvalidAcceptance := false
  entries := listing
  access := 1

def openObservation (view : Nat → QueueDisk) (listing : List DirectoryEntry) :
    Option PendingObservationScan → WorkerReading PendingObservationScan
  | some scan => pure scan
  | none => do
      let _ ← currentMaximumSequence (view 0)
      .call .pendingScan .io
      pure (.opened listing (view 0))

/-- `scan_pending`. An observation that ends or fails leaves none behind. -/
def scanPendingOnce (q : QueueSetup) (view : Nat → QueueDisk) (session : WorkerSession)
    (listing : List DirectoryEntry) (maximumScanEntries : Nat)
    (observation : Option PendingObservationScan) :
    WorkerReading (PendingScanOutcome × Option PendingObservationScan) := do
  scanPendingChecks session maximumScanEntries
  let scan ← openObservation view listing observation
  let (complete, scan) ← observeEntries q view maximumScanEntries scan
  pure (if complete then (.complete scan.toPendingSnapshot, none)
    else (.scanning maximumScanEntries scan.requests, some scan))

/-- The call repeated with these limits while it returns `Scanning`. -/
def observePending (q : QueueSetup) (view : Nat → QueueDisk) (session : WorkerSession)
    (listing : List DirectoryEntry) :
    Nat → List Nat → Option PendingObservationScan → WorkerReading PendingScanOutcome
  | limit, [], observation => do
      let (outcome, _) ← scanPendingOnce q view session listing limit observation
      pure outcome
  | limit, next :: limits, observation => do
      let (outcome, observation) ← scanPendingOnce q view session listing limit observation
      match outcome with
      | .complete snapshot => pure (.complete snapshot)
      | .scanning .. => observePending q view session listing next limits observation

/-! ### What is made of an entry -/

/-- The acceptance metadata an observation finds in a directory. -/
def StoredPackage.readableAcceptance (x : QueueExternals) (stored : StoredPackage) :
    Option AcceptanceMetadata :=
  (readPendingAcceptance x (some stored)).result.toOption

/-- What an observation up to a boundary makes of a request directory. -/
inductive PendingVerdict where
  | counted (acceptedAt : OffsetDateTime)
  | invalid
  | late
deriving DecidableEq

/-- The verdict on a request, given the disk when its acceptance is read and the next sequence when
it is compared. -/
def pendingVerdict (q : QueueSetup) (b : Nat) (disk : QueueDisk) (next : Nat) (id : RequestId) :
    PendingVerdict :=
  match (disk.slot .pending id).bind (StoredPackage.readableAcceptance q.x) with
  | none => .invalid
  | some acceptance =>
      if acceptance.sequence ≤ b then .counted acceptance.acceptedAt
      else if next ≤ acceptance.sequence then .invalid
      else .late

def PendingSnapshot.note (snapshot : PendingSnapshot) : PendingVerdict → PendingSnapshot
  | .counted acceptedAt => snapshot.count acceptedAt
  | .invalid => snapshot.countInvalid
  | .late => snapshot

/-- The verdicts on some entries, from a look on; none on what follows an entry that is refused. -/
def pendingVerdicts (q : QueueSetup) (b : Nat) (view : Nat → QueueDisk) :
    Nat → List DirectoryEntry → List (RequestId × PendingVerdict)
  | access, .request id :: rest =>
      (id, pendingVerdict q b (view access) (view (access + 1)).nextSequence id) ::
        pendingVerdicts q b view (access + 2) rest
  | _, _ => []

/-- The observation after `n` more entries. -/
def PendingObservationScan.advance (q : QueueSetup) (view : Nat → QueueDisk) (n : Nat)
    (scan : PendingObservationScan) : PendingObservationScan where
  toPendingSnapshot := (pendingVerdicts q scan.maximumSequence view scan.access
    (scan.entries.take n)).foldl (fun snapshot verdict => snapshot.note verdict.2)
      scan.toPendingSnapshot
  entries := scan.entries.drop n
  access := scan.access + 2 * min n scan.entries.length

section Inspection

variable {q : QueueSetup} {view : Nat → QueueDisk} {scan scan' : PendingObservationScan}

theorem inspectPending_request (hpos : 0 < (view (scan.access + 1)).nextSequence) (id : RequestId) :
    (inspectPending q view scan (.request id)).result =
      .ok ({ scan with access := scan.access + 2 }.update fun snapshot => snapshot.note
        (pendingVerdict q scan.maximumSequence (view scan.access)
          (view (scan.access + 1)).nextSequence id)) := by
  have hread : (readPendingAcceptance q.x ((view scan.access).slot .pending id)).result.toOption =
      ((view scan.access).slot .pending id).bind (StoredPackage.readableAcceptance q.x) := by
    cases (view scan.access).slot .pending id with
    | none => simp [readPendingAcceptance, Except.toOption]
    | some stored => rfl
  rw [inspectPending, pendingVerdict]
  simp only [Reading.result_bind, Reading.result_call, Reading.result_attempt, ok_bind, hread]
  cases ((view scan.access).slot .pending id).bind (StoredPackage.readableAcceptance q.x) with
  | none => rfl
  | some acceptance =>
      simp only
      by_cases hbound : acceptance.sequence ≤ scan.maximumSequence
      · rw [if_neg (Nat.not_lt.2 hbound), if_pos hbound]
        rfl
      · rw [if_pos (Nat.lt_of_not_le hbound), if_neg hbound]
        simp only [Reading.result_bind, currentMaximumSequence_result, ok_bind, Reading.result_pure]
        by_cases hnext : (view (scan.access + 1)).nextSequence ≤ acceptance.sequence
        · rw [if_pos (by omega), if_pos hnext]
          rfl
        · rw [if_neg (by omega), if_neg hnext]
          rfl

theorem maximumSequence_note (snapshot : PendingSnapshot) (verdict : PendingVerdict) :
    (snapshot.note verdict).maximumSequence = snapshot.maximumSequence := by
  cases verdict <;> rfl

theorem maximumSequence_foldl_note (snapshot : PendingSnapshot)
    (verdicts : List (RequestId × PendingVerdict)) :
    (verdicts.foldl (fun snapshot verdict => snapshot.note verdict.2) snapshot).maximumSequence =
      snapshot.maximumSequence := by
  induction verdicts generalizing snapshot with
  | nil => rfl
  | cons verdict verdicts ih => rw [List.foldl_cons, ih, maximumSequence_note]

/-! Advancing by no entry, past the end, by one entry and by several. -/

theorem PendingObservationScan.advance_zero : scan.advance q view 0 = scan := by
  simp [advance, pendingVerdicts]

theorem PendingObservationScan.advance_nil (h : scan.entries = []) (n : Nat) :
    scan.advance q view n = scan := by
  obtain ⟨snapshot, entries, access⟩ := scan
  cases h
  simp [advance, pendingVerdicts]

theorem PendingObservationScan.advance_cons (n : Nat) (snapshot : PendingSnapshot) (id : RequestId)
    (rest : List DirectoryEntry) (access : Nat) :
    (mk snapshot (.request id :: rest) access).advance q view (n + 1) =
      (mk (snapshot.note (pendingVerdict q snapshot.maximumSequence (view access)
        (view (access + 1)).nextSequence id)) rest (access + 2)).advance q view n := by
  simp only [advance, List.take_succ_cons, pendingVerdicts, List.foldl_cons, List.drop_succ_cons,
    maximumSequence_note, List.length_cons, mk.injEq, true_and]
  omega

theorem PendingObservationScan.advance_add (m n : Nat)
    (hrequests : ∀ entry ∈ scan.entries, entry.requestId?.isSome) :
    (scan.advance q view m).advance q view n = scan.advance q view (m + n) := by
  induction m generalizing scan with
  | zero => rw [advance_zero, Nat.zero_add]
  | succ m ih =>
      obtain ⟨snapshot, entries, access⟩ := scan
      rcases entries with _ | ⟨_ | _, rest⟩
      · rw [advance_nil rfl, advance_nil rfl, advance_nil rfl]
      · rw [Nat.succ_add, advance_cons, advance_cons,
          ih fun entry h => hrequests entry (List.mem_cons_of_mem _ h)]
      · cases hrequests _ List.mem_cons_self

theorem PendingObservationScan.advance_of_length_le {n : Nat} (h : scan.entries.length ≤ n) :
    scan.advance q view n = scan.advance q view scan.entries.length := by
  simp only [advance, List.take_of_length_le h, List.drop_of_length_le h, Nat.min_eq_right h,
    List.take_length, List.drop_length, Nat.min_self]

/-- The entries the scan gets through, and what it makes of them. -/
theorem observeEntries_eq_ok (hpos : ∀ n, 0 < (view n).nextSequence) {budget : Nat}
    {complete : Bool} :
    (observeEntries q view budget scan).result = .ok (complete, scan') ↔
      (∀ entry ∈ scan.entries.take budget, entry.requestId?.isSome) ∧
        complete = decide (scan.entries.length < budget) ∧ scan' = scan.advance q view budget := by
  induction budget generalizing scan with
  | zero =>
      simp only [observeEntries, Reading.result_pure, Except.ok.injEq, Prod.mk.injEq,
        List.take_zero, List.not_mem_nil, false_imp_iff, implies_true, true_and, Nat.not_lt_zero,
        decide_false, PendingObservationScan.advance_zero, eq_comm (a := complete),
        eq_comm (a := scan')]
  | succ budget ih =>
      rw [observeEntries]
      obtain ⟨snapshot, entries, access⟩ := scan
      rcases entries with _ | ⟨id | detail, rest⟩
      · rw [PendingObservationScan.advance_nil rfl]
        simp only [Reading.result_bind, Reading.result_call, ok_bind, Reading.result_pure,
          Except.ok.injEq, Prod.mk.injEq, List.take_nil, List.not_mem_nil, false_imp_iff,
          implies_true, true_and, List.length_nil, Nat.zero_lt_succ, decide_true,
          eq_comm (a := complete), eq_comm (a := scan')]
      · rw [PendingObservationScan.advance_cons]
        simp only [Reading.result_bind, Reading.result_call, ok_bind,
          inspectPending_request (hpos _), ih, PendingObservationScan.update, List.take_succ_cons,
          List.forall_mem_cons, List.length_cons, Nat.add_lt_add_iff_right]
        exact ⟨fun h => ⟨⟨rfl, h.1⟩, h.2⟩, fun h => ⟨h.1.2, h.2⟩⟩
      · simp [inspectPending, DirectoryEntry.requestId?]

/-- A session in which `scan_pending` may be called. -/
def WorkerSession.Observes (session : WorkerSession) : Prop :=
  (scanPendingChecks session 1).result = .ok ()

theorem scanPendingChecks_eq_ok {session : WorkerSession} {limit : Nat} :
    (scanPendingChecks session limit).result = .ok () ↔ 0 < limit ∧ session.Observes := by
  unfold WorkerSession.Observes scanPendingChecks
  simp only [Reading.result_bind, Reading.result_lift, bind_eq_ok, rejectIf_eq_ok (u := ()),
    exists_unit, Nat.one_ne_zero, not_false_eq_true, true_and, Nat.pos_iff_ne_zero, ne_eq]
  tauto

theorem openObservation_result (listing : List DirectoryEntry) (observation : Option PendingObservationScan) :
    (openObservation view listing observation).result =
      .ok (observation.getD (.opened listing (view 0))) := by
  cases observation with
  | none =>
      simp only [openObservation, Reading.result_bind, currentMaximumSequence_result, ok_bind,
        Reading.result_call, Reading.result_pure, Option.getD_none]
  | some scan => rfl

/-- What one call returns and leaves behind. -/
theorem scanPendingOnce_eq_ok (hpos : ∀ n, 0 < (view n).nextSequence) {session : WorkerSession}
    {listing : List DirectoryEntry} {limit : Nat} {observation : Option PendingObservationScan}
    {outcome : PendingScanOutcome × Option PendingObservationScan}
    (hscan : observation.getD (.opened listing (view 0)) = scan) :
    (scanPendingOnce q view session listing limit observation).result = .ok outcome ↔
      0 < limit ∧ session.Observes ∧
        (∀ entry ∈ scan.entries.take limit, entry.requestId?.isSome) ∧
        outcome = if scan.entries.length < limit then
            (.complete (scan.advance q view limit).toPendingSnapshot, none)
          else (.scanning limit (scan.advance q view limit).requests,
            some (scan.advance q view limit)) := by
  unfold scanPendingOnce
  simp only [Reading.result_bind, bind_eq_ok, exists_unit, scanPendingChecks_eq_ok,
    openObservation_result, hscan, Except.ok.injEq, Prod.exists, observeEntries_eq_ok hpos,
    Reading.result_pure, exists_eq_left', and_assoc]
  constructor
  · rintro ⟨hlimit, hsession, complete, scan', hrequests, rfl, rfl, rfl⟩
    exact ⟨hlimit, hsession, hrequests, by simp only [decide_eq_true_eq]⟩
  · rintro ⟨hlimit, hsession, hrequests, rfl⟩
    exact ⟨hlimit, hsession, _, _, hrequests, rfl, rfl, by simp only [decide_eq_true_eq]⟩

/-- When repeated calls complete an observation, and with what: the sizes of the pieces do not
matter. -/
theorem observePending_eq_ok (hpos : ∀ n, 0 < (view n).nextSequence) {session : WorkerSession}
    {listing : List DirectoryEntry} {limit : Nat} {limits : List Nat}
    {observation : Option PendingObservationScan} {snapshot : PendingSnapshot}
    (hlimits : ∀ limit' ∈ limit :: limits, 0 < limit')
    (hscan : observation.getD (.opened listing (view 0)) = scan) :
    (observePending q view session listing limit limits observation).result =
        .ok (.complete snapshot) ↔
      session.Observes ∧ (∀ entry ∈ scan.entries, entry.requestId?.isSome) ∧
        scan.entries.length < (limit :: limits).sum ∧
        snapshot = (scan.advance q view scan.entries.length).toPendingSnapshot := by
  induction limits generalizing limit observation scan with
  | nil =>
      have hlimit : 0 < limit := hlimits _ List.mem_cons_self
      unfold observePending
      simp only [Reading.result_bind, bind_eq_ok, scanPendingOnce_eq_ok hpos hscan]
      by_cases hend : scan.entries.length < limit
      · simp [hend, hlimit, scan.advance_of_length_le hend.le, List.take_of_length_le hend.le,
          and_assoc, eq_comm (a := snapshot)]
      · simp [hend]
  | cons next limits ih =>
      have hlimit : 0 < limit := hlimits _ List.mem_cons_self
      unfold observePending
      simp only [Reading.result_bind, bind_eq_ok, scanPendingOnce_eq_ok hpos hscan]
      by_cases hend : scan.entries.length < limit
      · have hsum : scan.entries.length < limit + (next + limits.sum) := Nat.lt_add_right _ hend
        simp [hend, hlimit, scan.advance_of_length_le hend.le, List.take_of_length_le hend.le,
          and_assoc, eq_comm (a := snapshot), hsum]
      · -- The second call goes on where the first one stopped.
        have hsplit : (∀ entry ∈ scan.entries, entry.requestId?.isSome) ↔
            (∀ entry ∈ scan.entries.take limit, entry.requestId?.isSome) ∧
              ∀ entry ∈ (scan.advance q view limit).entries, entry.requestId?.isSome := by
          rw [← List.forall_mem_append]
          simp only [PendingObservationScan.advance, List.take_append_drop]
        have hlength : (scan.advance q view limit).entries.length = scan.entries.length - limit :=
          List.length_drop
        have hnext := ih (fun limit' h => hlimits limit' (List.mem_cons_of_mem _ h))
          (Option.getD_some (a := scan.advance q view limit) (b := .opened listing (view 0)))
        rw [hlength, List.sum_cons] at hnext
        rw [hsplit, List.sum_cons, List.sum_cons]
        constructor
        · rintro ⟨outcome, ⟨-, hsession, hhead, rfl⟩, hrest⟩
          rw [if_neg hend] at hrest
          obtain ⟨-, htail, hsum, rfl⟩ := hnext.1 hrest
          refine ⟨hsession, ⟨hhead, htail⟩, by omega, ?_⟩
          rw [scan.advance_add _ _ (hsplit.2 ⟨hhead, htail⟩)]
          congr 2
          omega
        · rintro ⟨hsession, ⟨hhead, htail⟩, hsum, rfl⟩
          refine ⟨_, ⟨hlimit, hsession, hhead, rfl⟩, ?_⟩
          rw [if_neg hend]
          refine hnext.2 ⟨hsession, htail, by omega, ?_⟩
          rw [scan.advance_add _ _ (hsplit.2 ⟨hhead, htail⟩)]
          congr 2
          omega

theorem observePending_opened_eq_ok (hpos : ∀ n, 0 < (view n).nextSequence)
    {session : WorkerSession} {listing : List DirectoryEntry} {limit : Nat} {limits : List Nat}
    {snapshot : PendingSnapshot} (hlimits : ∀ limit' ∈ limit :: limits, 0 < limit') :
    (observePending q view session listing limit limits none).result = .ok (.complete snapshot) ↔
      session.Observes ∧ (∀ entry ∈ listing, entry.requestId?.isSome) ∧
        listing.length < (limit :: limits).sum ∧ snapshot =
          ((PendingObservationScan.opened listing (view 0)).advance q view
            listing.length).toPendingSnapshot :=
  observePending_eq_ok hpos hlimits rfl

end Inspection

/-! ### What the verdicts add up to -/

def PendingVerdict.isCounted : PendingVerdict → Bool
  | .counted _ => true
  | _ => false

def PendingVerdict.isInvalid : PendingVerdict → Bool
  | .invalid => true
  | _ => false

/-- The snapshot adds up the verdicts. -/
structure PendingSnapshot.Sums (verdicts : List (RequestId × PendingVerdict))
    (snapshot : PendingSnapshot) : Prop where
  requests : snapshot.requests =
    verdicts.countP (·.2.isCounted) + verdicts.countP (·.2.isInvalid)
  invalid : snapshot.hasInvalidAcceptance = true ↔ ∃ id, (id, .invalid) ∈ verdicts
  oldest : Least.IsFirst (fun t t' : OffsetDateTime => t.instant ≤ t'.instant)
    { t | ∃ id, (id, .counted t) ∈ verdicts } snapshot.oldestAcceptedAt
  newest : Least.IsFirst (fun t t' : OffsetDateTime => t'.instant ≤ t.instant)
    { t | ∃ id, (id, .counted t) ∈ verdicts } snapshot.newestAcceptedAt

section Sums

variable {verdicts : List (RequestId × PendingVerdict)} {snapshot : PendingSnapshot}

instance : Std.Refl fun t t' : OffsetDateTime => t.instant ≤ t'.instant := ⟨fun _ => le_rfl⟩

instance : IsTrans OffsetDateTime fun t t' => t.instant ≤ t'.instant := ⟨fun _ _ _ => le_trans⟩

instance : Std.Refl fun t t' : OffsetDateTime => t'.instant ≤ t.instant := ⟨fun _ => le_rfl⟩

instance : IsTrans OffsetDateTime fun t t' => t'.instant ≤ t.instant :=
  ⟨fun _ _ _ h h' => le_trans h' h⟩

theorem PendingSnapshot.Sums.opened (listing : List DirectoryEntry) (s : QueueDisk) :
    Sums [] (PendingObservationScan.opened listing s).toPendingSnapshot where
  requests := rfl
  invalid := by simp [PendingObservationScan.opened]
  oldest := by simp [PendingObservationScan.opened, Least.IsFirst]
  newest := by simp [PendingObservationScan.opened, Least.IsFirst]

/-- One more entry. -/
theorem PendingSnapshot.Sums.note (h : Sums verdicts snapshot) (id : RequestId)
    (verdict : PendingVerdict) : Sums (verdicts ++ [(id, verdict)]) (snapshot.note verdict) := by
  cases verdict with
  | counted acceptedAt =>
      have hset : { t | ∃ other, (other, .counted t) ∈ verdicts ++ [(id, .counted acceptedAt)] } =
          insert acceptedAt { t | ∃ other, (other, .counted t) ∈ verdicts } := by
        ext t
        simp [exists_or, or_comm, PendingVerdict.counted.injEq]
      refine ⟨?_, ?_, ?_, ?_⟩
      · simp [PendingSnapshot.note, count, h.requests, PendingVerdict.isCounted,
          PendingVerdict.isInvalid, Nat.add_right_comm]
      · simpa [PendingSnapshot.note, count] using h.invalid
      · rw [hset]
        exact h.oldest.insert OffsetDateTime.earlier_cases acceptedAt
      · rw [hset]
        exact h.newest.insert OffsetDateTime.later_cases acceptedAt
  | invalid =>
      refine ⟨?_, ?_, ?_, ?_⟩
      · simp [PendingSnapshot.note, countInvalid, h.requests, PendingVerdict.isCounted,
          PendingVerdict.isInvalid, Nat.add_assoc]
      · simp [PendingSnapshot.note, countInvalid]
      · simpa [PendingSnapshot.note, countInvalid] using h.oldest
      · simpa [PendingSnapshot.note, countInvalid] using h.newest
  | late =>
      refine ⟨?_, ?_, ?_, ?_⟩
      · simp [PendingSnapshot.note, h.requests, PendingVerdict.isCounted, PendingVerdict.isInvalid]
      · simpa [PendingSnapshot.note] using h.invalid
      · simpa [PendingSnapshot.note] using h.oldest
      · simpa [PendingSnapshot.note] using h.newest

/-- Any number of entries. -/
theorem PendingSnapshot.Sums.foldl {seen : List (RequestId × PendingVerdict)}
    (h : Sums seen snapshot) (verdicts : List (RequestId × PendingVerdict)) :
    Sums (seen ++ verdicts)
      (verdicts.foldl (fun snapshot verdict => snapshot.note verdict.2) snapshot) := by
  induction verdicts generalizing seen snapshot with
  | nil => simpa using h
  | cons verdict verdicts ih =>
      have hnext := ih (h.note verdict.1 verdict.2)
      rwa [List.append_assoc] at hnext

end Sums

/-! ### What the finished observation says -/

/-- The disk at the looks of an observation, and what its cursor returns: requests come in between
any two looks, and the cursor returns each entry that was there when it was opened, once, and some
of the requests that came in before they were looked at. -/
structure Enumerates (q : QueueSetup) (view : Nat → QueueDisk) (listing : List DirectoryEntry) :
    Prop where
  positive : 0 < (view 0).nextSequence
  accepts : ∀ n, Accepts q (view n) (view (n + 1))
  once : (listing.filterMap DirectoryEntry.requestId?).Nodup
  all : ∀ id, (view 0).slot .pending id ≠ none → .request id ∈ listing
  origin : ∀ i id, listing[i]? = some (.request id) →
    (view 0).slot .pending id ≠ none ∨ ArrivedSince q (view 0) (view (2 * i + 1)) id
  foreign : ∀ detail, .foreign detail ∈ listing ↔ detail ∈ (view 0).foreign .pending

/-- A pending request within the boundary, and when it was accepted. -/
def WithinBoundary (q : QueueSetup) (b : Nat) (s : QueueDisk) (id : RequestId)
    (acceptedAt : OffsetDateTime) : Prop :=
  ∃ stored acceptance, s.slot .pending id = some stored ∧
    stored.readableAcceptance q.x = some acceptance ∧ acceptance.sequence ≤ b ∧
    acceptance.acceptedAt = acceptedAt

/-- A pending directory whose acceptance metadata cannot be read or has a sequence that has not been
given out, where `next` is the next sequence when the directory is looked at. -/
def Unusable (q : QueueSetup) (next : RequestId → Nat) (s : QueueDisk) (id : RequestId) : Prop :=
  ∃ stored, s.slot .pending id = some stored ∧
    ∀ acceptance, stored.readableAcceptance q.x = some acceptance → next id ≤ acceptance.sequence

/-- The snapshot is exact: it has the last sequence that was given out on the disk `s`, the number
of requests up to it and of unusable directories, whether there are any of the latter, and the first
and the last time of acceptance of the former. -/
structure PendingSnapshot.Describes (q : QueueSetup) (next : RequestId → Nat) (s : QueueDisk)
    (snapshot : PendingSnapshot) : Prop where
  boundary : snapshot.maximumSequence + 1 = s.nextSequence
  requests : snapshot.requests =
    { id | ∃ t, WithinBoundary q snapshot.maximumSequence s id t }.ncard +
      { id | Unusable q next s id }.ncard
  invalid : snapshot.hasInvalidAcceptance = true ↔ ∃ id, Unusable q next s id
  oldest : Least.IsFirst (fun t t' : OffsetDateTime => t.instant ≤ t'.instant)
    { t | ∃ id, WithinBoundary q snapshot.maximumSequence s id t } snapshot.oldestAcceptedAt
  newest : Least.IsFirst (fun t t' : OffsetDateTime => t'.instant ≤ t.instant)
    { t | ∃ id, WithinBoundary q snapshot.maximumSequence s id t } snapshot.newestAcceptedAt

/-- The next sequence when the sequence of a request is compared with it. -/
def comparedWith (view : Nat → QueueDisk) (listing : List DirectoryEntry) (id : RequestId) : Nat :=
  (view (2 * listing.idxOf (.request id) + 2)).nextSequence

section Exactness

variable {q : QueueSetup} {b : Nat} {view : Nat → QueueDisk} {listing : List DirectoryEntry}
  {id : RequestId}

theorem map_fst_pendingVerdicts (access : Nat)
    (hrequests : ∀ entry ∈ listing, entry.requestId?.isSome) :
    (pendingVerdicts q b view access listing).map Prod.fst =
      listing.filterMap DirectoryEntry.requestId? := by
  induction listing generalizing access with
  | nil => rfl
  | cons entry rest ih =>
      cases entry with
      | foreign detail => cases hrequests _ List.mem_cons_self
      | request id =>
          rw [pendingVerdicts, List.map_cons, ih _ fun entry h =>
            hrequests entry (List.mem_cons_of_mem _ h)]
          rfl

theorem mem_pendingVerdicts {access : Nat} {verdict : PendingVerdict}
    (hrequests : ∀ entry ∈ listing, entry.requestId?.isSome) :
    (id, verdict) ∈ pendingVerdicts q b view access listing ↔
      ∃ i, listing[i]? = some (.request id) ∧ verdict = pendingVerdict q b (view (access + 2 * i))
        (view (access + 2 * i + 1)).nextSequence id := by
  induction listing generalizing access with
  | nil => simp [pendingVerdicts]
  | cons entry rest ih =>
      cases entry with
      | foreign detail => cases hrequests _ List.mem_cons_self
      | request other =>
          rw [pendingVerdicts, List.mem_cons, ih fun entry h =>
            hrequests entry (List.mem_cons_of_mem _ h)]
          constructor
          · rintro (heq | ⟨i, hentry, rfl⟩)
            · cases heq
              exact ⟨0, rfl, rfl⟩
            · refine ⟨i + 1, hentry, ?_⟩
              rw [Nat.mul_succ, ← Nat.add_assoc, Nat.add_right_comm access]
          · rintro ⟨_ | i, hentry, rfl⟩
            · cases hentry
              exact .inl rfl
            · refine .inr ⟨i, hentry, ?_⟩
              rw [Nat.mul_succ, ← Nat.add_assoc, Nat.add_right_comm access]

theorem Enumerates.mono (h : Enumerates q view listing) :
    Monotone fun n => (view n).nextSequence :=
  monotone_nat_of_le_succ fun n => (h.accepts n).next

/-- What was there when the observation was opened stays as it was. -/
theorem Enumerates.kept (h : Enumerates q view listing) (hid : ¬ (view 0).Absent id) (n : Nat) :
    ∀ state, (view n).slot state id = (view 0).slot state id := by
  induction n with
  | zero => exact fun _ => rfl
  | succ n ih =>
      have hpresent : ¬ (view n).Absent id := fun habsent =>
        hid fun state => (ih state).symm.trans (habsent state)
      exact fun state => ((h.accepts n).kept id hpresent state).trans (ih state)

theorem Sequenced.readableAcceptance {stored : StoredPackage} {sequence : Nat}
    (h : Sequenced q id stored sequence) :
    ∃ acceptance, stored.readableAcceptance q.x = some acceptance ∧
      acceptance.sequence = sequence := by
  obtain ⟨validated, acceptance, hread, -, hacceptance, rfl⟩ := h
  obtain ⟨layout, contents, payload, found, hlayout, -, -, hlength, hdecode, rfl⟩ :=
    readAcceptedPackage_eq_ok.1 hread
  cases hacceptance
  obtain ⟨entry, hentry, hplain⟩ := hlayout.acceptance
  refine ⟨_, ?_, rfl⟩
  have hresult : (readPendingAcceptance q.x (some stored)).result = .ok acceptance := by
    simp only [readPendingAcceptance, Option.bind_some, hentry, Reading.result_bind,
      Reading.result_call, Reading.result_lift, ok_bind, validateRegularFile_eq_ok.2 hplain]
    exact readAcceptanceFile_eq_ok.2 ⟨hlength, hdecode⟩
  rw [StoredPackage.readableAcceptance, hresult]
  rfl

/-- The verdict on a directory. -/
theorem pendingVerdict_of_slot {s : QueueDisk} {next : Nat} {stored : StoredPackage}
    (hslot : s.slot .pending id = some stored) (hb : b < next) :
    (∀ t, pendingVerdict q b s next id = .counted t ↔ ∃ acceptance,
      stored.readableAcceptance q.x = some acceptance ∧ acceptance.sequence ≤ b ∧
        acceptance.acceptedAt = t) ∧
    (pendingVerdict q b s next id = .invalid ↔ ∀ acceptance,
      stored.readableAcceptance q.x = some acceptance → next ≤ acceptance.sequence) := by
  unfold pendingVerdict
  rw [hslot, Option.bind_some]
  cases stored.readableAcceptance q.x with
  | none => simp
  | some acceptance =>
      simp only [Option.some.injEq, exists_eq_left', forall_eq']
      by_cases hbound : acceptance.sequence ≤ b
      · have hgiven : ¬ next ≤ acceptance.sequence := by omega
        simp [hbound, hgiven]
      · by_cases hnext : next ≤ acceptance.sequence
        · simp [hbound, hnext]
        · simp [hbound, hnext]

/-- The verdict on an entry of the cursor. -/
theorem Enumerates.verdict (h : Enumerates q view listing) {i : Nat}
    (hentry : listing[i]? = some (.request id)) (hb : b + 1 = (view 0).nextSequence) :
    (∀ t, pendingVerdict q b (view (2 * i + 1)) (view (2 * i + 2)).nextSequence id = .counted t ↔
      WithinBoundary q b (view 0) id t) ∧
    (pendingVerdict q b (view (2 * i + 1)) (view (2 * i + 2)).nextSequence id = .invalid ↔
      Unusable q (fun _ => (view (2 * i + 2)).nextSequence) (view 0) id) := by
  have hfirst : (view 0).nextSequence ≤ (view (2 * i + 2)).nextSequence := h.mono (Nat.zero_le _)
  rcases h.origin i id hentry with hpending | harrived
  · obtain ⟨stored, hslot⟩ := Option.ne_none_iff_exists'.1 hpending
    have hpresent : ¬ (view 0).Absent id := fun habsent => hpending (habsent .pending)
    have hlooked : (view (2 * i + 1)).slot .pending id = some stored :=
      (h.kept hpresent _ .pending).trans hslot
    obtain ⟨hcounted, hinvalid⟩ := pendingVerdict_of_slot (q := q) hlooked
      (Nat.lt_of_succ_le (hb.trans_le hfirst))
    simp [hcounted, hinvalid, WithinBoundary, Unusable, hslot]
  · -- A request that has come in is past the boundary, and its sequence has been given out.
    obtain ⟨stored, sequence, hlocated, hsequenced, hlow, hhigh⟩ := harrived.pending
    obtain ⟨acceptance, hacceptance, rfl⟩ := hsequenced.readableAcceptance
    have hnext : (view (2 * i + 1)).nextSequence ≤ (view (2 * i + 2)).nextSequence :=
      (h.accepts _).next
    have hlate : pendingVerdict q b (view (2 * i + 1)) (view (2 * i + 2)).nextSequence id = .late := by
      unfold pendingVerdict
      rw [hlocated.here, Option.bind_some, hacceptance]
      simp only
      rw [if_neg (by omega), if_neg (by omega)]
    have habsent : (view 0).slot .pending id = none := harrived.absent .pending
    simp [hlate, WithinBoundary, Unusable, habsent]

/-- Entries with distinct keys are as many as the keys. -/
theorem countP_eq_ncard {α β : Type} {l : List (α × β)} (h : (l.map Prod.fst).Nodup)
    (p : β → Bool) : l.countP (fun entry => p entry.2) = { a | ∃ b, (a, b) ∈ l ∧ p b }.ncard := by
  classical
  have hkeys : { a | ∃ b, (a, b) ∈ l ∧ p b } =
      (((l.filter fun entry => p entry.2).map Prod.fst).toFinset : Set α) := by
    ext a
    simp
  have hnodup : ((l.filter fun entry => p entry.2).map Prod.fst).Nodup :=
    h.sublist (List.filter_sublist.map _)
  rw [hkeys, Set.ncard_coe_finset, List.toFinset_card_of_nodup hnodup, List.length_map,
    List.countP_eq_length_filter]

theorem exists_isCounted {verdicts : List (RequestId × PendingVerdict)} :
    (∃ verdict, (id, verdict) ∈ verdicts ∧ verdict.isCounted) ↔ ∃ t, (id, .counted t) ∈ verdicts := by
  constructor
  · rintro ⟨_ | _ | _, hmem, hverdict⟩
    · exact ⟨_, hmem⟩
    · cases hverdict
    · cases hverdict
  · rintro ⟨t, hmem⟩
    exact ⟨_, hmem, rfl⟩

theorem exists_isInvalid {verdicts : List (RequestId × PendingVerdict)} :
    (∃ verdict, (id, verdict) ∈ verdicts ∧ verdict.isInvalid) ↔ (id, .invalid) ∈ verdicts := by
  constructor
  · rintro ⟨_ | _ | _, hmem, hverdict⟩
    · cases hverdict
    · exact hmem
    · cases hverdict
  · exact fun hmem => ⟨_, hmem, rfl⟩

theorem Enumerates.nodup (h : Enumerates q view listing)
    (hrequests : ∀ entry ∈ listing, entry.requestId?.isSome) : listing.Nodup := by
  refine (List.pairwise_filterMap.1 h.once).imp_of_mem ?_
  rintro entry other hentry - hdistinct rfl
  obtain ⟨id, hid⟩ := Option.isSome_iff_exists.1 (hrequests entry hentry)
  exact hdistinct id hid id hid rfl

/-- What an observation makes of the requests its cursor returns. -/
theorem Enumerates.mem_verdicts (h : Enumerates q view listing)
    (hrequests : ∀ entry ∈ listing, entry.requestId?.isSome) (hb : b + 1 = (view 0).nextSequence) :
    (∀ t, (id, .counted t) ∈ pendingVerdicts q b view 1 listing ↔
      WithinBoundary q b (view 0) id t) ∧
    ((id, .invalid) ∈ pendingVerdicts q b view 1 listing ↔
      Unusable q (comparedWith view listing) (view 0) id) := by
  have hmem : ∀ verdict, (id, verdict) ∈ pendingVerdicts q b view 1 listing ↔ ∃ i,
      listing[i]? = some (.request id) ∧ verdict =
        pendingVerdict q b (view (2 * i + 1)) (view (2 * i + 2)).nextSequence id := by
    intro verdict
    simp only [mem_pendingVerdicts hrequests, Nat.add_comm 1]
  have hlisted : ∀ stored, (view 0).slot .pending id = some stored →
      ∃ i : Nat, listing[i]? = some (.request id) := by
    intro stored hslot
    exact List.mem_iff_getElem?.1 (h.all id (by rw [hslot]; simp))
  have hnext : ∀ i : Nat, listing[i]? = some (.request id) →
      comparedWith view listing id = (view (2 * i + 2)).nextSequence := by
    intro i hentry
    obtain ⟨hi, hget⟩ := List.getElem?_eq_some_iff.1 hentry
    rw [comparedWith, ← hget, (h.nodup hrequests).idxOf_getElem i hi]
  constructor
  · intro t
    rw [hmem]
    constructor
    · rintro ⟨i, hentry, hverdict⟩
      exact ((h.verdict hentry hb).1 t).1 hverdict.symm
    · rintro ⟨stored, acceptance, hslot, hwithin⟩
      obtain ⟨i, hentry⟩ := hlisted stored hslot
      exact ⟨i, hentry, (((h.verdict hentry hb).1 t).2 ⟨stored, acceptance, hslot, hwithin⟩).symm⟩
  · rw [hmem]
    constructor
    · rintro ⟨i, hentry, hverdict⟩
      obtain ⟨stored, hslot, hunusable⟩ := (h.verdict hentry hb).2.1 hverdict.symm
      exact ⟨stored, hslot, hnext i hentry ▸ hunusable⟩
    · rintro ⟨stored, hslot, hunusable⟩
      obtain ⟨i, hentry⟩ := hlisted stored hslot
      exact ⟨i, hentry, ((h.verdict hentry hb).2.2 ⟨stored, hslot, hnext i hentry ▸ hunusable⟩).symm⟩

/-- A finished observation is exact. -/
theorem Enumerates.describes (h : Enumerates q view listing)
    (hrequests : ∀ entry ∈ listing, entry.requestId?.isSome) :
    ((PendingObservationScan.opened listing (view 0)).advance q view
      listing.length).toPendingSnapshot.Describes q (comparedWith view listing) (view 0) := by
  have hb : (view 0).nextSequence - 1 + 1 = (view 0).nextSequence :=
    Nat.sub_add_cancel h.positive
  set b := (view 0).nextSequence - 1
  set verdicts := pendingVerdicts q b view 1 listing with hverdicts
  have hsnapshot : ((PendingObservationScan.opened listing (view 0)).advance q view
      listing.length).toPendingSnapshot = verdicts.foldl
        (fun snapshot verdict => snapshot.note verdict.2)
        (PendingObservationScan.opened listing (view 0)).toPendingSnapshot := by
    simp only [PendingObservationScan.advance, PendingObservationScan.opened, List.take_length]
    rfl
  have hsums := (PendingSnapshot.Sums.opened listing (view 0)).foldl verdicts
  rw [← hsnapshot, List.nil_append] at hsums
  have hmaximum : ((PendingObservationScan.opened listing (view 0)).advance q view
      listing.length).maximumSequence = b := by
    rw [hsnapshot, maximumSequence_foldl_note]
    rfl
  have hcounted : ∀ id t, (id, .counted t) ∈ verdicts ↔ WithinBoundary q b (view 0) id t :=
    fun id => (h.mem_verdicts hrequests hb).1
  have hinvalid : ∀ id, (id, .invalid) ∈ verdicts ↔
      Unusable q (comparedWith view listing) (view 0) id :=
    fun id => (h.mem_verdicts hrequests hb).2
  have hnodup : (verdicts.map Prod.fst).Nodup := by
    rw [hverdicts, map_fst_pendingVerdicts 1 hrequests]
    exact h.once
  refine ⟨?_, ?_, ?_, ?_, ?_⟩
  · rw [hmaximum, hb]
  · rw [hmaximum, hsums.requests, countP_eq_ncard hnodup, countP_eq_ncard hnodup]
    simp only [exists_isCounted, exists_isInvalid, hcounted, hinvalid]
  · simpa only [hinvalid] using hsums.invalid
  · rw [hmaximum]
    simpa only [hcounted] using hsums.oldest
  · rw [hmaximum]
    simpa only [hcounted] using hsums.newest

end Exactness

end AgentKnowledge
