import AgentKnowledge.Queue.Scan
import Mathlib

/-!
Which requests a batch scan claims.

`ScanInvariant` is the invariant of a scan that meets no I/O fault: the candidates it holds
are the least of the eligible requests it has seen, the damaged ones it has seen are in
`failed/`, and everything else is as it was when the scan was opened, apart from
requests that have come in. `claimUntilDone_spec` follows it through all calls of a
scan: the scan ends, with an error only if some entry blocks it (`Unblocked`).
-/

namespace AgentKnowledge

open Results Durable

/-! ### What is to be selected -/

def DirectoryEntry.requestId? : DirectoryEntry → Option RequestId
  | .request id => some id
  | .foreign _ => none

/-- What a cursor over `pending/` returns: every entry, every request once. -/
structure Lists (s : QueueDisk) (listing : List DirectoryEntry) : Prop where
  requests : ∀ id, .request id ∈ listing ↔ s.slot .pending id ≠ none
  once : (listing.filterMap DirectoryEntry.requestId?).Nodup
  foreign : ∀ detail, .foreign detail ∈ listing ↔ detail ∈ s.foreign .pending

section Candidates

variable {q : QueueSetup} {b : Nat} {s : QueueDisk} {listing : List DirectoryEntry}

/-- The candidate a scan up to `b` makes of an entry. -/
def candidateOf (q : QueueSetup) (b : Nat) (s : QueueDisk) : DirectoryEntry → Option PendingCandidate
  | .foreign _ => none
  | .request id =>
      match (inspectPackage q id s).result, (inspectAttempt q id s).result with
      | .ok sequence, .ok () => if sequence ≤ b then some ⟨sequence, id⟩ else none
      | _, _ => none

/-- A request of `pending/` that a scan up to `b` may claim. -/
def EligibleIn (q : QueueSetup) (b : Nat) (s : QueueDisk) (candidate : PendingCandidate) : Prop :=
  ∃ stored, s.slot .pending candidate.requestId = some stored ∧
    Eligible q b candidate.requestId stored candidate.sequence

theorem candidateOf_eq_some {entry : DirectoryEntry} {candidate : PendingCandidate} :
    candidateOf q b s entry = some candidate ↔
      entry = .request candidate.requestId ∧ EligibleIn q b s candidate := by
  cases entry with
  | foreign detail => simp [candidateOf]
  | request id =>
      rcases hslot : s.slot .pending id with _ | stored
      · have herror : (inspectPackage q id s).result = .error .io := by
          simp [inspectPackage, hslot]
        simp only [candidateOf, herror, reduceCtorEq, DirectoryEntry.request.injEq, false_iff]
        rintro ⟨rfl, stored, hstored, -⟩
        rw [hslot] at hstored
        cases hstored
      · constructor
        · intro h
          simp only [candidateOf] at h
          split at h
          · rename_i sequence hpackage hattempt
            split at h
            · rename_i hbound
              cases h
              exact ⟨rfl, stored, hslot, hbound, (inspectPackage_eq_ok hslot).1 hpackage,
                (inspectAttempt_eq_ok hslot).1 hattempt⟩
            · cases h
          · cases h
        · rintro ⟨hid, other, hother, heligible⟩
          cases hid
          cases hslot.symm.trans hother
          simp [candidateOf, (inspectPackage_eq_ok hslot).2 heligible.sequenced,
            (inspectAttempt_eq_ok hslot).2 heligible.permits, heligible.bound]

/-- The entries a scan up to `b` cannot get past are absent: foreign entries, requests
that have used up their attempts, damaged directories that cannot be moved to
`failed/`, and requests that are in another state as well. -/
structure Unblocked (q : QueueSetup) (b : Nat) (s : QueueDisk) : Prop where
  foreign : s.foreign .pending = []
  attempts : ∀ id stored, s.slot .pending id = some stored → ¬ Exhausted q b id stored
  results : ∀ id stored, s.slot .pending id = some stored → Damaged q b id stored →
    stored.result ≠ some .other
  damaged : ∀ id stored, s.slot .pending id = some stored → Damaged q b id stored →
    s.Located id .pending stored
  unallocated : ∀ id stored sequence, s.slot .pending id = some stored →
    Sequenced q id stored sequence → s.nextSequence ≤ sequence → s.Located id .pending stored
  eligible : ∀ candidate, EligibleIn q b s candidate →
    ∃ stored, s.Located candidate.requestId .pending stored

/-- A pending request that a scan up to `b` moves to `failed/`, or may move there: one
whose sequence has not been given out is moved unless the sequence is reached first. -/
def Rejected (q : QueueSetup) (b : Nat) (s : QueueDisk) (id : RequestId) : Prop :=
  ∃ stored, s.slot .pending id = some stored ∧
    (Damaged q b id stored ∨
      ∃ sequence, Sequenced q id stored sequence ∧ s.nextSequence ≤ sequence)

theorem EligibleIn.not_rejected {candidate : PendingCandidate} (hb : b < s.nextSequence)
    (h : EligibleIn q b s candidate) : ¬ Rejected q b s candidate.requestId := by
  obtain ⟨stored, hslot, heligible⟩ := h
  rintro ⟨other, hother, hdamaged | ⟨sequence, hsequenced, hnext⟩⟩
  · cases hslot.symm.trans hother
    exact heligible.not_damaged hdamaged
  · cases hslot.symm.trans hother
    have hbound := heligible.bound
    rw [heligible.sequenced.unique hsequenced] at hbound
    omega

end Candidates

/-! ### The invariant of a scan -/

/-- A scan: the call that is repeated, its boundary, and the disk it was opened on. If
`grew`, requests may have come in since; if `moving`, they still may. -/
structure ScanPlan where
  q : QueueSetup
  call : ClaimBatchCall
  boundary : Nat
  start : QueueDisk
  grew : Prop
  moving : Prop
  entries : 0 < call.maximumScanEntries
  requests : 0 < call.maximumRequests
  bound : boundary < start.nextSequence
  requested : call.requestedMaximumSequence = some boundary ∨
    call.requestedMaximumSequence = none ∧ boundary + 1 = start.nextSequence

/-- A scan that has seen `seen`, has still to see `rest`, and has moved `moved` to
`failed/`. Unless requests come in, the cursor returns at most `room` more entries. -/
structure ScanInvariant (p : ScanPlan) (seen rest : List DirectoryEntry) (moved : List RequestId)
    (room : Nat) (s : QueueDisk) (scan : PendingBatchScan) : Prop where
  batchId : scan.batchId = p.call.batchId
  maximumRequests : scan.maximumRequests = p.call.maximumRequests
  maximumSequence : scan.maximumSequence = p.boundary
  cursor : ∃ late, scan.entries.Perm (rest ++ late) ∧
    ∀ entry ∈ late, ∃ id, entry = .request id ∧ ArrivedSince p.q p.start s id
  room : p.moving ∨ scan.entries.length ≤ room
  candidates : scan.candidates = Least.least PendingCandidate.Before p.call.maximumRequests
    (seen.filterMap (candidateOf p.q p.boundary p.start))
  failures : scan.failedRequests = moved.length
  evolved : Evolved p.q p.call.batchId p.start moved [] s
  steady : p.grew ∨ s.nextSequence = p.start.nextSequence
  nodup : moved.Nodup
  rejected : ∀ id ∈ moved, .request id ∈ seen ∧ Rejected p.q p.boundary p.start id
  condemned : ∀ id stored, .request id ∈ seen → p.start.slot .pending id = some stored →
    (Damaged p.q p.boundary id stored ∨
      ∃ sequence, Sequenced p.q id stored sequence ∧ s.nextSequence ≤ sequence) → id ∈ moved
  passed : ∀ entry ∈ seen, ∃ id, entry = .request id ∧
    ∀ stored, p.start.slot .pending id = some stored → ¬ Exhausted p.q p.boundary id stored ∧
      (Damaged p.q p.boundary id stored → stored.result ≠ some .other)

/-- A session that can go on scanning. -/
def WorkerSession.Ready (session : WorkerSession) : Prop :=
  session.processingRecoveryComplete = true ∧ session.processingScan = none

/-- A world with such a scan. -/
def Scans (p : ScanPlan) (seen rest : List DirectoryEntry) (moved : List RequestId) (room : Nat)
    (w : QueueWorld) : Prop :=
  w.session.Ready ∧ ∃ scan, w.scan = some scan ∧ ScanInvariant p seen rest moved room w.disk scan

/-- The moves of others are acceptances. -/
def ScanPlan.Admits (p : ScanPlan) (A : QueueMove → Prop) : Prop :=
  ∀ move, A move → (p.grew ∧ p.moving) ∧
    ∀ w : QueueWorld, 0 < w.disk.nextSequence → Arrivals p.q w (move w)

section Invariant

variable {p : ScanPlan} {seen rest : List DirectoryEntry} {moved : List RequestId} {room : Nat}
  {w w' : QueueWorld}

theorem Evolved.absent_start {q : QueueSetup} {batchId : BatchId} {s₀ s : QueueDisk}
    {claims : List QueueClaim} {id : RequestId} (h : Evolved q batchId s₀ moved claims s)
    (hid : s.Absent id) : s₀.Absent id := by
  by_contra hpresent
  exact h.not_absent hpresent hid

theorem Scans.arrivals (h : Scans p seen rest moved room w)
    (hgrew : p.grew ∧ p.moving) (harrivals : Arrivals p.q w w') : Scans p seen rest moved room w' := by
  obtain ⟨hready, scan, hscan, hstate⟩ := h
  obtain ⟨entries, late', hperm', hlate', hw'⟩ := harrivals.cursor scan hscan
  obtain ⟨late, hperm, hlate⟩ := hstate.cursor
  have hsession : w'.session = { w.session with pendingScan := some { scan with entries } } := by
    rw [hw']
    rfl
  refine ⟨by rw [hsession]; exact hready, { scan with entries }, by rw [QueueWorld.scan, hsession], ?_⟩
  have harrive : ∀ id, ArrivedSince p.q p.start w.disk id → ArrivedSince p.q p.start w'.disk id := by
    intro id harrived
    obtain ⟨stored, sequence, hlocated, -⟩ := harrived.pending
    exact harrived.later harrivals.next (harrivals.kept id hlocated.not_absent)
  have hcursor : ∃ late, entries.Perm (rest ++ late) ∧
      ∀ entry ∈ late, ∃ id, entry = .request id ∧ ArrivedSince p.q p.start w'.disk id := by
    refine ⟨late ++ late', ?_, fun entry hentry => ?_⟩
    · rw [← List.append_assoc]
      exact hperm'.trans (hperm.append_right late')
    · rcases List.mem_append.1 hentry with hentry | hentry
      · obtain ⟨id, rfl, harrived⟩ := hlate entry hentry
        exact ⟨id, rfl, harrive id harrived⟩
      · obtain ⟨id, rfl, harrived⟩ := hlate' entry hentry
        obtain ⟨stored, sequence, hlocated, hsequenced, hlow, hhigh⟩ := harrived.pending
        exact ⟨id, rfl, hstate.evolved.absent_start harrived.absent, stored, sequence, hlocated,
          hsequenced, hstate.evolved.next.trans hlow, hhigh⟩
  exact { hstate with
    cursor := hcursor
    room := .inl hgrew.2
    evolved := hstate.evolved.arrivals harrivals
    steady := .inl hgrew.1
    condemned := fun id stored hseen hslot hbad =>
      hstate.condemned id stored hseen hslot <| hbad.imp_right fun ⟨sequence, hsequenced, hnext⟩ =>
        ⟨sequence, hsequenced, harrivals.next.trans hnext⟩ }

end Invariant

/-! ### One entry -/

/-- A session program that meets no I/O fault. -/
abbrev quietly {α : Type} (A : QueueMove → Prop) (p : SessionProgram α) (Q : α → QueueWorld → Prop)
    (E : WorkerQueueError → QueueWorld → Prop) (w : QueueWorld) : Prop :=
  wp (fun _ => False) A (fun _ _ => True) p Q E w

section Rules

variable {α : Type} {A : QueueMove → Prop} {w : QueueWorld}
  {Q : α → QueueWorld → Prop} {E : WorkerQueueError → QueueWorld → Prop}

theorem quietly_read {r : QueueWorld → WorkerReading α} (hok : ∀ a, (r w).result = .ok a → Q a w)
    (herror : ∀ e, (r w).result = .error e → E e w) : quietly A (.read r) Q E w :=
  wp_read hok herror fun _ _ h => h.elim

theorem quietly_look {f : QueueWorld → α} (h : Q (f w) w) :
    quietly A (.read fun w => pure (f w)) Q E w :=
  quietly_read (by rintro a ⟨⟩; exact h) (by rintro e ⟨⟩)

theorem quietly_others {p : ScanPlan} {P : QueueWorld → Prop} (hA : p.Admits A)
    (hpos : 0 < w.disk.nextSequence) (h : P w)
    (hmove : p.grew ∧ p.moving → ∀ w', Arrivals p.q w w' → P w') :
    quietly A others (fun _ => P) E w :=
  wp_yield h fun move hallowed =>
    ⟨trivial, hmove (hA move hallowed).1 _ ((hA move hallowed).2 w hpos)⟩

theorem quietly_onDisk {p : WorkerProgram α} (hp : Straight p)
    (hok : ∀ a, (p.calmly w.disk).2 = .ok a → Q a (w.withDisk ((p.calmly w.disk).1.getLastD w.disk)))
    (herror : ∀ e, (p.calmly w.disk).2 = .error e →
      E e (w.withDisk ((p.calmly w.disk).1.getLastD w.disk))) :
    quietly A (onDisk p) Q E w :=
  wp_zoom (R := fun _ _ => True) rfl (fun _ _ _ => trivial)
    (hp.wp (List.pairwise_of_forall fun _ _ => trivial).isChain hok herror
      fun ⟨_, hsite⟩ => hsite.elim)

end Rules

section Entry

variable {p : ScanPlan} {seen rest : List DirectoryEntry} {moved : List RequestId} {room : Nat}
  {w w' : QueueWorld}
  {A : QueueMove → Prop} {id : RequestId} {stored : StoredPackage}

theorem Scans.pos (h : Scans p seen rest moved room w) :
    0 < w.disk.nextSequence := by
  obtain ⟨-, scan, -, hstate⟩ := h
  have hnext := hstate.evolved.next
  have hbound := p.bound
  omega

/-- What an inspection says about a request that was there when the scan was opened. -/
def Inspected (p : ScanPlan) (id : RequestId) (s : QueueDisk) :
    Except WorkerQueueError (Option PendingCandidate) → Prop
  | .ok found => found = candidateOf p.q p.boundary p.start (.request id) ∧
      ∀ stored, p.start.slot .pending id = some stored →
        ¬ Damaged p.q p.boundary id stored ∧ ¬ Exhausted p.q p.boundary id stored ∧
          ∀ sequence, Sequenced p.q id stored sequence → sequence < s.nextSequence
  | .error e => ∃ stored, p.start.slot .pending id = some stored ∧
      if e.condemns then
        Damaged p.q p.boundary id stored ∨
          ∃ sequence, Sequenced p.q id stored sequence ∧ s.nextSequence ≤ sequence
      else Exhausted p.q p.boundary id stored

/-- A request the cursor may return: one that was there, or one that has come in. -/
inductive Listed (p : ScanPlan) (moved : List RequestId) (s : QueueDisk)
    (id : RequestId) : Prop where
  | start {stored : StoredPackage} (slot : p.start.slot .pending id = some stored) (fresh : id ∉ moved)
  | late (arrived : ArrivedSince p.q p.start s id)

theorem Evolved.slot {batchId : BatchId} {s : QueueDisk}
    (h : Evolved p.q batchId p.start moved [] s) (hslot : p.start.slot .pending id = some stored)
    (hid : id ∉ moved) : ∀ state, s.slot state id = p.start.slot state id := by
  refine h.kept id (fun habsent => ?_) hid (by simp)
  rw [habsent .pending] at hslot
  cases hslot

/-- The inspection of a request past the boundary. -/
theorem inspectLate_wp {sequence : Nat} (hlate : p.boundary < sequence)
    (h : Scans p seen rest moved room w) (hlisted : Listed p moved w.disk id)
    (hslot : w.disk.slot .pending id = some stored) (hsequenced : Sequenced p.q id stored sequence) :
    quietly A (do
        .read fun w => inspectLate id sequence w.disk
        pure none)
      (fun found w' => Scans p seen rest moved room w' ∧
        Inspected p id w'.disk (.ok found))
      (fun e w' => Scans p seen rest moved room w' ∧
        Inspected p id w'.disk (.error e)) w := by
  have hpos := h.pos
  have hstored : ∀ other, p.start.slot .pending id = some other → other = stored := by
    intro other hother
    cases hlisted with
    | start hstart hfresh =>
        obtain ⟨-, scan, -, hstate⟩ := h
        rw [hstate.evolved.slot hstart hfresh, hother] at hslot
        exact Option.some.inj hslot
    | late harrived =>
        rw [harrived.absent] at hother
        cases hother
  refine wp_bind (quietly_read (fun _ hok => ?_) fun e herror => ?_)
  · rw [inspectLate_result] at hok
    split at hok
    · cases hok
    rename_i hnext
    refine wp_pure ⟨h, ?_, fun other hother => ?_⟩
    · symm
      rw [Option.eq_none_iff_forall_ne_some]
      rintro candidate hcandidate
      obtain ⟨hid, other, hother, heligible⟩ := candidateOf_eq_some.1 hcandidate
      cases hid
      rw [hstored other hother] at heligible
      have := heligible.bound
      rw [heligible.sequenced.unique hsequenced] at this
      omega
    · rw [hstored other hother]
      refine ⟨?_, ?_, fun sequence' hsequenced' => ?_⟩
      · rintro (hnone | ⟨sequence', hbound, hsequenced', -⟩)
        · exact hnone _ hsequenced
        · rw [hsequenced'.unique hsequenced] at hbound
          omega
      · rintro ⟨sequence', hbound, hsequenced', -⟩
        rw [hsequenced'.unique hsequenced] at hbound
        omega
      · rw [hsequenced'.unique hsequenced]
        omega
  · rw [inspectLate_result] at herror
    split at herror
    · rename_i hnext
      cases herror
      cases hlisted with
      | start hstart hfresh =>
          refine ⟨h, stored, ?_, .inr ⟨sequence, hsequenced, by omega⟩⟩
          rw [hstart, hstored _ hstart]
      | late harrived =>
          obtain ⟨other, sequence', hlocated, hsequenced', -, hhigh⟩ := harrived.pending
          cases hlocated.here.symm.trans hslot
          rw [hsequenced'.unique hsequenced] at hhigh
          omega
    · cases herror

theorem Listed.arrivals (h : Listed p moved w.disk id) (harrivals : Arrivals p.q w w') :
    Listed p moved w'.disk id := by
  cases h with
  | start hslot hfresh => exact .start hslot hfresh
  | late harrived =>
      obtain ⟨stored, sequence, hlocated, -⟩ := harrived.pending
      exact .late (harrived.later harrivals.next (harrivals.kept id hlocated.not_absent))

theorem Listed.exists_slot (h : Listed p moved w.disk id)
    (hscans : Scans p seen rest moved room w) :
    ∃ stored, w.disk.slot .pending id = some stored := by
  cases h with
  | start hslot hfresh =>
      obtain ⟨-, scan, -, hstate⟩ := hscans
      exact ⟨_, (hstate.evolved.slot hslot hfresh .pending).trans hslot⟩
  | late harrived =>
      obtain ⟨stored, sequence, hlocated, -⟩ := harrived.pending
      exact ⟨stored, hlocated.here⟩

/-- A valid directory within the boundary was there when the scan was opened. -/
theorem Listed.start_of_bound {sequence : Nat} (h : Listed p moved w.disk id)
    (hscans : Scans p seen rest moved room w)
    (hslot : w.disk.slot .pending id = some stored) (hsequenced : Sequenced p.q id stored sequence)
    (hbound : sequence ≤ p.boundary) : p.start.slot .pending id = some stored := by
  cases h with
  | start hstart hfresh =>
      obtain ⟨-, scan, -, hstate⟩ := hscans
      exact (hstate.evolved.slot hstart hfresh .pending).symm.trans hslot
  | late harrived =>
      obtain ⟨other, sequence', hlocated, hsequenced', hlow, -⟩ := harrived.pending
      cases hlocated.here.symm.trans hslot
      rw [hsequenced'.unique hsequenced] at hlow
      exact absurd p.bound (by omega)

theorem inspectPendingCandidate_wp (hA : p.Admits A)
    (h : Scans p seen rest moved room w) (hlisted : Listed p moved w.disk id) :
    quietly A (inspectPendingCandidate p.q p.boundary id)
      (fun found w' => Scans p seen rest moved room w' ∧
        Inspected p id w'.disk (.ok found))
      (fun e w' => Scans p seen rest moved room w' ∧
        Inspected p id w'.disk (.error e)) w := by
  obtain ⟨stored, hslot⟩ := hlisted.exists_slot h
  unfold inspectPendingCandidate
  refine wp_bind (quietly_read (fun sequence hok => ?_) fun e herror => ?_)
  · have hsequenced := (inspectPackage_eq_ok hslot).1 hok
    split
    · rename_i hlate
      refine wp_bind (wp_mono (quietly_others (P := fun w' =>
          Scans p seen rest moved room w' ∧ Listed p moved w'.disk id ∧
            w'.disk.slot .pending id = some stored) hA (h.pos) ⟨h, hlisted, hslot⟩ ?_)
        (fun _ w' hw' => inspectLate_wp hlate hw'.1 hw'.2.1 hw'.2.2 hsequenced) fun _ _ he => he)
      intro hgrew w' harrivals
      refine ⟨h.arrivals hgrew harrivals, hlisted.arrivals harrivals, ?_⟩
      rw [harrivals.kept id (fun habsent => ?_) .pending, hslot]
      rw [habsent .pending] at hslot
      cases hslot
    · rename_i hbound
      have hstart := hlisted.start_of_bound h hslot hsequenced (by omega)
      have hnext : p.start.nextSequence ≤ w.disk.nextSequence := by
        obtain ⟨-, scan, -, hstate⟩ := h
        exact hstate.evolved.next
      refine wp_bind (quietly_read (fun _ hattempt => wp_pure ⟨h, ?_, ?_⟩) fun e herror => ⟨h, ?_⟩)
      · have heligible : EligibleIn p.q p.boundary p.start ⟨sequence, id⟩ :=
          ⟨stored, hstart, Nat.le_of_not_lt hbound, hsequenced,
            (inspectAttempt_eq_ok hslot).1 hattempt⟩
        exact (candidateOf_eq_some.2 ⟨rfl, heligible⟩).symm
      · intro other hother
        cases hother.symm.trans hstart
        obtain ⟨previous, hprevious, hpermits⟩ := (inspectAttempt_eq_ok hslot).1 hattempt
        refine ⟨?_, ?_, fun sequence' hsequenced' => ?_⟩
        · exact Eligible.not_damaged ⟨by omega, hsequenced, previous, hprevious, hpermits⟩
        · rintro ⟨-, -, -, previous', hprevious', hexhausted⟩
          rw [attemptIs_unique hprevious' hprevious] at hexhausted
          omega
        · rw [hsequenced'.unique hsequenced]
          have hallocated := p.bound
          omega
      · refine ⟨stored, hstart, ?_⟩
        rcases inspectAttempt_eq_error hslot herror with ⟨hcondemns, hnone⟩ | ⟨hcondemns, hexhausted⟩
        · rw [if_pos hcondemns]
          exact .inl (.inr ⟨sequence, by omega, hsequenced, hnone⟩)
        · rw [if_neg (by simp [hcondemns])]
          exact ⟨sequence, by omega, hsequenced, hexhausted⟩
  · obtain ⟨hcondemns, hnone⟩ := inspectPackage_eq_error hslot herror
    refine ⟨h, stored, ?_, ?_⟩
    · cases hlisted with
      | start hstart hfresh =>
          obtain ⟨-, scan, -, hstate⟩ := h
          exact (hstate.evolved.slot hstart hfresh .pending).symm.trans hslot
      | late harrived =>
          obtain ⟨other, sequence, hlocated, hsequenced, -⟩ := harrived.pending
          cases hlocated.here.symm.trans hslot
          exact absurd hsequenced (hnone sequence)
    · rw [if_pos hcondemns]
      exact .inl (.inl hnone)

/-! What a scan makes of an entry. -/

variable {s : QueueDisk} {scan : PendingBatchScan}

/-- A request that is not moved has been seen. -/
theorem ScanInvariant.see (h : ScanInvariant p seen rest moved room s scan)
    {found : Option PendingCandidate} (hinspected : Inspected p id s (.ok found)) :
    ScanInvariant p (.request id :: seen) rest moved room s
      (found.elim scan fun candidate => scan.retain candidate) := by
  obtain ⟨rfl, hverdict⟩ := hinspected
  have hcandidates : ((candidateOf p.q p.boundary p.start (.request id)).elim scan
        fun candidate => scan.retain candidate).candidates =
      Least.least PendingCandidate.Before p.call.maximumRequests
        ((DirectoryEntry.request id :: seen).filterMap (candidateOf p.q p.boundary p.start)) := by
    cases hcandidate : candidateOf p.q p.boundary p.start (.request id) with
    | none =>
        rw [List.filterMap_cons_none hcandidate]
        exact h.candidates
    | some candidate =>
        rw [List.filterMap_cons_some hcandidate, ← Least.keep_least, ← h.candidates,
          ← h.maximumRequests]
        rfl
  have hrest : ∀ found : Option PendingCandidate,
      ∃ candidates, (found.elim scan fun candidate => scan.retain candidate) =
        { scan with candidates } := by
    rintro (_ | candidate)
    · exact ⟨scan.candidates, rfl⟩
    · exact ⟨_, rfl⟩
  obtain ⟨candidates, hscan⟩ := hrest (candidateOf p.q p.boundary p.start (.request id))
  rw [hscan] at hcandidates ⊢
  exact {
    batchId := h.batchId
    maximumRequests := h.maximumRequests
    maximumSequence := h.maximumSequence
    cursor := h.cursor
    room := h.room
    candidates := hcandidates
    failures := h.failures
    evolved := h.evolved
    steady := h.steady
    nodup := h.nodup
    rejected := fun other hother =>
      ⟨List.mem_cons_of_mem _ (h.rejected other hother).1, (h.rejected other hother).2⟩
    condemned := by
      rintro other stored (_ | ⟨_, hseen⟩) hslot hbad
      · obtain ⟨hdamaged, -, hallocated⟩ := hverdict stored hslot
        rcases hbad with hbad | ⟨sequence, hsequenced, hnext⟩
        · exact absurd hbad hdamaged
        · exact absurd (hallocated sequence hsequenced) (by omega)
      · exact h.condemned other stored hseen hslot hbad
    passed := by
      rintro entry (_ | ⟨_, hseen⟩)
      · refine ⟨id, rfl, fun stored hslot => ?_⟩
        obtain ⟨hdamaged, hexhausted, -⟩ := hverdict stored hslot
        exact ⟨hexhausted, fun hbad => absurd hbad hdamaged⟩
      · exact h.passed entry hseen }

theorem Rejected.not_exhausted (h : Rejected p.q p.boundary p.start id)
    (hslot : p.start.slot .pending id = some stored) : ¬ Exhausted p.q p.boundary id stored := by
  rintro ⟨sequence, hbound, hsequenced, previous, hprevious, -⟩
  obtain ⟨other, hother, (hnone | ⟨-, -, -, hnone⟩) | ⟨sequence', hsequenced', hnext⟩⟩ := h
  · cases hslot.symm.trans hother
    exact hnone _ hsequenced
  · cases hslot.symm.trans hother
    exact hnone _ hprevious
  · cases hslot.symm.trans hother
    rw [hsequenced'.unique hsequenced] at hnext
    exact absurd p.bound (by omega)

/-- A request that is moved to `failed/` has been seen. -/
theorem ScanInvariant.fail (h : ScanInvariant p seen rest moved room s scan)
    (hstart : p.start.Located id .pending stored)
    (hlocated : s.Located id .pending stored) (hfresh : id ∉ moved)
    (hrejected : Rejected p.q p.boundary p.start id) (hresult : stored.result ≠ some .other) (code : ErrorCode)
    (time : OffsetDateTime) :
    ScanInvariant p (.request id :: seen) rest (id :: moved) room
      ((failPendingTrail p.q s id p.call.batchId code time).getLastD s) scan.countFailure := by
  have hcandidate : candidateOf p.q p.boundary p.start (.request id) = none := by
    rw [Option.eq_none_iff_forall_ne_some]
    intro candidate hcandidate
    obtain ⟨hid, heligible⟩ := candidateOf_eq_some.1 hcandidate
    cases hid
    exact heligible.not_rejected p.bound hrejected
  obtain ⟨late, hperm, hlate⟩ := h.cursor
  have hcursor : ∀ entry ∈ late, ∃ other, entry = .request other ∧
      ArrivedSince p.q p.start ((failPendingTrail p.q s id p.call.batchId code time).getLastD s) other := by
    intro entry hentry
    obtain ⟨other, rfl, harrived⟩ := hlate entry hentry
    have hne : other ≠ id := by
      rintro rfl
      exact hstart.not_absent harrived.absent
    exact ⟨other, rfl, harrived.later le_rfl fun state =>
      (QueueDisk.slot_move_other hne _ _ _).trans (QueueDisk.slot_modify_other hne _)⟩
  exact {
    batchId := h.batchId
    maximumRequests := h.maximumRequests
    maximumSequence := h.maximumSequence
    cursor := ⟨late, hperm, hcursor⟩
    room := h.room
    candidates := by
      rw [List.filterMap_cons_none hcandidate]
      exact h.candidates
    failures := by
      rw [List.length_cons, ← h.failures]
      rfl
    evolved := h.evolved.fail hstart hlocated hfresh (by simp) code time
    steady := h.steady
    nodup := List.nodup_cons.2 ⟨hfresh, h.nodup⟩
    rejected := by
      rintro other (_ | ⟨_, hother⟩)
      · exact ⟨List.mem_cons_self, hrejected⟩
      · exact ⟨List.mem_cons_of_mem _ (h.rejected other hother).1, (h.rejected other hother).2⟩
    condemned := by
      rintro other found (_ | ⟨_, hseen⟩) hslot hbad
      · exact List.mem_cons_self
      · exact List.mem_cons_of_mem _ (h.condemned other found hseen hslot hbad)
    passed := by
      rintro entry (_ | ⟨_, hseen⟩)
      · refine ⟨id, rfl, fun found hslot => ⟨hrejected.not_exhausted hslot, fun _ => ?_⟩⟩
        cases hslot.symm.trans hstart.here
        exact hresult
      · exact h.passed entry hseen }

theorem retainRequest_wp_of {Q : Unit → QueueWorld → Prop} {E : WorkerQueueError → QueueWorld → Prop}
    (hA : p.Admits A)
    (h : Scans p seen rest moved room w) (hlisted : Listed p moved w.disk id)
    (hrest : ∀ inspected w', Scans p seen rest moved room w' →
      Inspected p id w'.disk inspected →
      quietly A (settleInspection p.q p.call id inspected) Q E w') :
    quietly A (retainRequest p.q p.call id) Q E w := by
  have hboundary : w.scan.elim 0 PendingBatchScan.maximumSequence = p.boundary := by
    obtain ⟨-, scan, hscan, hstate⟩ := h
    rw [hscan]
    exact hstate.maximumSequence
  refine wp_bind (quietly_look ?_)
  rw [hboundary]
  refine wp_bind (wp_attempt (wp_mono (inspectPendingCandidate_wp hA h hlisted) ?_ ?_))
  · rintro found w' ⟨hscans, hinspected⟩
    exact hrest _ w' hscans hinspected
  · rintro e w' ⟨hscans, hinspected⟩
    exact hrest _ w' hscans hinspected

theorem modifyScan_wp {f : PendingBatchScan → PendingBatchScan} {P : QueueWorld → Prop}
    {E : WorkerQueueError → QueueWorld → Prop} (h : P (w.withScan (w.scan.map f))) :
    quietly A (modifyScan f) (fun _ => P) E w :=
  wp_step trivial h

/-- A scan that nothing blocks can move what it rejects. -/
theorem Unblocked.failable (h : Unblocked p.q p.boundary p.start) (hrejected : Rejected p.q p.boundary p.start id)
    (hslot : p.start.slot .pending id = some stored) :
    p.start.Located id .pending stored ∧ stored.result ≠ some .other := by
  obtain ⟨other, hother, hverdict⟩ := hrejected
  cases hother.symm.trans hslot
  rcases hverdict with hdamaged | ⟨sequence, hsequenced, hnext⟩
  · exact ⟨h.damaged id stored hslot hdamaged, h.results id stored hslot hdamaged⟩
  · exact ⟨h.unallocated id stored sequence hslot hsequenced hnext, hsequenced.result_ne⟩

/-- The failure of a request that was there when the scan was opened. -/
theorem failRejected_wp
    (h : Scans p seen rest moved room w)
    (hslot : p.start.slot .pending id = some stored) (hfresh : id ∉ moved)
    (hrejected : Rejected p.q p.boundary p.start id) (code : ErrorCode) :
    quietly A (do
        onDisk (failPending p.q id p.call.batchId code (p.call.clock id))
        modifyScan PendingBatchScan.countFailure)
      (fun _ w' => ∃ moved',
        Scans p (.request id :: seen) rest moved' room w')
      (fun _ _ => ¬ Unblocked p.q p.boundary p.start) w := by
  obtain ⟨hready, scan, hscan, hstate⟩ := h
  have hsame := hstate.evolved.slot hslot hfresh
  rcases failPending_cases p.q w.disk id p.call.batchId code (p.call.clock id) with
    ⟨e, hcalm⟩ | ⟨found, hlocated, hresult, hcalm⟩
  · refine wp_bind (quietly_onDisk failPending_straight (fun _ hok => ?_) fun _ _ hunblocked => ?_)
    · rw [hcalm] at hok
      cases hok
    · obtain ⟨hstart, hresult⟩ := hunblocked.failable hrejected hslot
      rw [failPending_of_located (hstart.congr hsame) hresult] at hcalm
      cases hcalm
  · cases ((hsame .pending).trans hslot).symm.trans hlocated.here
    have hstart : p.start.Located id .pending stored := hlocated.congr fun state => (hsame state).symm
    refine wp_bind (quietly_onDisk failPending_straight (fun _ _ => ?_) fun _ herror => ?_)
    · rw [hcalm]
      refine modifyScan_wp ⟨id :: moved, hready, scan.countFailure, ?_,
        hstate.fail hstart hlocated hfresh hrejected hresult _ _⟩
      change w.scan.map _ = _
      rw [hscan]
      rfl
    · rw [hcalm] at herror
      cases herror

/-- A request that was there when the scan was opened. -/
theorem retainRequest_wp (hA : p.Admits A)
    (h : Scans p seen rest moved room w)
    (hslot : p.start.slot .pending id = some stored) (hfresh : id ∉ moved) :
    quietly A (retainRequest p.q p.call id)
      (fun _ w' => ∃ moved',
        Scans p (.request id :: seen) rest moved' room w')
      (fun _ _ => ¬ Unblocked p.q p.boundary p.start) w := by
  refine retainRequest_wp_of hA h (.start hslot hfresh) fun inspected w hscans hinspected => ?_
  rcases inspected with error | found
  · obtain ⟨other, hother, hverdict⟩ := hinspected
    cases hother.symm.trans hslot
    simp only [settleInspection]
    by_cases hcondemns : error.condemns
    · rw [if_pos hcondemns] at hverdict ⊢
      have hrejected : Rejected p.q p.boundary p.start id := by
        obtain ⟨-, scan, -, hstate⟩ := hscans
        refine ⟨stored, hslot, hverdict.imp_right ?_⟩
        rintro ⟨sequence, hsequenced, hnext⟩
        exact ⟨sequence, hsequenced, hstate.evolved.next.trans hnext⟩
      exact wp_bind (wp_mono (quietly_others hA (hscans.pos) hscans fun hgrew w' harrivals =>
        hscans.arrivals hgrew harrivals)
        (fun _ w hscans => failRejected_wp hscans hslot hfresh hrejected _) fun _ _ he => he)
    · rw [if_neg hcondemns] at hverdict ⊢
      exact wp_lift (by rintro a ⟨⟩) fun e _ hunblocked =>
        hunblocked.attempts id stored hslot hverdict
  · obtain ⟨hready, scan, hscan, hstate⟩ := hscans
    have hnext := hstate.see hinspected
    cases found with
    | none => exact wp_pure ⟨moved, hready, scan, hscan, hnext⟩
    | some candidate =>
        refine modifyScan_wp ⟨moved, hready, scan.retain candidate, ?_, hnext⟩
        change w.scan.map _ = _
        rw [hscan]
        rfl

/-- A request that has come in meanwhile. -/
theorem retainRequest_wp_late (hA : p.Admits A)
    (h : Scans p seen rest moved room w) (harrived : ArrivedSince p.q p.start w.disk id) :
    quietly A (retainRequest p.q p.call id)
      (fun _ w' => Scans p seen rest moved room w')
      (fun _ _ => ¬ Unblocked p.q p.boundary p.start) w := by
  refine retainRequest_wp_of hA h (.late harrived) fun inspected w hscans hinspected => ?_
  have hnone : candidateOf p.q p.boundary p.start (.request id) = none := by
    rw [Option.eq_none_iff_forall_ne_some]
    intro candidate hcandidate
    obtain ⟨hid, stored, hstored, -⟩ := candidateOf_eq_some.1 hcandidate
    cases hid
    rw [harrived.absent] at hstored
    cases hstored
  rcases inspected with error | found
  · obtain ⟨stored, hstored, -⟩ := hinspected
    rw [harrived.absent] at hstored
    cases hstored
  · obtain ⟨rfl, -⟩ := hinspected
    rw [hnone]
    exact wp_pure hscans

end Entry

/-! ### The loop -/

section Loop

variable {p : ScanPlan} {listing seen rest : List DirectoryEntry} {moved : List RequestId}
  {room : Nat} {w : QueueWorld} {A : QueueMove → Prop}

/-- A scan over the entries `listing`. -/
def ScansOver (p : ScanPlan) (listing : List DirectoryEntry) (room : Nat) (w : QueueWorld) : Prop :=
  ∃ seen rest moved, (seen ++ rest).Perm listing ∧ Scans p seen rest moved room w

/-- A scan that has seen all of them. -/
def ScannedAll (p : ScanPlan) (listing : List DirectoryEntry) (w : QueueWorld) : Prop :=
  ∃ seen moved room, seen.Perm listing ∧ Scans p seen [] moved room w

/-- The world after the cursor has returned an entry. -/
def QueueWorld.popped (w : QueueWorld) (tail : List DirectoryEntry) : QueueWorld :=
  w.withScan (w.scan.map fun scan => { scan with entries := tail })

/-- An entry the cursor returns was there when the scan was opened, or has come in. -/
theorem Scans.pop (h : Scans p seen rest moved room w) {entry : DirectoryEntry}
    {tail : List DirectoryEntry} (hentries : w.scan.elim [] PendingBatchScan.entries = entry :: tail) :
    (p.moving ∨ 0 < room) ∧
      ((∃ rest', rest.Perm (entry :: rest') ∧
        Scans p seen rest' moved (room - 1) (w.popped tail)) ∨
      ∃ id, entry = .request id ∧ ArrivedSince p.q p.start w.disk id ∧
        Scans p seen rest moved (room - 1) (w.popped tail)) := by
  obtain ⟨hready, scan, hscan, hstate⟩ := h
  have hpopped : (w.popped tail).scan = some { scan with entries := tail } := by
    change w.scan.map _ = _
    rw [hscan]
    rfl
  rw [hscan] at hentries
  change scan.entries = entry :: tail at hentries
  have hroom : p.moving ∨ tail.length ≤ room - 1 := by
    refine hstate.room.imp_right fun hlength => ?_
    rw [hentries, List.length_cons] at hlength
    omega
  refine ⟨hstate.room.imp_right fun hlength => ?_, ?_⟩
  · rw [hentries, List.length_cons] at hlength
    omega
  obtain ⟨late, hperm, hlate⟩ := hstate.cursor
  rw [hentries] at hperm
  rcases List.mem_append.1 (hperm.subset List.mem_cons_self) with hmem | hmem
  · have hrest : rest.Perm (entry :: rest.erase entry) := List.perm_cons_erase hmem
    refine .inl ⟨rest.erase entry, hrest, hready, _, hpopped, { hstate with
      cursor := ⟨late, ?_, hlate⟩, room := hroom }⟩
    exact (hperm.trans (hrest.append_right late)).cons_inv
  · obtain ⟨id, rfl, harrived⟩ := hlate entry hmem
    refine .inr ⟨id, rfl, harrived, hready, _, hpopped, { hstate with
      cursor := ⟨late.erase (.request id), ?_, fun other hother =>
        hlate other (List.mem_of_mem_erase hother)⟩, room := hroom }⟩
    refine List.Perm.cons_inv (a := .request id) (hperm.trans ?_)
    exact ((List.perm_cons_erase hmem).append_left rest).trans List.perm_middle

theorem Lists.fresh {id : RequestId} (hlists : Lists p.start listing)
    (hwhole : (seen ++ rest).Perm listing) (hmem : .request id ∈ rest) : .request id ∉ seen := by
  intro hseen
  have honce := (hwhole.filterMap DirectoryEntry.requestId?).nodup_iff.2 hlists.once
  rw [List.filterMap_append, List.nodup_append] at honce
  exact honce.2.2 id (List.mem_filterMap.2 ⟨_, hseen, rfl⟩) id
    (List.mem_filterMap.2 ⟨_, hmem, rfl⟩) rfl

/-- An entry that was there when the scan was opened. -/
theorem retainPendingCandidate_wp {entry : DirectoryEntry} (hA : p.Admits A)
    (hlists : Lists p.start listing) (hwhole : (seen ++ entry :: rest).Perm listing)
    (h : Scans p seen rest moved room w) :
    quietly A (retainPendingCandidate p.q p.call entry)
      (fun _ w' => ∃ moved', Scans p (entry :: seen) rest moved' room w')
      (fun _ _ => ¬ Unblocked p.q p.boundary p.start) w := by
  have hlisted : entry ∈ listing :=
    hwhole.subset (List.mem_append_right _ List.mem_cons_self)
  cases entry with
  | foreign detail =>
      refine wp_bind (quietly_read (fun _ _ => wp_lift (by rintro a ⟨⟩) fun e _ hunblocked => ?_)
        (by rintro e ⟨⟩))
      have hforeign := (hlists.foreign detail).1 hlisted
      rw [hunblocked.foreign] at hforeign
      cases hforeign
  | request id =>
      obtain ⟨stored, hslot⟩ := Option.ne_none_iff_exists'.1 ((hlists.requests id).1 hlisted)
      have hfresh : id ∉ moved := by
        intro hmem
        obtain ⟨-, scan, -, hstate⟩ := h
        exact hlists.fresh hwhole List.mem_cons_self (hstate.rejected id hmem).1
      exact wp_bind (quietly_read (fun _ _ => retainRequest_wp hA h hslot hfresh) (by rintro e ⟨⟩))

theorem scanPendingEntry_wp (hA : p.Admits A) (hlists : Lists p.start listing)
    (h : ScansOver p listing room w) :
    quietly A (scanPendingEntry p.q p.call)
      (fun more w' => if more then (p.moving ∨ 0 < room) ∧ ScansOver p listing (room - 1) w'
        else ScannedAll p listing w')
      (fun _ _ => ¬ Unblocked p.q p.boundary p.start) w := by
  obtain ⟨seen, rest, moved, hwhole, hscans⟩ := h
  refine wp_bind (wp_mono (quietly_others hA hscans.pos hscans fun hgrew w' harrivals =>
    hscans.arrivals hgrew harrivals) (fun _ w hscans => ?_) fun _ _ he => he)
  refine wp_bind (wp_bind (quietly_read (fun entries hentries => ?_) (by rintro e ⟨⟩)))
  obtain rfl : w.scan.elim [] PendingBatchScan.entries = entries := by
    simpa using hentries
  rcases hcursor : w.scan.elim [] PendingBatchScan.entries with _ | ⟨entry, tail⟩
  · refine wp_pure (wp_pure ⟨seen, moved, room, ?_, ?_⟩)
    all_goals
      obtain ⟨hready, scan, hscan, hstate⟩ := hscans
      obtain ⟨late, hperm, hlate⟩ := hstate.cursor
      rw [hscan] at hcursor
      change scan.entries = [] at hcursor
      rw [hcursor] at hperm
      obtain ⟨rfl, rfl⟩ := List.append_eq_nil_iff.1 hperm.symm.eq_nil
    · simpa using hwhole
    · exact ⟨hready, scan, hscan, hstate⟩
  · obtain ⟨hroom, hpop⟩ := hscans.pop hcursor
    refine wp_bind (modifyScan_wp (wp_pure ?_))
    rcases hpop with ⟨rest', hrest, hpopped⟩ | ⟨id, rfl, harrived, hpopped⟩
    · have hwhole' : (seen ++ entry :: rest').Perm listing := (hrest.symm.append_left seen).trans hwhole
      refine wp_bind (wp_mono (retainPendingCandidate_wp hA hlists hwhole' hpopped) ?_ fun _ _ he => he)
      rintro - w' ⟨moved', hscans'⟩
      exact wp_pure ⟨hroom, entry :: seen, rest', moved', List.perm_middle.symm.trans hwhole', hscans'⟩
    · refine wp_bind (wp_bind (quietly_read (fun _ _ => wp_mono
        (retainRequest_wp_late hA hpopped harrived) ?_ fun _ _ he => he) (by rintro e ⟨⟩)))
      intro _ w' hscans'
      exact wp_pure ⟨hroom, seen, rest, moved, hwhole, hscans'⟩

theorem scanPending_wp (hA : p.Admits A) (hlists : Lists p.start listing) (budget : Nat)
    (h : ScansOver p listing room w) :
    quietly A (scanPending p.q p.call budget)
      (fun complete w' => if complete then ScannedAll p listing w'
        else (p.moving ∨ budget ≤ room) ∧ ScansOver p listing (room - budget) w')
      (fun _ _ => ¬ Unblocked p.q p.boundary p.start) w := by
  induction budget generalizing room w with
  | zero => exact wp_pure ⟨.inr (Nat.zero_le _), h⟩
  | succ budget ih =>
      refine wp_bind (wp_handle (wp_mono (scanPendingEntry_wp hA hlists h) ?_ ?_))
      · rintro (_ | _) w' hnext
        · exact wp_pure hnext
        · refine wp_mono (ih hnext.2) ?_ fun _ _ he => he
          rintro (_ | _) w'' hrest
          · refine ⟨?_, by rw [Nat.sub_sub, Nat.add_comm 1] at hrest; exact hrest.2⟩
            rcases hnext.1 with hmoving | hroom
            · exact .inl hmoving
            · exact hrest.1.imp_right fun hbudget => by omega
          · exact hrest
      · intro e w' hblocked
        exact wp_bind (quietly_look (wp_bind (wp_step trivial (wp_lift (by rintro a ⟨⟩) fun _ _ =>
          hblocked))))

end Loop

/-! ### The claims -/

/-- What a scan up to `b` has done when it ends: it has claimed `chosen` in this order
and moved what it rejects to `failed/`, and nothing else has changed apart from what
came in. -/
structure Selected (q : QueueSetup) (b : Nat) (batchId : BatchId) (s₀ : QueueDisk)
    (chosen : List PendingCandidate) (claims : List QueueClaim) (failedRequests : Nat)
    (s : QueueDisk) : Prop where
  order : claims.map (·.token.requestId) = chosen.map (·.requestId)
  fates : ∃ moved : List RequestId, moved.Nodup ∧ moved.length = failedRequests ∧
    (∀ id ∈ moved, Rejected q b s₀ id) ∧
    (∀ id stored, s₀.slot .pending id = some stored → Damaged q b id stored → id ∈ moved) ∧
    (∀ id stored sequence, s₀.slot .pending id = some stored → Sequenced q id stored sequence →
      s.nextSequence ≤ sequence → id ∈ moved) ∧
    Evolved q batchId s₀ moved claims s

/-- The directory holds nothing that stops a scan before its end. -/
structure Passable (q : QueueSetup) (b : Nat) (s : QueueDisk) : Prop where
  foreign : s.foreign .pending = []
  attempts : ∀ id stored, s.slot .pending id = some stored → ¬ Exhausted q b id stored
  results : ∀ id stored, s.slot .pending id = some stored → Damaged q b id stored →
    stored.result ≠ some .other

section Claims

variable {p : ScanPlan} {floor : Nat} {listing : List DirectoryEntry} {moved : List RequestId}
  {claims : List QueueClaim} {w w' : QueueWorld} {A : QueueMove → Prop} {id : RequestId}
  {stored : StoredPackage} {candidate : PendingCandidate}

theorem prepareClaim_eq_ok {q : QueueSetup} {package : ValidatedPackage} :
    (prepareClaim q stored id).result = .ok package ↔
      (readAcceptedPackage q.x q.policy stored).result = .ok package ∧
        package.request.requestId = id ∧ Permits q id stored := by
  unfold prepareClaim Permits
  simp only [Reading.result_bind, Reading.result_lift, Reading.result_pure, bind_eq_ok, exists_unit,
    revalidateAccepted_eq_ok, rejectIf_eq_ok, not_not, nextAttempt_eq_ok, Except.ok.injEq]
  constructor
  · rintro ⟨validated, hread, hid, attempt, ⟨hbound, previous, hprevious, rfl⟩, rfl⟩
    exact ⟨hread, hid, previous, hprevious, hbound⟩
  · rintro ⟨hread, hid, previous, hprevious, hbound⟩
    exact ⟨package, hread, hid, _, ⟨hbound, previous, hprevious, rfl⟩, rfl⟩

theorem EligibleIn.package {q : QueueSetup} {b : Nat} {s : QueueDisk} (h : EligibleIn q b s candidate) :
    ∃ stored package, s.slot .pending candidate.requestId = some stored ∧
      (prepareClaim q stored candidate.requestId).result = .ok package := by
  obtain ⟨stored, hslot, -, ⟨validated, -, hread, hid, -⟩, hpermits⟩ := h
  exact ⟨stored, validated, hslot, prepareClaim_eq_ok.2 ⟨hread, hid, hpermits⟩⟩

/-- The state after a scan, while its candidates are claimed; `floor` is the next
sequence at the end of the scan. -/
structure Claiming (p : ScanPlan) (floor : Nat) (moved : List RequestId) (claims : List QueueClaim)
    (w : QueueWorld) : Prop where
  idle : w.scan = none
  floor : floor ≤ w.disk.nextSequence
  evolved : Evolved p.q p.call.batchId p.start moved claims w.disk
  steady : p.grew ∨ w.disk.nextSequence = p.start.nextSequence

theorem Claiming.arrivals (h : Claiming p floor moved claims w) (hgrew : p.grew ∧ p.moving)
    (harrivals : Arrivals p.q w w') : Claiming p floor moved claims w' where
  idle := by
    rw [QueueWorld.scan, harrivals.idle h.idle]
    exact h.idle
  floor := h.floor.trans harrivals.next
  evolved := h.evolved.arrivals harrivals
  steady := .inl hgrew.1

theorem Claiming.pos (h : Claiming p floor moved claims w) : 0 < w.disk.nextSequence := by
  have hnext := h.evolved.next
  have hbound := p.bound
  omega

theorem Claiming.others (h : Claiming p floor moved claims w) (hA : p.Admits A)
    {E : WorkerQueueError → QueueWorld → Prop} :
    quietly A others (fun _ w' => Claiming p floor moved claims w') E w :=
  quietly_others hA h.pos h fun hgrew _ harrivals => h.arrivals hgrew harrivals

/-- A candidate that has not been moved is where it was. -/
theorem Claiming.slot (h : Claiming p floor moved claims w) (hslot : p.start.slot .pending id = some stored)
    (hmoved : id ∉ moved) (hclaimed : id ∉ claims.map (·.token.requestId)) :
    ∀ state, w.disk.slot state id = p.start.slot state id := by
  refine h.evolved.kept id (fun habsent => ?_) hmoved hclaimed
  rw [habsent .pending] at hslot
  cases hslot

/-- What has been prepared for a candidate. -/
def Prepared (p : ScanPlan) (candidate : PendingCandidate) (prepared : RequestId × ValidatedPackage) :
    Prop :=
  prepared.1 = candidate.requestId ∧ ∃ stored,
    p.start.slot .pending candidate.requestId = some stored ∧
    (prepareClaim p.q stored candidate.requestId).result = .ok prepared.2

theorem prepareCandidate_wp {prepared : List (RequestId × ValidatedPackage)} {failed : Nat}
    (hA : p.Admits A) (h : Claiming p floor moved [] w) (heligible : EligibleIn p.q p.boundary p.start candidate)
    (hmoved : candidate.requestId ∉ moved) :
    quietly A (prepareCandidate p.q failed prepared candidate)
      (fun result w' => Claiming p floor moved [] w' ∧
        ∃ next, Prepared p candidate next ∧ result = prepared ++ [next])
      (fun _ _ => False) w := by
  obtain ⟨stored, package, hslot, hprepare⟩ := heligible.package
  refine wp_bind (wp_mono (h.others hA) (fun _ w h => ?_) fun _ _ he => he)
  have hread : ((do
      let stored ← .lift (ofOption (w.disk.slot .pending candidate.requestId) .io)
      prepareClaim p.q stored candidate.requestId : WorkerReading ValidatedPackage).mapError
        (withScanFailures · failed)).result = .ok package := by
    rw [h.slot hslot hmoved (by simp), hslot]
    simp [hprepare, Except.mapError]
  refine wp_bind (quietly_read (fun found hok => wp_pure ⟨h, _, ⟨rfl, stored, hslot, ?_⟩, rfl⟩)
    fun e herror => ?_)
  · cases hread.symm.trans hok
    exact hprepare
  · rw [hread] at herror
    cases herror

theorem prepareAll_wp {chosen : List PendingCandidate} {failed : Nat} (hA : p.Admits A)
    (h : Claiming p floor moved [] w)
    (heligible : ∀ candidate ∈ chosen, EligibleIn p.q p.boundary p.start candidate)
    (hmoved : ∀ candidate ∈ chosen, candidate.requestId ∉ moved) :
    quietly A (chosen.foldlM (prepareCandidate p.q failed) [])
      (fun prepared w' => Claiming p floor moved [] w' ∧ List.Forall₂ (Prepared p) chosen prepared)
      (fun _ _ => False) w := by
  refine wp_mono (wp_foldlM (I := fun rest prepared w => Claiming p floor moved [] w ∧
    ∃ done, done ++ rest = chosen ∧ List.Forall₂ (Prepared p) done prepared) ⟨h, [], rfl, .nil⟩ ?_)
    ?_ fun _ _ he => he
  · rintro candidate rest prepared w ⟨h, done, rfl, hprepared⟩
    have hmem : candidate ∈ done ++ candidate :: rest := by simp
    refine wp_mono (prepareCandidate_wp hA h (heligible _ hmem) (hmoved _ hmem)) ?_ fun _ _ he => he
    rintro _ w' ⟨h, next, hnext, rfl⟩
    exact ⟨h, done ++ [candidate], by simp,
      List.rel_append hprepared (List.Forall₂.cons hnext .nil)⟩
  · rintro prepared w' ⟨h, done, hdone, hprepared⟩
    rw [List.append_nil] at hdone
    exact ⟨h, hdone ▸ hprepared⟩

theorem readStoredDigest_of_accepted {q : QueueSetup} {state : QueueState}
    {package : ValidatedPackage}
    (h : (readAcceptedPackage q.x q.policy stored).result = .ok package) :
    (readStoredDigest stored id state).result = .ok package.digest := by
  obtain ⟨layout, contents, payload, acceptance, hlayout, -, hdigest, -, -, rfl⟩ :=
    readAcceptedPackage_eq_ok.1 h
  obtain ⟨entry, hentry, rfl, -⟩ := hlayout.digest
  exact readStoredDigest_eq_ok.2 ⟨layout.digest, hentry, hdigest⟩

theorem claimCandidate_wp {prepared : RequestId × ValidatedPackage} {failed : Nat} (hA : p.Admits A)
    (h : Claiming p floor moved claims w) (heligible : EligibleIn p.q p.boundary p.start candidate)
    (hprepared : Prepared p candidate prepared) (hmoved : candidate.requestId ∉ moved)
    (hclaimed : candidate.requestId ∉ claims.map (·.token.requestId)) :
    quietly A (claimCandidate p.q p.call failed claims prepared)
      (fun result w' => ∃ claim, claim.token.requestId = candidate.requestId ∧
        result = claims ++ [claim] ∧ Claiming p floor moved result w')
      (fun _ _ => ¬ Unblocked p.q p.boundary p.start) w := by
  obtain ⟨hid, stored, hslot, hprepare⟩ := hprepared
  obtain ⟨hread, -, previous, hprevious, hbound⟩ := prepareClaim_eq_ok.1 hprepare
  have hvalid : 0 < previous + 1 ∧ previous + 1 < 2 ^ 32 := ⟨by omega, hbound⟩
  refine wp_bind (wp_mono (h.others hA) (fun _ w h => ?_) fun _ _ he => he)
  have hsame := h.slot hslot hmoved hclaimed
  rw [hid]
  refine wp_bind (wp_handle (quietly_onDisk claimPrepared_straight (fun claim hok => ?_)
    fun e herror => ?_))
  · rcases claimPrepared_cases p.q w.disk candidate.requestId p.call.batchId
        (p.call.clock candidate.requestId) prepared.2 with
      ⟨e, hcalm⟩ | ⟨found, previous', hclaimable, hvalid', hcalm⟩
    · rw [hcalm] at hok
      cases hok
    · cases ((hsame .pending).trans hslot).symm.trans hclaimable.located.here
      cases attemptIs_unique hprevious hclaimable.attempt
      rw [hcalm] at hok ⊢
      cases hok
      refine wp_pure ⟨_, rfl, rfl, h.idle, h.floor, ?_, h.steady⟩
      exact h.evolved.claimOne (hclaimable.located.congr fun state => (hsame state).symm)
        hclaimable.located hprevious hread hmoved hclaimed hvalid
  · refine wp_bind (wp_step trivial (wp_lift (by rintro a ⟨⟩) fun _ _ hunblocked => ?_))
    obtain ⟨other, hstart⟩ := hunblocked.eligible candidate heligible
    cases hslot.symm.trans hstart.here
    have hclaimable : Claimable p.q w.disk candidate.requestId prepared.2 stored previous :=
      ⟨hstart.congr hsame, readStoredDigest_of_accepted hread, hprevious, hbound⟩
    rw [claimPrepared_of_claimable hclaimable hvalid] at herror
    cases herror

theorem claimAll_wp {chosen : List PendingCandidate}
    {prepared : List (RequestId × ValidatedPackage)} {failed : Nat} (hA : p.Admits A)
    (h : Claiming p floor moved [] w)
    (heligible : ∀ candidate ∈ chosen, EligibleIn p.q p.boundary p.start candidate)
    (hmoved : ∀ candidate ∈ chosen, candidate.requestId ∉ moved)
    (hnodup : (chosen.map (·.requestId)).Nodup) (hprepared : List.Forall₂ (Prepared p) chosen prepared) :
    quietly A (prepared.foldlM (claimCandidate p.q p.call failed) [])
      (fun claims w' => Claiming p floor moved claims w' ∧
        claims.map (·.token.requestId) = chosen.map (·.requestId))
      (fun _ _ => ¬ Unblocked p.q p.boundary p.start) w := by
  refine wp_mono (wp_foldlM (I := fun rest claims w => Claiming p floor moved claims w ∧
    ∃ done todo, done ++ todo = chosen ∧ List.Forall₂ (Prepared p) todo rest ∧
      claims.map (·.token.requestId) = done.map (·.requestId)) ⟨h, [], chosen, rfl, hprepared, rfl⟩ ?_)
    ?_ fun _ _ he => he
  · rintro next rest claims w ⟨h, done, todo, rfl, htodo, hclaims⟩
    obtain ⟨candidate, todo, hnext, hrest, rfl⟩ := List.forall₂_cons_right_iff.1 htodo
    have hmem : candidate ∈ done ++ candidate :: todo := by simp
    have hclaimed : candidate.requestId ∉ claims.map (·.token.requestId) := by
      rw [hclaims]
      rw [List.map_append, List.map_cons, List.nodup_append] at hnodup
      exact fun hdone => hnodup.2.2 _ hdone _ List.mem_cons_self rfl
    refine wp_mono (claimCandidate_wp hA h (heligible _ hmem) hnext (hmoved _ hmem) hclaimed) ?_
      fun _ _ he => he
    rintro _ w' ⟨claim, hid, rfl, h⟩
    exact ⟨h, done ++ [candidate], todo, by simp, hrest, by simp [hclaims, hid]⟩
  · rintro claims w' ⟨h, done, todo, rfl, htodo, hclaims⟩
    cases htodo
    exact ⟨h, by simpa using hclaims⟩

/-! ### A whole call -/

/-- The requests a scan over `listing` claims. -/
def ScanPlan.chosen (p : ScanPlan) (listing : List DirectoryEntry) : List PendingCandidate :=
  Least.least PendingCandidate.Before p.call.maximumRequests
    (listing.filterMap (candidateOf p.q p.boundary p.start))

theorem filterMap_candidateOf_sublist (q : QueueSetup) (b : Nat) (s : QueueDisk)
    (listing : List DirectoryEntry) :
    ((listing.filterMap (candidateOf q b s)).map (·.requestId)).Sublist
      (listing.filterMap DirectoryEntry.requestId?) := by
  induction listing with
  | nil => exact .slnil
  | cons entry listing ih =>
      cases hcandidate : candidateOf q b s entry with
      | none =>
          rw [List.filterMap_cons_none hcandidate]
          cases entry with
          | request id => exact ih.cons id
          | foreign detail => exact ih
      | some candidate =>
          obtain ⟨rfl, -⟩ := candidateOf_eq_some.1 hcandidate
          rw [List.filterMap_cons_some hcandidate]
          exact ih.cons_cons candidate.requestId

theorem ScanPlan.chosen_nodup (hlists : Lists p.start listing) :
    ((p.chosen listing).map (·.requestId)).Nodup :=
  Least.nodup_map_least _ (hlists.once.sublist (filterMap_candidateOf_sublist _ _ _ _))

theorem ScanPlan.chosen_eligible (h : candidate ∈ p.chosen listing) :
    EligibleIn p.q p.boundary p.start candidate := by
  obtain ⟨entry, -, hcandidate⟩ := List.mem_filterMap.1 (Least.mem_of_mem_least _ h)
  exact (candidateOf_eq_some.1 hcandidate).2

/-- How a scan ends: what it has claimed, and that nothing stopped it. -/
structure ScanPlan.Ends (p : ScanPlan) (listing : List DirectoryEntry) (outcome : BatchClaimOutcome)
    (w : QueueWorld) : Prop where
  selected : ∃ claims failed, outcome = .claimed claims failed ∧
    Selected p.q p.boundary p.call.batchId p.start (p.chosen listing) claims failed w.disk
  steady : p.grew ∨ w.disk.nextSequence = p.start.nextSequence
  passable : Passable p.q p.boundary p.start

theorem ScanInvariant.passable {seen : List DirectoryEntry} {room : Nat} {s : QueueDisk}
    {scan : PendingBatchScan} (h : ScanInvariant p seen [] moved room s scan)
    (hlists : Lists p.start listing) (hseen : seen.Perm listing) :
    Passable p.q p.boundary p.start := by
  have hpassed : ∀ id stored, p.start.slot .pending id = some stored →
      ¬ Exhausted p.q p.boundary id stored ∧
        (Damaged p.q p.boundary id stored → stored.result ≠ some .other) := by
    intro id stored hslot
    have hmem : DirectoryEntry.request id ∈ seen :=
      hseen.symm.subset ((hlists.requests id).2 (by rw [hslot]; simp))
    obtain ⟨other, hother, hverdict⟩ := h.passed _ hmem
    cases hother
    exact hverdict stored hslot
  refine ⟨List.eq_nil_iff_forall_not_mem.2 fun detail hdetail => ?_,
    fun id stored hslot => (hpassed id stored hslot).1,
    fun id stored hslot => (hpassed id stored hslot).2⟩
  obtain ⟨id, hid, -⟩ := h.passed _ (hseen.symm.subset ((hlists.foreign detail).2 hdetail))
  cases hid

theorem claimCandidates_wp (hA : p.Admits A) (hlists : Lists p.start listing)
    (h : ScannedAll p listing w) :
    quietly A (claimCandidates p.q p.call) (fun outcome w' => p.Ends listing outcome w')
      (fun _ _ => ¬ Unblocked p.q p.boundary p.start) w := by
  obtain ⟨seen, moved, room, hseen, -, scan, hscan, hstate⟩ := h
  have hpassable := hstate.passable hlists hseen
  have hchosen : scan.candidates = p.chosen listing := by
    rw [hstate.candidates]
    exact Least.least_perm _ (hseen.filterMap _)
  have hmoved : ∀ candidate ∈ p.chosen listing, candidate.requestId ∉ moved := by
    intro candidate hmem hbad
    exact (p.chosen_eligible hmem).not_rejected p.bound (hstate.rejected _ hbad).2
  refine wp_bind (quietly_look ?_)
  rw [hscan]
  dsimp only [Option.elim]
  rw [hchosen]
  refine wp_bind (wp_step trivial ?_)
  have hclaiming : Claiming p w.disk.nextSequence moved [] (w.withScan none) :=
    ⟨rfl, le_rfl, hstate.evolved, hstate.steady⟩
  refine wp_bind (wp_mono (prepareAll_wp hA hclaiming (fun _ => p.chosen_eligible) hmoved) ?_
    fun _ _ he => he.elim)
  rintro prepared w₁ ⟨hclaiming, hprepared⟩
  refine wp_bind (wp_mono (claimAll_wp hA hclaiming (fun _ => p.chosen_eligible) hmoved
    (p.chosen_nodup hlists) hprepared) ?_ fun _ _ he => he)
  rintro claims w₂ ⟨hclaiming', horder⟩
  have hpending : ∀ id stored, p.start.slot .pending id = some stored →
      DirectoryEntry.request id ∈ seen := fun id stored hslot =>
    hseen.symm.subset ((hlists.requests id).2 (by rw [hslot]; simp))
  refine wp_pure ⟨⟨claims, scan.failedRequests, rfl, horder, moved, hstate.nodup, hstate.failures.symm,
    fun id hid => (hstate.rejected id hid).2, ?_, ?_, hclaiming'.evolved⟩, hclaiming'.steady, hpassable⟩
  · intro id stored hslot hdamaged
    exact hstate.condemned id stored (hpending id stored hslot) hslot (.inl hdamaged)
  · intro id stored sequence hslot hsequenced hnext
    refine hstate.condemned id stored (hpending id stored hslot) hslot (.inr ⟨sequence, hsequenced, ?_⟩)
    exact hclaiming'.floor.trans hnext

/-- Where a call may begin: before the scan, or within it. -/
def ScanPlan.Begins (p : ScanPlan) (listing : List DirectoryEntry) (room : Nat) (w : QueueWorld) :
    Prop :=
  (w.scan = none ∧ w.session.Ready ∧ w.disk = p.start ∧ room = listing.length) ∨
    ScansOver p listing room w

theorem ScansOver.not_changed {scan : PendingBatchScan} {room : Nat} (h : ScansOver p listing room w)
    (hscan : w.scan = some scan) : scan.changed p.call = false := by
  obtain ⟨seen, rest, moved, -, -, other, hother, hstate⟩ := h
  cases hscan.symm.trans hother
  simp only [PendingBatchScan.changed, hstate.batchId, hstate.maximumRequests,
    hstate.maximumSequence]
  rcases p.requested with hrequested | ⟨hrequested, -⟩ <;> simp [hrequested]

theorem ScanPlan.Begins.checks {room : Nat} (h : p.Begins listing room w) :
    (claimBatchChecks p.call w.session).result = .ok () := by
  have hlimits : ¬ (p.call.maximumScanEntries = 0 ∨ p.call.maximumRequests = 0) := by
    have hentries := p.entries
    have hrequests := p.requests
    omega
  have hready : w.session.Ready := by
    rcases h with ⟨-, hready, -⟩ | ⟨-, -, -, -, hready, -⟩
    · exact hready
    · exact hready
  unfold claimBatchChecks
  simp only [Reading.result_bind, Reading.result_lift, lockQueue_result, hlimits, rejectIf_false,
    ensureRecoveryComplete, hready.1, hready.2, Option.isSome_none, if_true, Bool.false_eq_true,
    ok_bind]
  rcases hscan : w.session.pendingScan with _ | scan
  · rfl
  · rcases h with ⟨hnone, -⟩ | hover
    · cases hscan.symm.trans hnone
    · simp [hover.not_changed hscan]

theorem openScan_wp {room : Nat} (h : p.Begins listing room w) :
    quietly A (openScan p.call listing) (fun _ w' => ScansOver p listing room w')
      (fun _ _ => False) w := by
  refine wp_bind (quietly_look ?_)
  rcases h with ⟨hscan, hready, hdisk, rfl⟩ | hover
  · have hbound := p.bound
    have hboundary : (scanBoundary p.call w.disk).result = .ok p.boundary := by
      rw [hdisk]
      simp only [scanBoundary, Reading.result_bind, Reading.result_lift, Reading.result_pure,
        Reading.result_call, currentMaximumSequence_result, ok_bind]
      rcases p.requested with hrequested | ⟨hrequested, hlast⟩
      · simp only [hrequested, Option.getD_some]
        rw [rejectIf, if_neg (by omega)]
        rfl
      · simp only [hrequested, Option.getD_none]
        rw [rejectIf, if_neg (by omega), ← hlast]
        rfl
    rw [hscan]
    refine wp_bind (quietly_read (fun boundary hok => ?_) fun e herror => ?_)
    · cases hboundary.symm.trans hok
      refine wp_step trivial ⟨[], listing, [], List.Perm.refl _, hready, _, rfl, ?_⟩
      exact {
        batchId := rfl
        maximumRequests := rfl
        maximumSequence := rfl
        cursor := ⟨[], by simp, by simp⟩
        room := .inr le_rfl
        candidates := by simp [Least.least]
        failures := rfl
        evolved := hdisk ▸ Evolved.refl
        steady := .inr (congrArg QueueDisk.nextSequence hdisk)
        nodup := List.nodup_nil
        rejected := by simp
        condemned := by simp
        passed := by simp }
    · rw [hboundary] at herror
      cases herror
  · have hsome : w.scan.isSome := by
      obtain ⟨-, -, -, -, -, scan, hscan, -⟩ := hover
      simp [hscan]
    rw [hsome]
    exact wp_pure hover

/-- One call goes on with the scan, or ends it. -/
theorem claimBatch_wp {room : Nat} (hA : p.Admits A) (hlists : Lists p.start listing)
    (h : p.Begins listing room w) :
    quietly A (claimBatch p.q p.call listing)
      (fun outcome w' => p.Ends listing outcome w' ∨
        (∃ scanned retained failed, outcome = .scanning scanned retained failed) ∧
        (p.moving ∨ p.call.maximumScanEntries ≤ room) ∧
        ScansOver p listing (room - p.call.maximumScanEntries) w')
      (fun _ _ => ¬ Unblocked p.q p.boundary p.start) w := by
  refine wp_bind (quietly_read (fun _ _ => ?_) fun e herror => ?_)
  · refine wp_bind (wp_mono (openScan_wp h) (fun _ w' hover => ?_) fun _ _ he => he.elim)
    refine wp_bind (wp_mono (scanPending_wp hA hlists _ hover) ?_ fun _ _ he => he)
    rintro (_ | _) w'' hscanned
    · refine quietly_look (.inr ⟨?_, hscanned⟩)
      obtain ⟨-, -, -, -, -, scan, hscan, -⟩ := hscanned.2
      rw [hscan]
      exact ⟨_, _, _, rfl⟩
    · exact wp_mono (claimCandidates_wp hA hlists hscanned) (fun _ _ hends => .inl hends)
        fun _ _ he => he
  · rw [h.checks] at herror
    cases herror

/-- If no more requests come in, as many calls are enough as the cursor has entries. -/
theorem claimUntilDone_wp {room calls : Nat} (hA : p.Admits A) (hlists : Lists p.start listing)
    (hstill : ¬ p.moving) (hcalls : room ≤ calls) (h : p.Begins listing room w) :
    quietly A (claimUntilDone p.q p.call listing calls)
      (fun outcome w' => p.Ends listing outcome w')
      (fun _ _ => ¬ Unblocked p.q p.boundary p.start) w := by
  have hentries := p.entries
  induction calls generalizing room w with
  | zero =>
      refine wp_mono (claimBatch_wp hA hlists h) ?_ fun _ _ he => he
      rintro outcome w' (hends | ⟨-, hmoving | hroom, -⟩)
      · exact hends
      · exact absurd hmoving hstill
      · omega
  | succ calls ih =>
      refine wp_bind (wp_mono (claimBatch_wp hA hlists h) ?_ fun _ _ he => he)
      rintro outcome w' (hends | ⟨⟨scanned, retained, failed, rfl⟩, hmoving | hroom, hover⟩)
      · obtain ⟨claims, failed, rfl, -⟩ := hends.selected
        exact wp_pure hends
      · exact absurd hmoving hstill
      · have hscans := hover
        obtain ⟨seen, rest, moved, -, hscans⟩ := hscans
        exact wp_bind (wp_mono (quietly_others hA hscans.pos hover fun hgrew => absurd hgrew.2 hstill)
          (fun _ w'' hover => ih (by omega) (.inr hover)) fun _ _ he => he)

/-! ### A whole scan -/

/-- The plan once no more requests come in. -/
def ScanPlan.still (p : ScanPlan) : ScanPlan := { p with moving := False }

theorem ScanPlan.Begins.still {room : Nat} (h : p.Begins listing room w) :
    ∃ room, p.still.Begins listing room w := by
  rcases h with hfresh | ⟨seen, rest, moved, hwhole, hready, scan, hscan, hstate⟩
  · exact ⟨room, .inl hfresh⟩
  · exact ⟨scan.entries.length, .inr ⟨seen, rest, moved, hwhole, hready, scan, hscan,
      { hstate with room := .inr le_rfl }⟩⟩

/-- How a run of repeated calls ends: with the selection, or with an error because
something blocks the scan. -/
def ScanPlan.Settled (p : ScanPlan) (listing : List DirectoryEntry) (w : QueueWorld)
    (out : Outcome QueueWorld QueueMove IoSite WorkerQueueError BatchClaimOutcome) : Prop :=
  (∃ outcome, out.result = .ok outcome ∧ p.Ends listing outcome (out.last w)) ∨
    (∃ e, out.result = .error e) ∧ ¬ Unblocked p.q p.boundary p.start

/-- The run of another call after one that returned `Scanning`. -/
theorem claimUntilDone_succ {q : QueueSetup} {call : ClaimBatchCall}
    {o : Oracle QueueMove IoSite} {scanned retained failed : Nat} (calls : Nat)
    (h : (claimBatch q call listing w o).result = .ok (.scanning scanned retained failed)) :
    let out := claimBatch q call listing w o
    let next := others (out.last w) out.oracle
    let final := claimUntilDone q call listing calls (next.last (out.last w)) next.oracle
    (claimUntilDone q call listing (calls + 1) w o).result = final.result ∧
      (claimUntilDone q call listing (calls + 1) w o).last w = final.last (next.last (out.last w)) := by
  intro out next final
  have hothers : next.result = .ok () := by
    simp only [next, others, Program.yield]
    split <;> rfl
  unfold claimUntilDone
  rw [Program.bind_of_ok h]
  dsimp only
  rw [Program.bind_of_ok hothers]
  refine ⟨rfl, ?_⟩
  rw [Outcome.last, getLastD_append, getLastD_append]
  rfl

/-- A call that fails is not repeated. -/
theorem claimUntilDone_of_error {q : QueueSetup} {call : ClaimBatchCall}
    {o : Oracle QueueMove IoSite} {e : WorkerQueueError}
    (h : (claimBatch q call listing w o).result = .error e) (calls : Nat) :
    (claimUntilDone q call listing calls w o).result = .error e := by
  cases calls with
  | zero => exact h
  | succ calls =>
      unfold claimUntilDone
      rw [Program.bind_of_error h]

/-- A run that has claimed its batch is over. -/
theorem claimUntilDone_of_claimed {q : QueueSetup} {call : ClaimBatchCall}
    {o : Oracle QueueMove IoSite} {failed : Nat}
    (h : (claimBatch q call listing w o).result = .ok (.claimed claims failed)) (calls : Nat) :
    (claimUntilDone q call listing calls w o).result = .ok (.claimed claims failed) ∧
      (claimUntilDone q call listing calls w o).last w = (claimBatch q call listing w o).last w := by
  cases calls with
  | zero => exact ⟨h, rfl⟩
  | succ calls =>
      unfold claimUntilDone
      rw [Program.bind_of_ok h]
      refine ⟨rfl, ?_⟩
      rw [Outcome.last, getLastD_append]
      rfl

/-- What others do between two calls keeps a scan, and uses up a move if there is one. -/
theorem ScansOver.others {room : Nat} {o : Oracle QueueMove IoSite} (hA : p.Admits A)
    (ho : o.Obeys (fun _ => False) A) (h : ScansOver p listing room w) :
    ScansOver p listing room ((others w o).last w) ∧
      (others w o).oracle.Obeys (fun _ => False) A ∧
      ((others w o).oracle.moves.length < o.moves.length ∨ o.moves = []) := by
  obtain ⟨seen, rest, moved, hwhole, hscans⟩ := h
  unfold AgentKnowledge.others Program.yield
  rcases hmoves : o.moves with _ | ⟨move, rest⟩
  · exact ⟨⟨seen, _, moved, hwhole, hscans⟩, ho, .inr rfl⟩
  · have hallowed := hA move (ho.moves move (by rw [hmoves]; exact List.mem_cons_self))
    refine ⟨⟨seen, _, moved, hwhole, hscans.arrivals hallowed.1 (hallowed.2 w hscans.pos)⟩,
      ⟨ho.faults, fun other hother => ?_⟩, .inl (Nat.lt_succ_self _)⟩
    exact ho.moves other (by rw [hmoves]; exact List.mem_cons_of_mem _ hother)

theorem claimUntilDone_settled {room calls : Nat} {o : Oracle QueueMove IoSite}
    (hA : p.Admits A) (hlists : Lists p.start listing) (hstill : ¬ p.moving)
    (ho : o.Obeys (fun _ => False) A) (hcalls : room ≤ calls) (h : p.Begins listing room w) :
    p.Settled listing w (claimUntilDone p.q p.call listing calls w o) := by
  obtain ⟨-, -, hok, herror⟩ := claimUntilDone_wp hA hlists hstill hcalls h o ho
  cases hresult : (claimUntilDone p.q p.call listing calls w o).result with
  | ok outcome => exact .inl ⟨outcome, hresult, hok outcome hresult⟩
  | error e => exact .inr ⟨⟨e, hresult⟩, herror e hresult⟩

/-- Whatever comes in during a scan, enough calls end it. -/
theorem claimUntilDone_spec {room : Nat} {o : Oracle QueueMove IoSite} (hA : p.Admits A)
    (hlists : Lists p.start listing) (ho : o.Obeys (fun _ => False) A)
    (h : p.Begins listing room w) :
    ∃ enough, ∀ calls, enough ≤ calls →
      p.Settled listing w (claimUntilDone p.q p.call listing calls w o) := by
  -- On the moves that are left: a call between two moves uses one up, and without moves
  -- the cursor runs dry.
  induction hmoves : o.moves.length using Nat.strong_induction_on generalizing o w room with
  | _ moves ih =>
    rcases hnone : o.moves with _ | ⟨move, rest⟩
    · obtain ⟨room, hbegins⟩ := h.still
      refine ⟨room, fun calls hcalls => ?_⟩
      have hquiet : o.Obeys (fun _ => False) (fun _ => False) :=
        ⟨ho.faults, by rw [hnone]; rintro move ⟨⟩⟩
      have hadmits : p.still.Admits fun _ => False := by rintro move ⟨⟩
      rcases claimUntilDone_settled hadmits hlists id hquiet hcalls hbegins with
        ⟨outcome, hresult, hends⟩ | herror
      · exact .inl ⟨outcome, hresult, hends.selected, hends.steady, hends.passable⟩
      · exact .inr herror
    · obtain ⟨-, hleaves, hok, herror⟩ := claimBatch_wp hA hlists h o ho
      cases hresult : (claimBatch p.q p.call listing w o).result with
      | error e =>
          exact ⟨0, fun calls _ => .inr ⟨⟨e, claimUntilDone_of_error hresult calls⟩, herror e hresult⟩⟩
      | ok outcome =>
          rcases hok outcome hresult with hends | ⟨⟨scanned, retained, failed, rfl⟩, -, hover⟩
          · obtain ⟨claims, failed, rfl, -⟩ := hends.selected
            refine ⟨0, fun calls _ => .inl ⟨.claimed claims failed, ?_⟩⟩
            obtain ⟨hagain, hlast⟩ := claimUntilDone_of_claimed hresult calls
            exact ⟨hagain, hlast ▸ hends⟩
          · obtain ⟨hover, hobeys, hused⟩ := hover.others hA hleaves.obeys
            have hfewer : (others ((claimBatch p.q p.call listing w o).last w)
                (claimBatch p.q p.call listing w o).oracle).oracle.moves.length < moves := by
              have hleft := hleaves.moves
              rw [hnone, List.length_cons] at hmoves hleft
              rcases hused with hused | hnil
              · omega
              · simp only [others, Program.yield, hnil, List.length_nil]
                omega
            obtain ⟨enough, hsettled⟩ := ih _ hfewer hobeys (.inr hover) rfl
            refine ⟨enough + 1, fun calls hcalls => ?_⟩
            obtain ⟨calls, rfl⟩ : ∃ k, calls = k + 1 := ⟨calls - 1, by omega⟩
            obtain ⟨hagain, hlast⟩ := claimUntilDone_succ calls hresult
            unfold ScanPlan.Settled
            rw [hagain, hlast]
            exact hsettled calls (by omega)

end Claims

end AgentKnowledge
