import AgentKnowledge.Queue.Pending

/-!
When the Worker closes a batch (`crates/worker/src/schedule.rs`, and its use by
`poll_once_interruptible` in `crates/worker/src/runtime.rs`).

The Worker observes `pending/`, decides from the finished snapshot whether a batch is due, and if it
is claims the requests up to the boundary of the snapshot. `scheduling_exact` says what holds of the
three together: the snapshot is exact, the decision has one turning point in time, and a batch that
is closed does something. The last has exceptions, for the observation reads less of a directory
than the claim does; `Movable` excludes exactly these.
-/

namespace AgentKnowledge

open Results Durable

/-! ### The decision -/

/-- Time thresholds that decide when accumulated pending work closes, in nanoseconds. -/
structure BatchSchedule where
  debounce : Int
  maximumAge : Int
  debounce_pos : 0 < debounce
  maximumAge_pos : 0 < maximumAge

inductive BatchCloseReason where
  | invalidAcceptance
  | maximumRequests
  | maximumAge
  | debounce
deriving DecidableEq

/-- Current decision for one fixed pending snapshot. -/
inductive BatchReadiness where
  | empty
  | waiting (readyAt : OffsetDateTime)
  | ready (reason : BatchCloseReason)
deriving DecidableEq

section Readiness

-- `OffsetDateTime::saturating_add` of the time library, with a number of nanoseconds.
variable (saturatingAdd : OffsetDateTime → Int → OffsetDateTime)

/-- `readiness_for`. -/
def readinessFor (requests : Nat) (hasInvalidAcceptance : Bool)
    (oldestAcceptedAt newestAcceptedAt : Option OffsetDateTime) (maximumRequests : Nat)
    (schedule : BatchSchedule) (now : OffsetDateTime) : BatchReadiness :=
  if requests = 0 then .empty
  else if hasInvalidAcceptance then .ready .invalidAcceptance
  else if maximumRequests ≤ requests then .ready .maximumRequests
  else match oldestAcceptedAt, newestAcceptedAt with
    | none, _ => .ready .invalidAcceptance
    | some _, none => .ready .invalidAcceptance
    | some oldest, some newest =>
        let maximumAgeAt := saturatingAdd oldest schedule.maximumAge
        let debounceAt := saturatingAdd newest schedule.debounce
        if maximumAgeAt.instant ≤ now.instant then .ready .maximumAge
        else if debounceAt.instant ≤ now.instant then .ready .debounce
        else .waiting (maximumAgeAt.earlier debounceAt)

/-- `readiness`. -/
def BatchSchedule.readiness (schedule : BatchSchedule) (snapshot : PendingSnapshot)
    (maximumRequests : Nat) (now : OffsetDateTime) : BatchReadiness :=
  readinessFor saturatingAdd snapshot.requests snapshot.hasInvalidAcceptance
    snapshot.oldestAcceptedAt snapshot.newestAcceptedAt maximumRequests schedule now

variable {saturatingAdd} {schedule : BatchSchedule} {snapshot : PendingSnapshot} {n : Nat}
  {now readyAt : OffsetDateTime}

/-- When the decision is to wait. -/
theorem readiness_eq_waiting :
    schedule.readiness saturatingAdd snapshot n now = .waiting readyAt ↔
      snapshot.requests ≠ 0 ∧ snapshot.hasInvalidAcceptance = false ∧ snapshot.requests < n ∧
        ∃ oldest newest, snapshot.oldestAcceptedAt = some oldest ∧
          snapshot.newestAcceptedAt = some newest ∧
          readyAt = (saturatingAdd oldest schedule.maximumAge).earlier
            (saturatingAdd newest schedule.debounce) ∧ now.instant < readyAt.instant := by
  unfold BatchSchedule.readiness readinessFor
  by_cases hrequests : snapshot.requests = 0
  · simp [hrequests]
  by_cases hinvalid : snapshot.hasInvalidAcceptance
  · simp [hrequests, hinvalid]
  by_cases hfull : n ≤ snapshot.requests
  · simp [hrequests, hinvalid, hfull]
  cases snapshot.oldestAcceptedAt with
  | none => simp [hrequests, hinvalid, hfull]
  | some oldest =>
      cases snapshot.newestAcceptedAt with
      | none => simp [hrequests, hinvalid, hfull]
      | some newest =>
          have hpoint := OffsetDateTime.instant_earlier (saturatingAdd oldest schedule.maximumAge)
            (saturatingAdd newest schedule.debounce)
          rw [if_neg hrequests, if_neg hinvalid, if_neg hfull]
          constructor
          · intro h
            dsimp only at h
            split_ifs at h with hage hdebounce
            cases h
            exact ⟨hrequests, eq_false_of_ne_true hinvalid, Nat.lt_of_not_le hfull, oldest, newest,
              rfl, rfl, rfl, by omega⟩
          · rintro ⟨-, -, -, _, _, ⟨⟩, ⟨⟩, rfl, hbefore⟩
            dsimp only
            rw [if_neg (by omega), if_neg (by omega)]

theorem readiness_cases (saturatingAdd : OffsetDateTime → Int → OffsetDateTime)
    (schedule : BatchSchedule) (snapshot : PendingSnapshot) (n : Nat) (now : OffsetDateTime)
    (hrequests : snapshot.requests ≠ 0) :
    (∃ reason, schedule.readiness saturatingAdd snapshot n now = .ready reason) ∨
      ∃ readyAt, schedule.readiness saturatingAdd snapshot n now = .waiting readyAt := by
  cases hready : schedule.readiness saturatingAdd snapshot n now with
  | empty =>
      unfold BatchSchedule.readiness readinessFor at hready
      rw [if_neg hrequests] at hready
      split_ifs at hready
      split at hready
      · cases hready
      · cases hready
      · dsimp only at hready
        split_ifs at hready
  | waiting readyAt => exact .inr ⟨readyAt, rfl⟩
  | ready reason => exact .inl ⟨reason, rfl⟩

/-- A snapshot that waits once waits until its turning point and is ready from then on. -/
theorem readiness_of_waiting
    (h : schedule.readiness saturatingAdd snapshot n now = .waiting readyAt) (t : OffsetDateTime) :
    (t.instant < readyAt.instant →
      schedule.readiness saturatingAdd snapshot n t = .waiting readyAt) ∧
    (readyAt.instant ≤ t.instant →
      ∃ reason, schedule.readiness saturatingAdd snapshot n t = .ready reason) := by
  obtain ⟨hrequests, hinvalid, hfull, oldest, newest, holdest, hnewest, rfl, -⟩ :=
    readiness_eq_waiting.1 h
  constructor
  · intro hbefore
    exact readiness_eq_waiting.2
      ⟨hrequests, hinvalid, hfull, oldest, newest, holdest, hnewest, rfl, hbefore⟩
  · intro hafter
    refine (readiness_cases saturatingAdd schedule snapshot n t hrequests).resolve_right ?_
    rintro ⟨readyAt, hwaiting⟩
    obtain ⟨-, -, -, oldest', newest', holdest', hnewest', rfl, hbefore⟩ :=
      readiness_eq_waiting.1 hwaiting
    cases holdest.symm.trans holdest'
    cases hnewest.symm.trans hnewest'
    exact absurd hbefore (Int.not_lt.2 hafter)

/-- A snapshot with requests is ready at some time. -/
theorem exists_ready (saturatingAdd : OffsetDateTime → Int → OffsetDateTime)
    (schedule : BatchSchedule) (n : Nat) (hrequests : snapshot.requests ≠ 0) :
    ∃ now reason, schedule.readiness saturatingAdd snapshot n now = .ready reason := by
  rcases readiness_cases saturatingAdd schedule snapshot n QueueSample.now
    hrequests with ⟨reason, hready⟩ | ⟨readyAt, hwaiting⟩
  · exact ⟨_, reason, hready⟩
  · exact ⟨readyAt, (readiness_of_waiting hwaiting readyAt).2 le_rfl⟩

end Readiness

/-! ### The three together -/

/-- Whatever the order of the directory, the sizes of the pieces and the requests that come in, an
observation opened on `s` ends and is exact. -/
def ObservesExactly (q : QueueSetup) (s : QueueDisk) : Prop :=
  ∀ view listing session limit limits, view 0 = s → Enumerates q view listing →
    (∀ limit' ∈ limit :: limits, 0 < limit') →
    (∀ snapshot, (observePending q view session listing limit limits none).result =
        .ok (.complete snapshot) → snapshot.Describes q (comparedWith view listing) s) ∧
      (session.Observes → s.foreign .pending = [] → listing.length < (limit :: limits).sum →
        ∃ snapshot, (observePending q view session listing limit limits none).result =
          .ok (.complete snapshot))

/-- The decision on a snapshot has one turning point. -/
def DecidesOnce (saturatingAdd : OffsetDateTime → Int → OffsetDateTime) : Prop :=
  ∀ (schedule : BatchSchedule) snapshot n now readyAt,
    schedule.readiness saturatingAdd snapshot n now = .waiting readyAt →
    ∀ t : OffsetDateTime,
      (t.instant < readyAt.instant →
        schedule.readiness saturatingAdd snapshot n t = .waiting readyAt) ∧
      (readyAt.instant ≤ t.instant →
        ∃ reason, schedule.readiness saturatingAdd snapshot n t = .ready reason)

/-- If no attempts are used up, a batch that is closed after an observation of `s` claims or fails a
request. -/
def ClosesEffectively (q : QueueSetup) (saturatingAdd : OffsetDateTime → Int → OffsetDateTime)
    (s : QueueDisk) : Prop :=
  (∀ id stored, s.slot .pending id = some stored → ¬ Exhausted q (s.nextSequence - 1) id stored) →
  ∀ session listing limit limits snapshot, Lists s listing →
    (∀ limit' ∈ limit :: limits, 0 < limit') →
    (observePending q (fun _ => s) session listing limit limits none).result =
      .ok (.complete snapshot) →
    ∀ (schedule : BatchSchedule) n now reason, 0 < n →
      schedule.readiness saturatingAdd snapshot n now = .ready reason →
      ∀ batchId clock chunk listing' o, 0 < chunk → Lists s listing' →
        Oracle.Obeys (fun _ => False) (fun _ => False) o →
        ∃ enough, ∀ calls, enough ≤ calls → ∃ claims failed,
          (batchRun q (claimThrough batchId snapshot.maximumSequence chunk n clock) listing' calls s
            o).result = .ok (.claimed claims failed) ∧ (claims ≠ [] ∨ 0 < failed)

/-- The pending directories are the only ones of their requests, and those that are damaged have room
for a result record. -/
structure Movable (q : QueueSetup) (s : QueueDisk) : Prop where
  single : ∀ id stored, s.slot .pending id = some stored → s.Located id .pending stored
  results : ∀ id stored, s.slot .pending id = some stored →
    Damaged q (s.nextSequence - 1) id stored → stored.result ≠ some .other

section Scheduling

variable {q : QueueSetup} {saturatingAdd : OffsetDateTime → Int → OffsetDateTime} {s : QueueDisk}
  {b : Nat} {id : RequestId} {stored : StoredPackage} {listing : List DirectoryEntry}

theorem observesExactly (q : QueueSetup) (s : QueueDisk) : ObservesExactly q s := by
  rintro view listing session limit limits rfl henumerates hlimits
  have hpos : ∀ n, 0 < (view n).nextSequence := fun n =>
    Nat.lt_of_lt_of_le henumerates.positive (henumerates.mono (Nat.zero_le n))
  constructor
  · intro snapshot hresult
    obtain ⟨-, hrequests, -, rfl⟩ := (observePending_opened_eq_ok hpos hlimits).1 hresult
    exact henumerates.describes hrequests
  · intro hsession hforeign hlength
    have hrequests : ∀ entry ∈ listing, entry.requestId?.isSome := by
      rintro (id | detail) hmem
      · rfl
      · rw [henumerates.foreign, hforeign] at hmem
        cases hmem
    exact ⟨_, (observePending_opened_eq_ok hpos hlimits).2 ⟨hsession, hrequests, hlength, rfl⟩⟩

/-- A directory that does not change while it is observed. -/
theorem Lists.enumerates (hlists : Lists s listing) (hpos : 0 < s.nextSequence) :
    Enumerates q (fun _ => s) listing where
  positive := hpos
  accepts _ := .refl
  once := hlists.once
  all id h := (hlists.requests id).2 h
  origin _ id h := .inl ((hlists.requests id).1 (List.mem_of_getElem? h))
  foreign := hlists.foreign

/-- At the last sequence that was given out, a directory is claimed or rejected unless its attempts
are used up. -/
theorem pending_cases (hb : b + 1 = s.nextSequence) (hattempts : ¬ Exhausted q b id stored) :
    (∃ sequence, Eligible q b id stored sequence) ∨ Damaged q b id stored ∨
      ∃ sequence, Sequenced q id stored sequence ∧ s.nextSequence ≤ sequence := by
  by_cases hsequenced : ∃ sequence, Sequenced q id stored sequence
  · obtain ⟨sequence, hsequenced⟩ := hsequenced
    by_cases hbound : sequence ≤ b
    · by_cases hattempt : ∃ previous, stored.AttemptIs q.x id previous
      · obtain ⟨previous, hprevious⟩ := hattempt
        refine .inl ⟨sequence, hbound, hsequenced, previous, hprevious, ?_⟩
        exact Nat.lt_of_not_le fun hlimit =>
          hattempts ⟨sequence, hbound, hsequenced, previous, hprevious, hlimit⟩
      · exact .inr (.inl (.inr ⟨sequence, hbound, hsequenced, fun previous hprevious =>
          hattempt ⟨previous, hprevious⟩⟩))
    · exact .inr (.inr ⟨sequence, hsequenced, by omega⟩)
  · exact .inr (.inl (.inl fun sequence h => hsequenced ⟨sequence, h⟩))

theorem unblocked_iff_movable (hpos : 0 < s.nextSequence) (hforeign : s.foreign .pending = [])
    (hattempts : ∀ id stored, s.slot .pending id = some stored →
      ¬ Exhausted q (s.nextSequence - 1) id stored) :
    Unblocked q (s.nextSequence - 1) s ↔ Movable q s := by
  constructor
  · intro h
    refine ⟨fun id stored hslot => ?_, h.results⟩
    rcases pending_cases (Nat.sub_add_cancel hpos) (hattempts id stored hslot) with
      ⟨sequence, heligible⟩ | hdamaged | ⟨sequence, hsequenced, hnext⟩
    · obtain ⟨other, hlocated⟩ := h.eligible ⟨sequence, id⟩ ⟨stored, hslot, heligible⟩
      cases hslot.symm.trans hlocated.here
      exact hlocated
    · exact h.damaged id stored hslot hdamaged
    · exact h.unallocated id stored sequence hslot hsequenced hnext
  · intro h
    exact {
      foreign := hforeign
      attempts := hattempts
      results := h.results
      damaged := fun id stored hslot _ => h.single id stored hslot
      unallocated := fun id stored _ hslot _ _ => h.single id stored hslot
      eligible := fun candidate ⟨stored, hslot, _⟩ => ⟨stored, h.single _ stored hslot⟩ }

/-- A snapshot of a directory that does not change counts its requests, and none only if there are
none. -/
theorem requests_ne_zero_iff {snapshot : PendingSnapshot} {next : RequestId → Nat}
    (h : snapshot.Describes q next s) (hnext : ∀ id, next id = s.nextSequence) :
    snapshot.requests ≠ 0 ↔ ∃ id, s.slot .pending id ≠ none := by
  have hfinite : ∀ S : Set RequestId, S.Finite := fun S => S.toFinite
  rw [h.requests, ne_eq, Nat.add_eq_zero_iff, Set.ncard_eq_zero (hfinite _),
    Set.ncard_eq_zero (hfinite _), not_and_or, ← ne_eq, ← ne_eq, ← Set.nonempty_iff_ne_empty,
    ← Set.nonempty_iff_ne_empty]
  constructor
  · rintro (⟨id, _, stored, _, hslot, -⟩ | ⟨id, stored, hslot, -⟩)
    · exact ⟨id, by simp [hslot]⟩
    · exact ⟨id, by simp [hslot]⟩
  · rintro ⟨id, hpending⟩
    obtain ⟨stored, hslot⟩ := Option.ne_none_iff_exists'.1 hpending
    by_cases hbound : ∃ acceptance, stored.readableAcceptance q.x = some acceptance ∧
        acceptance.sequence ≤ snapshot.maximumSequence
    · obtain ⟨acceptance, hacceptance, hbound⟩ := hbound
      exact .inl ⟨id, _, stored, acceptance, hslot, hacceptance, hbound, rfl⟩
    · refine .inr ⟨id, stored, hslot, fun acceptance hacceptance => ?_⟩
      rw [hnext, ← h.boundary]
      exact Nat.lt_of_not_le fun hle => hbound ⟨acceptance, hacceptance, hle⟩

/-- A batch that has read a nonempty directory has claimed or failed a request. -/
theorem selected_effective {n failed : Nat} {batchId : BatchId} {claims : List QueueClaim}
    {s' : QueueDisk} (hb : b + 1 = s.nextSequence) (hn : 0 < n) (hlists : Lists s listing)
    (hslot : s.slot .pending id = some stored) (hattempts : ¬ Exhausted q b id stored)
    (h : Selected q b batchId s (chosenFrom q b s n listing) claims failed s')
    (hsteady : s'.nextSequence = s.nextSequence) : claims ≠ [] ∨ 0 < failed := by
  obtain ⟨horder, moved, -, rfl, -, hdamaged, hunallocated, -⟩ := h
  rcases pending_cases hb hattempts with ⟨sequence, heligible⟩ | hbad | ⟨sequence, hsequenced, hnext⟩
  · left
    rintro rfl
    have hchosen : chosenFrom q b s n listing = [] := List.map_eq_nil_iff.1 horder.symm
    have hmem : (⟨sequence, id⟩ : PendingCandidate) ∈ listing.filterMap (candidateOf q b s) :=
      hlists.mem_candidates.2 ⟨stored, hslot, heligible⟩
    have hlength : (chosenFrom q b s n listing).length = min n _ := Least.length_least _
    rw [hchosen, List.length_nil] at hlength
    have hpositive := List.length_pos_of_mem hmem
    omega
  · exact .inr (List.length_pos_of_mem (hdamaged id stored hslot hbad))
  · exact .inr (List.length_pos_of_mem
      (hunallocated id stored sequence hslot hsequenced (hsteady ▸ hnext)))

theorem closesEffectively_of_movable (hpos : 0 < s.nextSequence)
    (hmovable : s.foreign .pending = [] →
      (∀ id stored, s.slot .pending id = some stored →
        ¬ Exhausted q (s.nextSequence - 1) id stored) → Movable q s) :
    ClosesEffectively q saturatingAdd s := by
  intro hattempts session listing limit limits snapshot hlists hlimits hresult schedule n now reason hn
    hready batchId clock chunk listing' o hchunk hlists' ho
  obtain ⟨-, hrequests, -, -⟩ := (observePending_opened_eq_ok (fun _ => hpos) hlimits).1 hresult
  have hdescribes := (observesExactly q s _ listing session limit limits rfl
    (hlists.enumerates hpos) hlimits).1 snapshot hresult
  have hforeign : s.foreign .pending = [] := by
    refine List.eq_nil_iff_forall_not_mem.2 fun detail hdetail => ?_
    cases hrequests _ ((hlists.foreign detail).2 hdetail)
  have hboundary : snapshot.maximumSequence = s.nextSequence - 1 :=
    Nat.eq_sub_of_add_eq hdescribes.boundary
  have hnonzero : snapshot.requests ≠ 0 := by
    intro hzero
    unfold BatchSchedule.readiness readinessFor at hready
    rw [if_pos hzero] at hready
    cases hready
  obtain ⟨id, hpending⟩ := (requests_ne_zero_iff hdescribes fun _ => rfl).1 hnonzero
  obtain ⟨stored, hslot⟩ := Option.ne_none_iff_exists'.1 hpending
  rw [hboundary]
  let call := claimThrough batchId (s.nextSequence - 1) chunk n clock
  have hreaches : call.Reaches (s.nextSequence - 1) s := .inl rfl
  obtain ⟨enough, hruns⟩ := selected_of_unblocked (Nat.sub_lt hpos Nat.one_pos)
    ((unblocked_iff_movable hpos hforeign hattempts).2 (hmovable hforeign hattempts)) hchunk hn
    hreaches hlists' ho
  refine ⟨enough, fun calls hcalls => ?_⟩
  obtain ⟨claims, failed, houtcome, hselected, hsteady⟩ := hruns calls hcalls
  exact ⟨claims, failed, houtcome, selected_effective (Nat.sub_add_cancel hpos) hn hlists' hslot
    (hattempts id stored hslot) hselected hsteady⟩

theorem movable_of_closesEffectively (hpos : 0 < s.nextSequence)
    (h : ClosesEffectively q saturatingAdd s) (hforeign : s.foreign .pending = [])
    (hattempts : ∀ id stored, s.slot .pending id = some stored →
      ¬ Exhausted q (s.nextSequence - 1) id stored) : Movable q s := by
  by_cases hempty : ∃ id, s.slot .pending id ≠ none
  · rw [← unblocked_iff_movable hpos hforeign hattempts]
    obtain ⟨listing, hlists⟩ := exists_lists s
    let session : WorkerSession := ⟨none, none, true⟩
    have hlimits : ∀ limit' ∈ [listing.length + 1], 0 < limit' := by simp
    obtain ⟨hexact, hends⟩ := observesExactly q s _ listing session (listing.length + 1) [] rfl
      (hlists.enumerates hpos) hlimits
    obtain ⟨snapshot, hsnapshot⟩ := hends rfl hforeign (by simp)
    have hdescribes := hexact snapshot hsnapshot
    have hboundary : snapshot.maximumSequence = s.nextSequence - 1 :=
      Nat.eq_sub_of_add_eq hdescribes.boundary
    obtain ⟨now, reason, hready⟩ := exists_ready saturatingAdd
      ⟨1, 1, Int.one_pos, Int.one_pos⟩ (listing.length + 1)
      ((requests_ne_zero_iff hdescribes fun _ => rfl).2 hempty)
    let batchId : BatchId := ⟨⟨0, by decide⟩⟩
    obtain ⟨enough, hruns⟩ := h hattempts session listing _ [] snapshot hlists hlimits hsnapshot _ _
      now reason (Nat.succ_pos _) hready batchId (fun _ => QueueSample.now) 1 listing .calm Nat.one_pos
      hlists Oracle.calm_obeys
    rw [hboundary] at hruns
    refine unblocked_of_returns (Nat.sub_lt hpos Nat.one_pos) hlists batchId (fun _ => QueueSample.now)
      ⟨enough, fun calls hcalls => ?_⟩
    obtain ⟨claims, failed, hresult, -⟩ := hruns calls hcalls
    exact ⟨_, hresult⟩
  · have hnone : ∀ id stored, s.slot .pending id ≠ some stored := by
      intro id stored hslot
      exact hempty ⟨id, by simp [hslot]⟩
    exact ⟨fun id stored hslot => absurd hslot (hnone id stored),
      fun id stored hslot => absurd hslot (hnone id stored)⟩

/-- Scheduling. Observations are exact and decisions have one turning point, and batches that are
closed do something exactly if what a batch rejects can be moved and what it claims is nowhere else. -/
theorem scheduling_exact (hpos : 0 < s.nextSequence) :
    (ObservesExactly q s ∧ DecidesOnce saturatingAdd ∧ ClosesEffectively q saturatingAdd s) ↔
      (s.foreign .pending = [] →
        (∀ id stored, s.slot .pending id = some stored →
          ¬ Exhausted q (s.nextSequence - 1) id stored) → Movable q s) := by
  constructor
  · rintro ⟨-, -, hcloses⟩
    exact movable_of_closesEffectively hpos hcloses
  · intro hmovable
    refine ⟨observesExactly q s, ?_, closesEffectively_of_movable hpos hmovable⟩
    intro schedule snapshot n now readyAt hwaiting t
    exact readiness_of_waiting hwaiting t

end Scheduling

/-! ### Samples -/

namespace QueueSample

theorem not_exhausted_pendingOnly {b next : Nat} {entries : List (RequestId × StoredPackage)}
    (h : entries.all fun entry =>
      (candidateOf setup b (pendingOnly next entries) (.request entry.1)).isSome ||
        !(inspectPackage setup entry.1 (pendingOnly next entries)).result.isOk)
    (id : RequestId) (stored : StoredPackage)
    (hslot : (pendingOnly next entries).slot .pending id = some stored) :
    ¬ Exhausted setup b id stored := by
  have hentry := List.all_eq_true.1 h _ (mem_of_pendingOnly hslot)
  simp only [Bool.or_eq_true, Bool.not_eq_true', Option.isSome_iff_exists] at hentry
  rcases hentry with ⟨candidate, hcandidate⟩ | hpackage
  · obtain ⟨hid, other, hother, heligible⟩ := candidateOf_eq_some.1 hcandidate
    cases hid
    cases hslot.symm.trans hother
    exact heligible.not_exhausted
  · rintro ⟨sequence, -, hsequenced, -⟩
    rw [(inspectPackage_eq_ok hslot).2 hsequenced] at hpackage
    cases hpackage

theorem movable_selection : Movable setup (pendingOnly 3 selection) :=
  ⟨fun _ _ => located_pendingOnly, (unblocked_pendingOnly (by decide +kernel)).results⟩

theorem scheduling_selection :
    0 < (pendingOnly 3 selection).nextSequence ∧
      ClosesEffectively setup (fun t _ => t) (pendingOnly 3 selection) := by
  have hpos : 0 < (pendingOnly 3 selection).nextSequence := by decide
  exact ⟨hpos, ((scheduling_exact hpos).2 fun _ _ => movable_selection).2.2⟩

/-- What the observation of a valid request and an immovable directory says. -/
def immovableSnapshot : PendingSnapshot where
  maximumSequence := 2
  requests := 2
  oldestAcceptedAt := some (upload 2).acceptedAt
  newestAcceptedAt := some (upload 2).acceptedAt
  hasInvalidAcceptance := true

/-- A batch that is closed in vain: the observation counts the damaged directory, so the batch is due
at once, but every claim stops at it, and the request beside it stays where it is. -/
theorem closes_in_vain :
    (∀ id stored, (pendingOnly 3 immovable).slot .pending id = some stored →
      ¬ Exhausted setup 2 id stored) ∧
    (observePending setup (fun _ => pendingOnly 3 immovable) ⟨none, none, true⟩ (listing immovable) 3 []
      none).result = .ok (.complete immovableSnapshot) ∧
    (∀ saturatingAdd (schedule : BatchSchedule) now,
      schedule.readiness saturatingAdd immovableSnapshot 2 now = .ready .invalidAcceptance) ∧
    (∀ calls, (batchRun setup (claimThrough (batchId 1) 2 1 2 fun _ => now) (listing immovable) calls
      (pendingOnly 3 immovable) .calm).result =
        .error (.corruptState (requestId 3) .pending "result metadata is not a regular file")) ∧
    ∀ saturatingAdd, ¬ ClosesEffectively setup saturatingAdd (pendingOnly 3 immovable) := by
  have hattempts : ∀ id stored, (pendingOnly 3 immovable).slot .pending id = some stored →
      ¬ Exhausted setup 2 id stored := not_exhausted_pendingOnly (by decide +kernel)
  have hobserved : (observePending setup (fun _ => pendingOnly 3 immovable) ⟨none, none, true⟩
      (listing immovable) 3 [] none).result = .ok (.complete immovableSnapshot) := by decide +kernel
  have hready : ∀ saturatingAdd (schedule : BatchSchedule) now,
      schedule.readiness saturatingAdd immovableSnapshot 2 now = .ready .invalidAcceptance :=
    fun _ _ _ => rfl
  have hcall : ∀ calls, (batchRun setup (claimThrough (batchId 1) 2 1 2 fun _ => now)
      (listing immovable) calls (pendingOnly 3 immovable) .calm).result =
        .error (.corruptState (requestId 3) .pending "result metadata is not a regular file") :=
    claimUntilDone_of_error (by decide +kernel)
  have hlists : Lists (pendingOnly 3 immovable) (listing immovable) := lists_pendingOnly (by decide)
  refine ⟨hattempts, hobserved, hready, hcall, fun saturatingAdd h => ?_⟩
  obtain ⟨enough, hruns⟩ := h hattempts _ _ 3 [] _ hlists (by simp) hobserved
    ⟨1, 1, Int.one_pos, Int.one_pos⟩ 2 now _ Nat.two_pos (hready _ _ _) (batchId 1) (fun _ => now) 1
    (listing immovable) .calm Nat.one_pos hlists Oracle.calm_obeys
  obtain ⟨claims, failed, hresult, -⟩ := hruns enough le_rfl
  cases (hcall enough).symm.trans hresult

end QueueSample

end AgentKnowledge
