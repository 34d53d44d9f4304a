import AgentKnowledge.Queue.Protocol
import AgentKnowledge.Queue.Records

/-!
The invariant of the queue over its histories.

`RequestEffect` says what an event of a history, cut or not, can do to one request.
The invariant of `Queue.Protocol` holds wherever a history went
(`queueInv_of_history`); with the order of the attempts it gives `queue_invariant`.
-/

namespace AgentKnowledge

open Results Durable

section Runs

variable {q : QueueSetup} {s : QueueDisk} {events : List QueueEvent} {id : RequestId}

/-- The invariant holds wherever a history went, and what was there got on. -/
theorem queueInv_of_history (h : QueueHistory q events s) :
    QueueInv q s ∧ ∀ v ∈ visited .empty events,
      QueueInv q v ∧ Relation.ReflTransGen (QueueStep q) v s :=
  h.reflTransGen (QueueInv.empty q) (fun _ call o => perform_chain call o)
    fun _ _ hinv hstep => hstep.inv hinv

/-- A call of a history did a part of what the operation does undisturbed, and all of
it if it succeeded. -/
theorem effect_of_runOf {event : QueueEvent} (h : event.RunOf (perform q))
    (hinv : QueueInv q event.before) :
    ∃ trail result, Effect q event.before event.call trail result ∧ event.trail <+: trail ∧
      ∀ reply, event.reply = some (.ok reply) → event.trail = trail ∧ result = .ok reply := by
  obtain ⟨o, hleading, hreply⟩ := h.run
  have hstraight := perform_straight q event.call
  refine ⟨_, _, perform_effect q hinv.next event.call, hleading.trans (hstraight.trail _ o), ?_⟩
  intro reply hevent
  obtain ⟨htrail, hresult⟩ := hreply _ hevent
  obtain ⟨hcalm, hfull⟩ := hstraight.result _ o reply hresult
  exact ⟨htrail.trans hfull, hcalm⟩

theorem QueueInv.event {event : QueueEvent} (h : QueueInv q event.before)
    (hrun : event.RunOf (perform q)) : QueueInv q event.after := by
  obtain ⟨trail, result, heffect, htaken, -⟩ := effect_of_runOf hrun h
  exact isChain_getLastD ( List.IsChain.prefix (heffect.chain h)
    ((List.prefix_cons_inj _).2 htaken)) h
    fun _ _ hinv hstep => hstep.inv hinv

theorem QueueInv.history {start : QueueDisk} (hinv : QueueInv q start)
    (h : History (perform q) start events s) : QueueInv q s :=
  h.event_induction (P := fun _ s => QueueInv q s) hinv fun _ _ ih hrun => ih.event hrun

/-- What was in the queue gets on. -/
theorem progress_history {start : QueueDisk} {state : QueueState} {stored : StoredPackage}
    (h : History (perform q) start events s) (hinv : QueueInv q start)
    (hlocated : start.Located id state stored) :
    ∃ state' stored', s.Located id state' stored' ∧ Progress q state stored state' stored' :=
  progress_of_reflTransGen ((h.reflTransGen hinv (fun _ call o => perform_chain call o)
    fun _ _ hinv hstep => hstep.inv hinv).2 start List.mem_cons_self).2 hlocated

/-- The request an operation is about. -/
def QueueCall.Targets (q : QueueSetup) (id : RequestId) : QueueCall → Prop
  | .accept upload => ∃ validated,
      (readIncomingPackage q.x q.policy upload.staged).result = .ok validated ∧
        validated.request.requestId = id
  | .claim target _ _ _ | .failPending target _ _ _ => target = id
  | .requeue token | .complete token _ | .fail token _ _ => token.requestId = id
  | .validate held => held.token.requestId = id

/-- What an operation can do to a request that is in the queue, with the part of it
that was carried out. -/
inductive RequestEffect (q : QueueSetup) (id : RequestId) : QueueCall →
    QueueState → StoredPackage → QueueState → StoredPackage → Prop where
  | same {call : QueueCall} {state : QueueState} {stored : StoredPackage} :
      RequestEffect q id call state stored state stored
  | marked {stored : StoredPackage} {batchId : BatchId} {now : OffsetDateTime}
      {prepared : ValidatedPackage} {record : WorkerPhaseRecord}
      (next : record.attempt = stored.attempt q.x + 1) (batch : record.batchId = batchId) :
      RequestEffect q id (.claim id batchId now prepared) .pending stored .pending
        (stored.withPhase q.x record)
  | claimed {stored : StoredPackage} {batchId : BatchId} {now : OffsetDateTime}
      {prepared : ValidatedPackage} {record : WorkerPhaseRecord}
      (next : record.attempt = stored.attempt q.x + 1) (batch : record.batchId = batchId) :
      RequestEffect q id (.claim id batchId now prepared) .pending stored .processing
        (stored.withPhase q.x record)
  | requeued {stored : StoredPackage} {token : ClaimToken} {record : WorkerPhaseRecord}
      (own : token.requestId = id) (phase : stored.HasPhase q.x id record)
      (names : record.names token) :
      RequestEffect q id (.requeue token) .processing stored .pending stored
  | completed {stored : StoredPackage} {token : ClaimToken} {now : OffsetDateTime}
      {record : WorkerPhaseRecord} (own : token.requestId = id)
      (phase : stored.HasPhase q.x id record) (names : record.names token)
      (absent : stored.result = none) :
      RequestEffect q id (.complete token now) .processing stored .completed stored
  | recorded {stored : StoredPackage} {token : ClaimToken} {errorCode : ErrorCode}
      {now : OffsetDateTime} {record : WorkerPhaseRecord} {state : QueueState}
      (target : state = .processing ∨ state = .failed) (own : token.requestId = id)
      (phase : stored.HasPhase q.x id record) (names : record.names token)
      (absent : stored.result = none) :
      RequestEffect q id (.fail token errorCode now) .processing stored state
        (stored.withResult q.x (resultRecord id token.batchId errorCode now))
  | failed {stored : StoredPackage} {token : ClaimToken} {errorCode : ErrorCode}
      {now : OffsetDateTime} {record : WorkerPhaseRecord} {found : WorkerResultRecord}
      (own : token.requestId = id) (phase : stored.HasPhase q.x id record)
      (names : record.names token) (result : stored.HasResult q.x found)
      (same : found.isOf token errorCode) :
      RequestEffect q id (.fail token errorCode now) .processing stored .failed stored
  | rejected {stored : StoredPackage} {batchId : BatchId} {errorCode : ErrorCode}
      {now : OffsetDateTime} {state : QueueState} (target : state = .pending ∨ state = .failed) :
      RequestEffect q id (.failPending id batchId errorCode now) .pending stored state
        (stored.withResult q.x (resultRecord id batchId errorCode now))

section Effects

variable {call : QueueCall} {trail taken : List QueueDisk}
  {result : Except WorkerQueueError QueueReply} {state : QueueState} {stored : StoredPackage}

/-- Other requests are left alone. -/
theorem Effect.frame (h : Effect q s call trail result) (htaken : taken <+: trail)
    (hother : ¬ call.Targets q id) (state : QueueState) :
    (taken.getLastD s).slot state id = s.slot state id := by
  cases h with
  | refused | existing | repeatedSuccess | repeatedFailure | validated =>
      rw [List.prefix_nil.1 htaken]
      rfl
  | accepted hincoming habsent hvalid =>
      rcases prefix_pair htaken with rfl | rfl | rfl
      · rfl
      · rfl
      · exact QueueDisk.slot_published_other (fun hid => hother ⟨_, hincoming, hid.symm⟩) state
  | claimed hclaimable hvalid | rejected hlocated hplain =>
      have hid : id ≠ _ := fun heq => hother heq.symm
      rcases prefix_pair htaken with rfl | rfl | rfl
      · rfl
      · exact QueueDisk.slot_modify_other hid state
      · exact (QueueDisk.slot_move_other hid _ _ _).trans (QueueDisk.slot_modify_other hid _)
  | requeued howned | completed howned habsent =>
      have hid : id ≠ _ := fun heq => hother heq.symm
      rcases prefix_single htaken with rfl | rfl
      · rfl
      · exact QueueDisk.slot_move_other hid _ _ _
  | failed howned hsettles =>
      have hid : id ≠ _ := fun heq => hother heq.symm
      cases hsettles with
      | failure habsent =>
          rcases prefix_pair htaken with rfl | rfl | rfl
          · rfl
          · exact QueueDisk.slot_modify_other hid state
          · exact (QueueDisk.slot_move_other hid _ _ _).trans (QueueDisk.slot_modify_other hid _)
      | again hresult hsame =>
          rcases prefix_single htaken with rfl | rfl
          · rfl
          · exact QueueDisk.slot_move_other hid _ _ _

/-- What any part of an operation does to a request in the queue. -/
theorem Effect.request (h : Effect q s call trail result) (htaken : taken <+: trail)
    (hlocated : s.Located id state stored) :
    ∃ state' stored', (taken.getLastD s).Located id state' stored' ∧
      RequestEffect q id call state stored state' stored' := by
  by_cases htarget : call.Targets q id
  swap
  · exact ⟨state, stored, hlocated.frame (h.frame htaken htarget), .same⟩
  have hunmoved : ∃ state' stored', s.Located id state' stored' ∧
      RequestEffect q id call state stored state' stored' := ⟨state, stored, hlocated, .same⟩
  cases h with
  | refused | existing | repeatedSuccess | repeatedFailure | validated =>
      rw [List.prefix_nil.1 htaken]
      exact hunmoved
  | accepted hincoming habsent hvalid =>
      obtain ⟨validated, hvalidated, rfl⟩ := htarget
      cases hincoming.symm.trans hvalidated
      exact absurd rfl (hlocated.ne_of_absent habsent)
  | @claimed _ _ _ _ _ previous hclaimable hvalid =>
      cases htarget
      obtain ⟨rfl, rfl⟩ := hclaimable.located.unique hlocated.here
      have hnext : previous + 1 = stored.attempt q.x + 1 := by rw [hclaimable.attempt.attempt]
      rcases prefix_pair htaken with rfl | rfl | rfl
      · exact hunmoved
      · exact ⟨_, _, hlocated.modify, .marked hnext rfl⟩
      · exact ⟨_, _, hlocated.modify.move (by decide), .claimed hnext rfl⟩
  | requeued howned =>
      cases htarget
      obtain ⟨rfl, rfl⟩ := howned.located.unique hlocated.here
      rcases prefix_single htaken with rfl | rfl
      · exact hunmoved
      · exact ⟨_, _, hlocated.move (by decide), .requeued rfl howned.phase howned.names⟩
  | completed howned habsent =>
      cases htarget
      obtain ⟨rfl, rfl⟩ := howned.located.unique hlocated.here
      rcases prefix_single htaken with rfl | rfl
      · exact hunmoved
      · exact ⟨_, _, hlocated.move (by decide), .completed rfl howned.phase howned.names habsent⟩
  | failed howned hsettles =>
      cases htarget
      obtain ⟨rfl, rfl⟩ := howned.located.unique hlocated.here
      cases hsettles with
      | failure habsent =>
          rcases prefix_pair htaken with rfl | rfl | rfl
          · exact hunmoved
          · exact ⟨_, _, hlocated.modify,
              .recorded (.inl rfl) rfl howned.phase howned.names habsent⟩
          · exact ⟨_, _, hlocated.modify.move (by decide),
              .recorded (.inr rfl) rfl howned.phase howned.names habsent⟩
      | again hresult hsame =>
          rcases prefix_single htaken with rfl | rfl
          · exact hunmoved
          · exact ⟨_, _, hlocated.move (by decide),
              .failed rfl howned.phase howned.names hresult hsame⟩
  | rejected hfound hplain =>
      cases htarget
      obtain ⟨rfl, rfl⟩ := hfound.unique hlocated.here
      rcases prefix_pair htaken with rfl | rfl | rfl
      · exact hunmoved
      · exact ⟨_, _, hlocated.modify, .rejected (.inl rfl)⟩
      · exact ⟨_, _, hlocated.modify.move (by decide), .rejected (.inr rfl)⟩

/-- A request that was not in the queue has been published by an acceptance, or is not
there yet. -/
theorem Effect.absent (h : Effect q s call trail result) (htaken : taken <+: trail)
    (habsent : s.Absent id) :
    (taken.getLastD s).Absent id ∨
      ∃ upload validated h, call = .accept upload ∧ taken = trail ∧
        (readIncomingPackage q.x q.policy upload.staged).result = .ok validated ∧
        validated.request.requestId = id ∧
        result = .ok (.enqueued (.accepted id validated.digest)) ∧
        (taken.getLastD s).Located id .pending (acceptedPackage q.x upload.staged validated.digest
          ⟨s.nextSequence, upload.acceptedAt, upload.clientId, h⟩) := by
  by_cases htarget : call.Targets q id
  swap
  · exact .inl (habsent.frame (h.frame htaken htarget))
  cases h with
  | refused | existing | repeatedSuccess | repeatedFailure | validated =>
      rw [List.prefix_nil.1 htaken]
      exact .inl habsent
  | accepted hincoming habsent' hvalid =>
      obtain ⟨validated, hvalidated, rfl⟩ := htarget
      cases hincoming.symm.trans hvalidated
      rcases prefix_pair htaken with rfl | rfl | rfl
      · exact .inl habsent
      · exact .inl habsent
      · refine .inr ⟨_, _, hvalid, rfl, rfl, hincoming, rfl, rfl, ?_⟩
        exact QueueDisk.located_published (s := s.allocated) habsent
  | claimed hclaimable hvalid => exact absurd htarget (hclaimable.located.ne_of_absent habsent)
  | requeued howned | completed howned | failed howned =>
      exact absurd htarget (howned.located.ne_of_absent habsent)
  | rejected hfound hplain => exact absurd htarget (hfound.ne_of_absent habsent)

end Effects

/-! ### The invariant of the queue -/

/-- The attempt under which an event has put a request into `processing/`. -/
def claimedAttempt (q : QueueSetup) (id : RequestId) (event : QueueEvent) : Option Nat :=
  match event.before.slot .processing id with
  | none => (event.after.slot .processing id).map (StoredPackage.attempt q.x)
  | some _ => none

/-- The attempts of the claims of a request, in the order they were made. -/
def claimAttempts (q : QueueSetup) (id : RequestId) (events : List QueueEvent) : List Nat :=
  events.filterMap (claimedAttempt q id)

/-- The attempts of earlier claims are behind the one in the package, and the one of
the last claim is there while the request is processing. -/
structure AttemptsOrdered (q : QueueSetup) (id : RequestId) (attempts : List Nat) (s : QueueDisk) :
    Prop where
  increasing : attempts.Pairwise (· < ·)
  reached : ∀ n ∈ attempts, ∃ state stored, s.Located id state stored ∧ n ≤ stored.attempt q.x
  current : ∀ stored, s.slot .processing id = some stored →
    attempts.getLast? = some (stored.attempt q.x)

theorem AttemptsOrdered.event {event : QueueEvent} {attempts : List Nat}
    (h : AttemptsOrdered q id attempts event.before) (hinv : QueueInv q event.before)
    (hrun : event.RunOf (perform q)) :
    AttemptsOrdered q id (attempts ++ (claimedAttempt q id event).toList) event.after := by
  obtain ⟨trail, result, heffect, htaken, -⟩ := effect_of_runOf hrun hinv
  have hchain := List.IsChain.prefix (heffect.chain hinv)
    ((List.prefix_cons_inj event.before).2 htaken)
  have hreached : ∀ n ∈ attempts, ∃ state stored, event.after.Located id state stored ∧
      n ≤ stored.attempt q.x := by
    intro n hn
    obtain ⟨state, stored, hlocated, hle⟩ := h.reached n hn
    obtain ⟨state', stored', hlocated', hprogress⟩ :=
      progress_of_reflTransGen (reflTransGen_getLastD hchain) hlocated
    exact ⟨state', stored', hlocated', hle.trans hprogress.attempt⟩
  have hkept : claimedAttempt q id event = none →
      (∀ stored, event.after.slot .processing id = some stored →
        attempts.getLast? = some (stored.attempt q.x)) →
      AttemptsOrdered q id (attempts ++ (claimedAttempt q id event).toList) event.after := by
    intro hnone hcurrent
    rw [hnone, Option.toList_none, List.append_nil]
    exact ⟨h.increasing, hreached, hcurrent⟩
  rcases hinv.place id with habsent | ⟨state, stored, hlocated, -⟩
  · -- A new request is pending.
    have hnone : event.after.slot .processing id = none := by
      rcases heffect.absent htaken habsent with habsent' | ⟨_, _, _, -, -, -, -, -, hlocated⟩
      · exact habsent' _
      · exact hlocated.only _ (by decide)
    refine hkept (by simp [claimedAttempt, habsent .processing, hnone]) fun stored hstored => ?_
    rw [hnone] at hstored
    cases hstored
  · obtain ⟨state', stored', hlocated', hchange⟩ := heffect.request htaken hlocated
    change event.after.Located id state' stored' at hlocated'
    generalize event.call = call at hchange
    have hafter : ∀ {found}, event.after.slot .processing id = some found →
        state' = .processing ∧ found = stored' := by
      intro found hfound
      obtain ⟨rfl, rfl⟩ := hlocated'.unique hfound
      exact ⟨rfl, rfl⟩
    have hidle : state ≠ .processing → state' ≠ .processing →
        AttemptsOrdered q id (attempts ++ (claimedAttempt q id event).toList) event.after := by
      intro hstate hstate'
      refine hkept ?_ fun found hfound => absurd (hafter hfound).1 hstate'
      simp [claimedAttempt, hlocated.only _ hstate.symm, hlocated'.only _ hstate'.symm]
    have hbusy : state = .processing → stored'.attempt q.x = stored.attempt q.x →
        AttemptsOrdered q id (attempts ++ (claimedAttempt q id event).toList) event.after := by
      rintro rfl hattempt
      refine hkept (by simp [claimedAttempt, hlocated.here]) fun found hfound => ?_
      rw [(hafter hfound).2, hattempt]
      exact h.current stored hlocated.here
    cases hchange with
    | same =>
        by_cases hstate : state = .processing
        · exact hbusy hstate rfl
        · exact hidle hstate hstate
    | marked next batch => exact hidle (by decide) (by decide)
    | requeued | completed | recorded | failed => exact hbusy rfl rfl
    | rejected target => exact hidle (by decide) (by rcases target with rfl | rfl <;> decide)
    | @claimed _ _ _ _ record next batch =>
        have hbelow : ∀ n ∈ attempts, n < record.attempt := by
          intro n hn
          obtain ⟨other, found, hfound, hle⟩ := h.reached n hn
          obtain ⟨-, rfl⟩ := hlocated.unique hfound.here
          omega
        have hclaimed : claimedAttempt q id event = some record.attempt := by
          simp [claimedAttempt, hlocated.only .processing (by decide), hlocated'.here]
        rw [hclaimed, Option.toList_some]
        refine ⟨?_, fun n hn => ?_, fun found hfound => ?_⟩
        · rw [List.pairwise_append]
          exact ⟨h.increasing, List.pairwise_singleton _ _, by simpa using hbelow⟩
        · rcases List.mem_append.1 hn with hn | hn
          · exact hreached n hn
          · rw [List.mem_singleton.1 hn]
            exact ⟨_, _, hlocated', by rw [attempt_withPhase]⟩
        · rw [(hafter hfound).2, List.getLast?_concat, attempt_withPhase]

/-- What a queue is supposed to look like at any time. -/
structure QueueDisk.Sound (q : QueueSetup) (s : QueueDisk) : Prop where
  /-- Every request is in at most one state. -/
  single : ∀ id state state', (s.slot state id).isSome → (s.slot state' id).isSome → state = state'
  /-- Every accepted sequence has been spent, and no two requests share one. -/
  sequence : ∀ id state stored, s.slot state id = some stored →
    ∃ acceptance, stored.acceptanceRecord q.x = some acceptance ∧
      acceptance.sequence < s.nextSequence ∧
      ∀ id' state' stored' acceptance', s.slot state' id' = some stored' →
        stored'.acceptanceRecord q.x = some acceptance' → id ≠ id' →
        acceptance'.sequence ≠ acceptance.sequence
  /-- A package in `processing/` has a phase record. -/
  processing : ∀ id stored, s.slot .processing id = some stored →
    ∃ record, (readRequiredPhaseRecord q.x stored id .processing).result = .ok record ∧
      record.attempt = stored.attempt q.x
  /-- A package in `failed/` has a readable result record. -/
  failed : ∀ id stored, s.slot .failed id = some stored →
    ∃ errorCode failedAt, (readFailedStatus q.x stored id).result = .ok (.failed errorCode failedAt)
  /-- A package in `completed/` has none. -/
  completed : ∀ id stored, s.slot .completed id = some stored → stored.result = none

theorem PackageOk.hasPhase {next : Nat} {state : QueueState} {stored : StoredPackage}
    (h : PackageOk q next id state stored) (hphase : stored.phase ≠ none) :
    ∃ record, stored.HasPhase q.x id record := by
  obtain ⟨entry, hentry⟩ := Option.ne_none_iff_exists'.1 hphase
  obtain ⟨record, rfl, hversion, hid⟩ := h.phase entry hentry
  exact ⟨record, _, hentry, q.x.phaseFormat.length_encode record,
    q.x.phaseFormat.decode_encode record, hversion, hid⟩

theorem PackageOk.hasResult {next : Nat} {state : QueueState} {stored : StoredPackage}
    (h : PackageOk q next id state stored) (hresult : stored.result ≠ none) :
    ∃ record, stored.HasResult q.x record ∧ record.isFailureOf id := by
  obtain ⟨entry, hentry⟩ := Option.ne_none_iff_exists'.1 hresult
  obtain ⟨record, rfl, hversion, hid⟩ := h.result entry hentry
  have hstatus : record.status = .failed := by
    cases record.status
    rfl
  refine ⟨record, ⟨_, hentry, q.x.resultFormat.length_encode record,
    q.x.resultFormat.decode_encode record⟩, ?_⟩
  simp [WorkerResultRecord.isFailureOf, hversion, hid, hstatus]

theorem QueueInv.sound (h : QueueInv q s) : s.Sound q where
  single id state state' hstate hstate' := by
    obtain ⟨stored, hstored⟩ := Option.isSome_iff_exists.1 hstate
    obtain ⟨stored', hstored'⟩ := Option.isSome_iff_exists.1 hstate'
    exact ((h.located hstored').1.unique hstored).1
  sequence id state stored hslot := by
    obtain ⟨acceptance, hacceptance, hlt⟩ := (h.located hslot).2.sequence
    refine ⟨acceptance, hacceptance, hlt, ?_⟩
    intro id' state' stored' acceptance' hslot' hacceptance' hne heq
    exact hne (h.distinct hslot' hslot hacceptance' hacceptance heq).symm
  processing id stored hslot := by
    have hok := (h.located hslot).2
    obtain ⟨record, hrecord⟩ := hok.hasPhase (hok.processing rfl)
    exact ⟨record, readRequiredPhaseRecord_eq_ok.2 hrecord, hrecord.attempt.symm⟩
  failed id stored hslot := by
    have hok := (h.located hslot).2
    obtain ⟨record, hrecord, hfailure⟩ := hok.hasResult (hok.failed rfl)
    exact ⟨_, _, readFailedStatus_eq_ok.2 ⟨record, hrecord, hfailure, rfl⟩⟩
  completed id stored hslot := (h.located hslot).2.completed rfl

/-- The queue in every state of every history: it is sound, what was accepted earlier
is still there, what was settled is where it was, and the attempts of the claims of a
request grow, with the last of them in the package while it is processing. -/
theorem queue_invariant (h : QueueHistory q events s) :
    s.Sound q ∧
    (∀ v ∈ visited .empty events, ∀ id state, (v.slot state id).isSome →
      (∃ state', (s.slot state' id).isSome) ∧
      (state = .completed ∨ state = .failed → s.slot state id = v.slot state id)) ∧
    ∀ id, (claimAttempts q id events).Pairwise (· < ·) ∧
      ∀ stored, s.slot .processing id = some stored →
        ∃ earlier, claimAttempts q id events = earlier ++ [stored.attempt q.x] ∧
          ∀ attempt ∈ earlier, attempt < stored.attempt q.x := by
  obtain ⟨hinv, hvisited⟩ := queueInv_of_history h
  refine ⟨hinv.sound, fun v hv id state hstate => ?_, fun id => ?_⟩
  · obtain ⟨hv, hreach⟩ := hvisited v hv
    obtain ⟨stored, hstored⟩ := Option.isSome_iff_exists.1 hstate
    obtain ⟨state', stored', hlocated, hprogress⟩ :=
      progress_of_reflTransGen hreach (hv.located hstored).1
    refine ⟨⟨state', by rw [hlocated.here]; rfl⟩, fun hsettled => ?_⟩
    obtain ⟨rfl, rfl⟩ := hprogress.settled hsettled
    rw [hlocated.here, hstored]
  · have hordered : AttemptsOrdered q id (claimAttempts q id events) s := by
      refine (h.event_induction (P := fun events s => QueueInv q s ∧
        AttemptsOrdered q id (claimAttempts q id events) s) ⟨.empty q, .nil, by simp [claimAttempts],
          by rintro stored ⟨⟩⟩ fun events event ih hrun => ?_).2
      obtain ⟨hbefore, hordered⟩ := ih
      refine ⟨hbefore.event hrun, ?_⟩
      rw [claimAttempts, List.filterMap_append]
      have hone : [event].filterMap (claimedAttempt q id) = (claimedAttempt q id event).toList := by
        cases hattempt : claimedAttempt q id event <;> simp [hattempt]
      rw [hone]
      exact hordered.event hbefore hrun
    refine ⟨hordered.increasing, fun stored hslot => ?_⟩
    obtain ⟨earlier, hearlier⟩ := List.getLast?_eq_some_iff.1 (hordered.current stored hslot)
    have hincreasing := hordered.increasing
    rw [hearlier, List.pairwise_append] at hincreasing
    exact ⟨earlier, hearlier, fun attempt hattempt =>
      hincreasing.2.2 attempt hattempt _ (List.mem_singleton_self _)⟩

namespace QueueSample

def token (number batch : Fin 8) (attempt : Nat) : ClaimToken :=
  ⟨requestId number, batchId batch, attempt⟩

/-- The package of a request as validation returns it. -/
def package (number : Fin 8) : ValidatedPackage :=
  ⟨request number, digest number, [], none⟩

def claimTurn (number batch : Fin 8) : Turn QueueCall QueueMove IoSite :=
  { call := .claim (requestId number) (batchId batch) now (package number) }

/-- A request is accepted, claimed and given back, and a second claim is cut after its
phase record was written; the third one completes, while another request fails. -/
def script : List (Turn QueueCall QueueMove IoSite) :=
  [{ call := .accept (upload 1) }, claimTurn 1 1, { call := .requeue (token 1 1 1) },
    { claimTurn 1 2 with cut := some 1 }, claimTurn 1 3, { call := .accept (upload 2) },
    claimTurn 2 3, { call := .fail (token 2 3 1) .invalidRequest now, cut := some 1 },
    { call := .fail (token 2 3 1) .invalidRequest now }]

theorem queue_invariant_script :
    (playEnd (perform setup) .empty script).Sound setup ∧
    claimAttempts setup (requestId 1) (play (perform setup) .empty script) = [1, 3] ∧
    ((playEnd (perform setup) .empty script).slot .processing (requestId 1)).isSome ∧
    ((playEnd (perform setup) .empty script).slot .failed (requestId 2)).isSome :=
  ⟨(queue_invariant (history_play (perform setup) .empty script)).1, by decide +kernel, by decide +kernel,
    by decide +kernel⟩

end QueueSample

end Runs

end AgentKnowledge
