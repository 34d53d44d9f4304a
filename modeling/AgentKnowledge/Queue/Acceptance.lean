import AgentKnowledge.Queue.Invariant

/-!
Acceptance is idempotent.

The first acceptance of a request ID that reaches its rename decides what is in the
queue under that ID. Whatever the Worker has made of the request meanwhile, its
immutable entries are still those, so a later attempt finds the digest of the first
upload and compares its own with it.
-/

namespace AgentKnowledge

open Results Durable

/-- An event leaves a request in the queue that was not there before. -/
def Publishes (id : RequestId) (event : QueueEvent) : Prop :=
  event.before.Absent id ∧ ¬ event.after.Absent id

section Acceptance

variable {q : QueueSetup} {s m : QueueDisk} {events front back : List QueueEvent} {id : RequestId}
  {first : QueueEvent}

/-- A request that has been published is there, with the entries of its upload. -/
theorem Publishes.published (h : Publishes id first) (hinv : QueueInv q first.before)
    (hrun : first.RunOf (perform q)) :
    ∃ upload validated acceptance, first.call = .accept upload ∧
      (readIncomingPackage q.x q.policy upload.staged).result = .ok validated ∧
      validated.request.requestId = id ∧ acceptance.sequence = first.before.nextSequence ∧
      acceptance.acceptedAt = upload.acceptedAt ∧ acceptance.clientId = upload.clientId ∧
      first.after.Located id .pending
        (acceptedPackage q.x upload.staged validated.digest acceptance) := by
  obtain ⟨trail, result, heffect, htaken, -⟩ := effect_of_runOf hrun hinv
  rcases heffect.absent htaken h.1 with habsent | ⟨upload, validated, hvalid, hcall, -, hincoming,
    hid, -, hlocated⟩
  · exact absurd habsent h.2
  · exact ⟨upload, validated, _, hcall, hincoming, hid, rfl, rfl, rfl, hlocated⟩

/-- Who is told that a request was accepted has published it. -/
theorem publishes_of_accepted {event : QueueEvent} {digest : PackageDigest}
    (hinv : QueueInv q event.before) (hrun : event.RunOf (perform q))
    (hreply : event.reply = some (.ok (.enqueued (.accepted id digest)))) : Publishes id event := by
  obtain ⟨trail, result, heffect, -, hok⟩ := effect_of_runOf hrun hinv
  obtain ⟨htrail, rfl⟩ := hok _ hreply
  generalize event.call = call at heffect
  cases heffect with
  | accepted hincoming habsent hvalid =>
      refine ⟨habsent, fun hnone => ?_⟩
      unfold Event.after at hnone
      rw [htrail] at hnone
      exact (QueueDisk.located_published (s := event.before.allocated) habsent).ne_of_absent hnone rfl

/-- No request is published after it has been. -/
theorem Publishes.once (h : Publishes id first) (hinv : QueueInv q first.before)
    (hrun : first.RunOf (perform q)) (hback : History (perform q) first.after back s) :
    ∀ later ∈ back, ¬ Publishes id later := by
  intro later hlater hpublishes
  obtain ⟨_, _, _, -, -, -, -, -, -, hlocated⟩ := h.published hinv hrun
  obtain ⟨middle, rest, rfl⟩ := List.append_of_mem hlater
  obtain ⟨hmiddle, -, -⟩ := hback.around
  obtain ⟨state, stored, hlocated', -⟩ := progress_history hmiddle (hinv.event hrun) hlocated
  exact hlocated'.ne_of_absent hpublishes.1 rfl

/-- What a later attempt does, wherever the request is by then. -/
theorem accept_later {upload upload' : Upload} {validated validated' : ValidatedPackage}
    {acceptance : AcceptanceMetadata} {state : QueueState} {stored : StoredPackage}
    (hinv : QueueInv q s)
    (hincoming : (readIncomingPackage q.x q.policy upload.staged).result = .ok validated)
    (hlocated : s.Located validated.request.requestId state stored)
    (hcontent : (acceptedPackage q.x upload.staged validated.digest acceptance).SameContent stored)
    (hincoming' : (readIncomingPackage q.x q.policy upload'.staged).result = .ok validated')
    (hid : validated'.request.requestId = validated.request.requestId) :
    (perform q (.accept upload')).calmly s =
      ([], if validated'.digest = validated.digest then
          .ok (.enqueued (.existing validated.request.requestId validated.digest state))
        else .error (.queue (.requestIdReused validated.request.requestId state))) := by
  have hok := (hinv.located hlocated.here).2
  have hexisting := readAcceptedPackage_of_sameContent
    (readAcceptedPackage_of_incoming acceptance hincoming) hcontent hok.phase.plain hok.result.plain
  rw [← hid] at hlocated ⊢
  rw [perform_accept, accept_of_existing hincoming' hlocated hexisting hid.symm]
  by_cases hsame : validated'.digest = validated.digest
  · simp [hsame, Except.mapError, Except.map]
  · simp [hsame, Except.mapError, Except.map]

/-- One upload at most gets into the queue under an ID, and it alone is told so. The
package, its sequence, its time and its client are those of that upload for good, and
every later attempt changes nothing: it is told where the request is, if it brings the
same digest, and that the ID is taken otherwise. -/
theorem acceptance_idempotent (h : QueueHistory q events s) (id : RequestId) :
    (∀ event ∈ events, ∀ digest, event.reply = some (.ok (.enqueued (.accepted id digest))) →
      Publishes id event) ∧
    ∀ front first back, events = front ++ first :: back → Publishes id first →
      (∀ other ∈ front ++ back, ¬ Publishes id other) ∧
      ∃ upload validated acceptance state stored,
        first.call = .accept upload ∧
        (readIncomingPackage q.x q.policy upload.staged).result = .ok validated ∧
        validated.request.requestId = id ∧
        acceptance.sequence = first.before.nextSequence ∧
        acceptance.acceptedAt = upload.acceptedAt ∧ acceptance.clientId = upload.clientId ∧
        s.Located id state stored ∧
        (acceptedPackage q.x upload.staged validated.digest acceptance).SameContent stored ∧
        ∀ upload' validated',
          (readIncomingPackage q.x q.policy upload'.staged).result = .ok validated' →
          validated'.request.requestId = id →
          (∀ o, (perform q (.accept upload') s o).trail = []) ∧
          ((perform q (.accept upload')).calmly s).2 =
            if validated'.digest = validated.digest then
              .ok (.enqueued (.existing id validated.digest state))
            else .error (.queue (.requestIdReused id state)) := by
  refine ⟨fun event hevent digest hreply => ?_, ?_⟩
  · obtain ⟨front, back, rfl⟩ := List.append_of_mem hevent
    obtain ⟨hfront, hrun, -⟩ := h.around
    exact publishes_of_accepted (queueInv_of_history hfront).1 hrun hreply
  · rintro front first back rfl hfirst
    obtain ⟨hfront, hrun, hback⟩ := h.around
    have hbefore := (queueInv_of_history hfront).1
    have hafter := hbefore.event hrun
    obtain ⟨upload, validated, acceptance, hcall, hincoming, rfl, hsequence, htime, hclient,
      hpublished⟩ := hfirst.published hbefore hrun
    obtain ⟨state, stored, hlocated, hprogress⟩ := progress_history hback hafter hpublished
    refine ⟨fun other hother hpublishes => ?_, upload, validated, acceptance, state, stored, hcall,
      hincoming, rfl, hsequence, htime, hclient, hlocated, hprogress.content, ?_⟩
    · rcases List.mem_append.1 hother with hother | hother
      · -- An earlier one would have been there before the first.
        obtain ⟨init, rest, rfl⟩ := List.append_of_mem hother
        obtain ⟨hinit, hother, hrest⟩ := hfront.around
        have hinv := (queueInv_of_history hinit).1
        obtain ⟨_, _, _, -, -, -, -, -, -, hearlier⟩ := hpublishes.published hinv hother
        obtain ⟨_, _, hthere, -⟩ := progress_history hrest (hinv.event hother) hearlier
        exact hthere.ne_of_absent hfirst.1 rfl
      · exact hfirst.once hbefore hrun hback other hother hpublishes
    · intro upload' validated' hincoming' hid
      have hcalm := accept_later (hafter.history hback) hincoming hlocated hprogress.content
        hincoming' hid
      refine ⟨fun o => List.prefix_nil.1 ?_, by rw [hcalm]⟩
      have hleading := (perform_straight q (.accept upload')).trail s o
      rwa [hcalm] at hleading

end Acceptance

namespace QueueSample

/-- An upload is cut after its sequence was spent. -/
def cutUpload : Turn QueueCall QueueMove IoSite := { call := .accept (upload 1), cut := some 1 }

/-- It is tried again. -/
def retry : QueueEvent :=
  Turn.event (perform setup) (playEnd (perform setup) .empty [cutUpload])
    { call := .accept (upload 1) }

theorem publishes_retry : Publishes (requestId 1) retry := by
  constructor
  · have hnone : ∀ state, (retry.before.slot state (requestId 1)).isNone := by
      intro state
      cases state <;> decide +kernel
    exact fun state => Option.isNone_iff_eq_none.1 (hnone state)
  · intro habsent
    have hsome : (retry.after.slot .pending (requestId 1)).isSome := by decide +kernel
    rw [habsent .pending] at hsome
    cases hsome

/-- After a claim the request is known, and another package under its ID changes
nothing and is refused. -/
theorem acceptance_idempotent_retry :
    let s := playEnd (perform setup) retry.after [claimTurn 1 1]
    (∀ o, (perform setup (.accept (upload 5)) s o).trail = []) ∧
      ((perform setup (.accept (upload 1))).calmly s).2 =
        .ok (.enqueued (.existing (requestId 1) (digest 1) .processing)) ∧
      ((perform setup (.accept (upload 5))).calmly s).2 =
        .error (.queue (.requestIdReused (requestId 1) .processing)) := by
  intro s
  have hhistory : QueueHistory setup
      (play (perform setup) .empty [cutUpload] ++ retry :: play (perform setup) retry.after
        [claimTurn 1 1]) s :=
    (history_play (perform setup) .empty [cutUpload]).append
      ((Turn.history _ _ _).append (history_play (perform setup) retry.after [claimTurn 1 1]))
  obtain ⟨-, _, _, _, _, _, -, -, -, -, -, -, -, -, hlater⟩ :=
    (acceptance_idempotent hhistory (requestId 1)).2 _ retry _ rfl publishes_retry
  obtain ⟨validated, hincoming, hid⟩ : ∃ validated,
      (readIncomingPackage setup.x setup.policy (upload 5).staged).result = .ok validated ∧
        validated.request.requestId = requestId 1 := exists_ok_of_any (by decide +kernel)
  exact ⟨(hlater _ _ hincoming hid).1, by decide +kernel, by decide +kernel⟩

end QueueSample

end AgentKnowledge
