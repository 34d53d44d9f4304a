import AgentKnowledge.Queue.Invariant

/-!
Claim tokens.

A token owns a request while the request is processing and its phase record names the
batch and the attempt of the token. Attempts only grow, so a token that has lost its
request never owns it again; what it can still match is the record of a request that
was settled since. `fail_pending` settles a request without claiming it, and leaves the
phase record of the last claim beside a result record with a batch ID of its caller's
choice. It can also be stopped half-way, and then the result record is there when the
request is claimed the next time. `cleanEvent` excludes both, and `claim_tokens` says
what a token can do in all other histories.
-/

namespace AgentKnowledge

open Results Durable

/-- The token owns its request. -/
def QueueDisk.OwnedBy (q : QueueSetup) (s : QueueDisk) (token : ClaimToken) : Prop :=
  ∃ stored record, Owned q s token stored record

/-- The operations that act under a token. -/
def QueueCall.Uses (token : ClaimToken) : QueueCall → Prop
  | .requeue used | .complete used _ | .fail used _ _ => used = token
  | .validate held => held.token = token
  | .accept _ | .claim _ _ _ _ | .failPending _ _ _ _ => False

/-- The operations after which a token may have lost its request. -/
def QueueCall.Releases (id : RequestId) : QueueCall → Prop
  | .requeue used | .complete used _ | .fail used _ _ => used.requestId = id
  | .validate _ | .accept _ | .claim _ _ _ _ | .failPending _ _ _ _ => False

/-- An event is no claim of a package that holds a result record already, and no
rejection under the batch ID in the phase record of the package. -/
def cleanEvent (q : QueueSetup) (event : QueueEvent) : Bool :=
  match event.call with
  | .claim id _ _ _ => (event.before.slot .pending id).all fun stored => stored.result.isNone
  | .failPending id batchId _ _ => (event.before.slot .pending id).all fun stored =>
      (stored.phaseRecord q.x).all fun record => record.batchId ≠ batchId
  | _ => true

/-- A token that has lost its request: if the phase record still names it, the request
is pending or was rejected under another batch. -/
structure Stale (q : QueueSetup) (token : ClaimToken) (state : QueueState) (stored : StoredPackage) :
    Prop where
  reached : token.attempt ≤ stored.attempt q.x
  named : ∀ record, stored.phaseRecord q.x = some record → record.names token →
    state = .pending ∨ state = .failed ∧
      ∀ result, stored.HasResult q.x result → result.batchId ≠ token.batchId

section Ownership

variable {q : QueueSetup} {s : QueueDisk} {token : ClaimToken} {state : QueueState}
  {stored : StoredPackage} {call : QueueCall} {trail : List QueueDisk}
  {result : Except WorkerQueueError QueueReply}

theorem WorkerResultRecord.batchId_of_isOf {record : WorkerResultRecord} {errorCode : ErrorCode}
    (h : record.isOf token errorCode) : record.batchId = token.batchId := by
  simp only [isOf, Bool.and_eq_true, decide_eq_true_eq] at h
  exact h.1.1.2

theorem Stale.not_owned (h : Stale q token state stored)
    (hlocated : s.Located token.requestId state stored) : ¬ s.OwnedBy q token := by
  rintro ⟨found, record, hfound, hphase, hnames⟩
  obtain ⟨rfl, rfl⟩ := hlocated.unique hfound.here
  rcases h.named record hphase.phaseRecord hnames with hstate | ⟨hstate, -⟩ <;> cases hstate

/-- Nothing can be done under a token that has lost its request. -/
theorem Stale.refused (h : Stale q token state stored)
    (hlocated : s.Located token.requestId state stored) (huses : call.Uses token)
    (heffect : Effect q s call trail result) : trail = [] ∧ ∃ e, result = .error e := by
  have hnot := h.not_owned hlocated
  cases heffect with
  | refused e => exact ⟨rfl, e, rfl⟩
  | existing | accepted | claimed | rejected => cases huses
  | requeued howned | completed howned | failed howned | validated howned =>
      cases huses
      exact absurd ⟨_, _, howned⟩ hnot
  | repeatedSuccess hfound hvalid =>
      cases huses
      obtain ⟨rfl, rfl⟩ := hlocated.unique hfound.here
      simp only [validateTerminalClaim, Reading.result_bind, bind_eq_ok, exists_unit,
        validateClaimToken_eq_ok] at hvalid
      obtain ⟨⟨record, hphase, hnames⟩, -⟩ := hvalid
      rcases h.named record hphase.phaseRecord hnames with hstate | ⟨hstate, -⟩ <;> cases hstate
  | repeatedFailure hfound hvalid =>
      cases huses
      obtain ⟨rfl, rfl⟩ := hlocated.unique hfound.here
      simp only [validateTerminalClaim, Reading.result_bind, bind_eq_ok, exists_unit,
        validateClaimToken_eq_ok, validateResultRecord_eq_ok] at hvalid
      obtain ⟨⟨record, hphase, hnames⟩, found, hresult, hof⟩ := hvalid
      rcases h.named record hphase.phaseRecord hnames with hstate | ⟨-, hbatch⟩
      · cases hstate
      · exact absurd (WorkerResultRecord.batchId_of_isOf hof) (hbatch found hresult)

/-- A token that has lost its request does not get it back. -/
theorem Stale.event {event : QueueEvent} {state' : QueueState} {stored' : StoredPackage}
    (h : Stale q token state stored) (hclean : cleanEvent q event)
    (hlocated : event.before.Located token.requestId state stored)
    (hchange : RequestEffect q token.requestId event.call state stored state' stored') :
    Stale q token state' stored' := by
  -- A newer phase record does not name the token.
  have hnewer : ∀ {record : WorkerPhaseRecord}, record.attempt = stored.attempt q.x + 1 →
      ∀ state', Stale q token state' (stored.withPhase q.x record) := by
    intro record hnext state'
    have hreached := h.reached
    refine ⟨by rw [attempt_withPhase]; omega, fun found hfound hnames => ?_⟩
    rw [phaseRecord_withPhase] at hfound
    cases hfound
    have := (WorkerPhaseRecord.names_iff.1 hnames).2
    omega
  -- Nor does the record of a request that is processing.
  have hprocessing : state = .processing → ∀ record, stored.phaseRecord q.x = some record →
      ¬ record.names token := by
    rintro rfl record hrecord hnames
    rcases h.named record hrecord hnames with hstate | ⟨hstate, -⟩ <;> cases hstate
  unfold cleanEvent at hclean
  generalize event.call = call at hchange hclean
  cases hchange with
  | same => exact h
  | marked next => exact hnewer next _
  | claimed next => exact hnewer next _
  | requeued => exact ⟨h.reached, fun _ _ _ => .inl rfl⟩
  | completed | recorded | failed =>
      exact ⟨h.reached, fun record hrecord hnames =>
        absurd hnames (hprocessing rfl record hrecord)⟩
  | @rejected _ batchId _ _ _ target =>
      refine ⟨h.reached, fun record hrecord hnames => ?_⟩
      rcases target with rfl | rfl
      · exact .inl rfl
      · refine .inr ⟨rfl, fun found hfound => ?_⟩
        rw [hfound.unique hasResult_withResult]
        have hbatch : record.batchId ≠ batchId := by
          simpa [hlocated.here, show stored.phaseRecord q.x = some record from hrecord] using hclean
        rw [(WorkerPhaseRecord.names_iff.1 hnames).1] at hbatch
        exact hbatch.symm

/-- A request in the hands of its owner, before anything was settled. -/
structure Live (q : QueueSetup) (s : QueueDisk) (token : ClaimToken) (stored : StoredPackage) :
    Prop where
  owned : ∃ record, Owned q s token stored record
  result : stored.result = none

/-- It stays there until somebody releases it. -/
theorem Live.event {event : QueueEvent} {trail : List QueueDisk}
    (h : Live q event.before token stored) (heffect : Effect q event.before event.call trail result)
    (htaken : event.trail <+: trail) (hkept : ¬ event.call.Releases token.requestId) :
    Live q event.after token stored := by
  obtain ⟨⟨record, hlocated, hphase, hnames⟩, hresult⟩ := h
  obtain ⟨state', stored', hlocated', hchange⟩ := heffect.request htaken hlocated
  generalize event.call = call at hchange hkept
  cases hchange with
  | same => exact ⟨⟨record, hlocated', hphase, hnames⟩, hresult⟩
  | requeued own | completed own | recorded _ own | failed own => exact absurd own hkept

/-! ### Runs -/

variable {m : QueueDisk} {front back : List QueueEvent}

theorem Stale.history (hback : History (perform q) m back s) (hinv : QueueInv q m)
    (hlocated : m.Located token.requestId state stored) (hstale : Stale q token state stored)
    (hclean : ∀ event ∈ back, cleanEvent q event) :
    ∃ state stored, s.Located token.requestId state stored ∧ Stale q token state stored := by
  refine (hback.event_induction (P := fun back s => (∀ event ∈ back, cleanEvent q event) →
    QueueInv q s ∧ ∃ state stored, s.Located token.requestId state stored ∧
      Stale q token state stored) (fun _ => ⟨hinv, state, stored, hlocated, hstale⟩) ?_ hclean).2
  intro events event ih hrun hclean
  obtain ⟨hbefore, state, stored, hlocated, hstale⟩ :=
    ih fun event hevent => hclean event (List.mem_append_left _ hevent)
  obtain ⟨trail, result, heffect, htaken, -⟩ := effect_of_runOf hrun hbefore
  obtain ⟨state', stored', hlocated', hchange⟩ := heffect.request htaken hlocated
  exact ⟨hbefore.event hrun, state', stored', hlocated',
    hstale.event (hclean event (List.mem_append_right _ (List.mem_singleton_self _))) hlocated
      hchange⟩

theorem Live.history (hback : History (perform q) m back s) (hinv : QueueInv q m)
    (hlive : Live q m token stored)
    (hkept : ∀ event ∈ back, ¬ event.call.Releases token.requestId) : Live q s token stored := by
  refine (hback.event_induction (P := fun back s =>
    (∀ event ∈ back, ¬ event.call.Releases token.requestId) → QueueInv q s ∧
      Live q s token stored) (fun _ => ⟨hinv, hlive⟩) ?_ hkept).2
  intro events event ih hrun hkept
  obtain ⟨hbefore, hlive⟩ := ih fun event hevent => hkept event (List.mem_append_left _ hevent)
  obtain ⟨trail, result, heffect, htaken, -⟩ := effect_of_runOf hrun hbefore
  exact ⟨hbefore.event hrun, hlive.event heffect htaken
    (hkept event (List.mem_append_right _ (List.mem_singleton_self _)))⟩

/-- A settled request stays as it is. -/
theorem settled_history (hback : History (perform q) m back s) (hinv : QueueInv q m)
    (hlocated : m.Located token.requestId state stored)
    (hsettled : state = .completed ∨ state = .failed) :
    s.Located token.requestId state stored := by
  obtain ⟨state', stored', hlocated', hprogress⟩ := progress_history hback hinv hlocated
  obtain ⟨rfl, rfl⟩ := hprogress.settled hsettled
  exact hlocated'

theorem PackageOk.storedDigest {next : Nat} {id : RequestId} (h : PackageOk q next id state stored)
    (other : QueueState) : ∃ digest, (readStoredDigest stored id other).result = .ok digest := by
  obtain ⟨package, hread, -⟩ := h.accepted
  obtain ⟨layout, contents, -, -, hlayout, -, hdigest, -⟩ := readAcceptedPackage_eq_ok.1 hread
  obtain ⟨entry, hentry, hfile, -⟩ := hlayout.digest
  exact ⟨contents.digest, readStoredDigest_eq_ok.2 ⟨layout.digest, by rw [hentry, hfile], hdigest⟩⟩

/-- The undisturbed transitions of a live token. -/
theorem Live.succeeds (h : Live q s token stored) (hinv : QueueInv q s) :
    ((perform q (.requeue token)).calmly s).2 = .ok .done ∧
      (∀ now, ((perform q (.complete token now)).calmly s).2 = .ok .done) ∧
      ∀ errorCode now, ((perform q (.fail token errorCode now)).calmly s).2 = .ok .done := by
  obtain ⟨⟨record, howned⟩, hresult⟩ := h
  obtain ⟨digest, hdigest⟩ := (hinv.located howned.located.here).2.storedDigest .processing
  refine ⟨?_, fun now => ?_, fun errorCode now => ?_⟩
  · rw [perform_requeue, requeueClaimed_of_owned howned hdigest]
    rfl
  · rw [perform_complete, transitionClaimed_of_owned howned (.success hresult)]
    rfl
  · rw [perform_fail, transitionClaimed_of_owned howned (.failure hresult)]
    rfl

/-- The claim that gave a token its request. -/
theorem Live.of_issue {issue : QueueEvent} (hinv : QueueInv q issue.before)
    (hrun : issue.RunOf (perform q)) (hclean : cleanEvent q issue)
    (hbefore : ¬ issue.before.OwnedBy q token) (hafter : issue.after.OwnedBy q token) :
    ∃ stored, Live q issue.after token stored := by
  obtain ⟨stored', record, hlocated', hphase, hnames⟩ := hafter
  obtain ⟨trail, result, heffect, htaken, -⟩ := effect_of_runOf hrun hinv
  refine ⟨stored', ⟨record, hlocated', hphase, hnames⟩, ?_⟩
  rcases hinv.place token.requestId with habsent | ⟨state, stored, hlocated, -⟩
  · -- A request that has just been accepted is pending.
    rcases heffect.absent htaken habsent with hnone | ⟨_, _, _, -, -, -, -, -, hpending⟩
    · cases hlocated'.here.symm.trans (hnone _)
    · cases (hpending.unique hlocated'.here).1
  · obtain ⟨state', found, hfound, hchange⟩ := heffect.request htaken hlocated
    obtain ⟨rfl, rfl⟩ := hfound.unique hlocated'.here
    unfold cleanEvent at hclean
    generalize issue.call = call at hchange hclean
    cases hchange with
    | same => exact absurd ⟨_, _, hlocated, hphase, hnames⟩ hbefore
    | claimed next batch =>
        have hresult : stored.result = none := by simpa [hlocated.here] using hclean
        exact hresult
    | recorded => exact absurd ⟨_, _, hlocated, hphase, hnames⟩ hbefore
    | rejected target => rcases target with htarget | htarget <;> cases htarget

/-- The terminal state a successful transition leaves. -/
theorem terminal_of_complete {event : QueueEvent} {now : OffsetDateTime} {reply : QueueReply}
    (hinv : QueueInv q event.before) (hrun : event.RunOf (perform q))
    (hcall : event.call = .complete token now) (hreply : event.reply = some (.ok reply)) :
    ∃ stored, event.after.Located token.requestId .completed stored ∧
      (validateTerminalClaim q.x stored token none).result = .ok () := by
  obtain ⟨trail, result, heffect, -, hok⟩ := effect_of_runOf hrun hinv
  obtain ⟨htrail, rfl⟩ := hok reply hreply
  unfold Event.after
  rw [htrail]
  rw [hcall] at heffect
  cases heffect with
  | completed howned habsent =>
      refine ⟨_, howned.located.move (by decide), ?_⟩
      simp only [validateTerminalClaim, Reading.result_bind, bind_eq_ok, exists_unit]
      exact ⟨validateClaimToken_eq_ok.2 ⟨_, howned.phase, howned.names⟩,
        ensureResultAbsent_eq_ok.2 habsent⟩
  | repeatedSuccess hlocated hvalid => exact ⟨_, hlocated, hvalid⟩

theorem terminal_of_fail {event : QueueEvent} {errorCode : ErrorCode} {now : OffsetDateTime}
    {reply : QueueReply} (hinv : QueueInv q event.before) (hrun : event.RunOf (perform q))
    (hcall : event.call = .fail token errorCode now) (hreply : event.reply = some (.ok reply)) :
    ∃ stored, event.after.Located token.requestId .failed stored ∧
      (validateTerminalClaim q.x stored token (some errorCode)).result = .ok () := by
  obtain ⟨trail, result, heffect, -, hok⟩ := effect_of_runOf hrun hinv
  obtain ⟨htrail, rfl⟩ := hok reply hreply
  unfold Event.after
  rw [htrail]
  rw [hcall] at heffect
  cases heffect with
  | failed howned hsettles =>
      cases hsettles with
      | failure habsent =>
          refine ⟨_, howned.located.modify.move (by decide), ?_⟩
          simp only [validateTerminalClaim, Reading.result_bind, bind_eq_ok, exists_unit]
          exact ⟨validateClaimToken_eq_ok.2 ⟨_, howned.phase, howned.names⟩,
            validateResultRecord_eq_ok.2 ⟨_, hasResult_withResult, resultRecord_isOf⟩⟩
      | again hresult hsame =>
          refine ⟨_, howned.located.move (by decide), ?_⟩
          simp only [validateTerminalClaim, Reading.result_bind, bind_eq_ok, exists_unit]
          exact ⟨validateClaimToken_eq_ok.2 ⟨_, howned.phase, howned.names⟩,
            validateResultRecord_eq_ok.2 ⟨_, hresult, hsame⟩⟩
  | repeatedFailure hlocated hvalid => exact ⟨_, hlocated, hvalid⟩

/-- What tokens can do in a history whose events are clean, given the run up to some
moment and the run from there to now. -/
theorem claim_tokens (hfront : QueueHistory q front m) (hback : History (perform q) m back s)
    (hclean : ∀ event ∈ front ++ back, cleanEvent q event) (token : ClaimToken) :
    -- A token that owned a request which was given back since changes nothing.
    ((∃ u ∈ visited .empty front, u.OwnedBy q token) →
      (m.slot .pending token.requestId).isSome →
      ∀ call, call.Uses token → ∀ o, (perform q call s o).trail = [] ∧
        ∀ reply, (perform q call s o).result ≠ .ok reply) ∧
    -- A token that was issued succeeds until something is tried on its request.
    (∀ init issue, front = init ++ [issue] → ¬ issue.before.OwnedBy q token →
      m.OwnedBy q token → (∀ event ∈ back, ¬ event.call.Releases token.requestId) →
      ((perform q (.requeue token)).calmly s).2 = .ok .done ∧
        (∀ now, ((perform q (.complete token now)).calmly s).2 = .ok .done) ∧
        ∀ errorCode now, ((perform q (.fail token errorCode now)).calmly s).2 = .ok .done) ∧
    -- A terminal transition can be repeated, and its opposite fails.
    (∀ init event now reply, front = init ++ [event] → event.call = .complete token now →
      event.reply = some (.ok reply) → ∀ now',
      (perform q (.complete token now')).calmly s = ([], .ok .done) ∧
        ∀ errorCode, ∃ e, (perform q (.fail token errorCode now')).calmly s = ([], .error e)) ∧
    ∀ init event errorCode now reply, front = init ++ [event] →
      event.call = .fail token errorCode now → event.reply = some (.ok reply) → ∀ now',
      (perform q (.fail token errorCode now')).calmly s = ([], .ok .done) ∧
        ∃ e, (perform q (.complete token now')).calmly s = ([], .error e) := by
  obtain ⟨hinv, hvisited⟩ := queueInv_of_history hfront
  refine ⟨?_, ?_, ?_, ?_⟩
  · rintro ⟨u, hu, found, record, hfound, hphase, hnames⟩ hpending call huses o
    obtain ⟨hinvu, hreach⟩ := hvisited u hu
    obtain ⟨state, stored, hlocated, hprogress⟩ := progress_of_reflTransGen hreach hfound
    obtain ⟨stored', hstored'⟩ := Option.isSome_iff_exists.1 hpending
    obtain ⟨rfl, rfl⟩ := hlocated.unique hstored'
    have hstale : Stale q token .pending stored' := by
      refine ⟨?_, fun _ _ _ => .inl rfl⟩
      rw [← (WorkerPhaseRecord.names_iff.1 hnames).2, ← hphase.attempt]
      exact hprogress.attempt
    obtain ⟨state, stored, hlocated, hstale⟩ := hstale.history hback hinv hlocated
      fun event hevent => hclean event (List.mem_append_right _ hevent)
    have hstraight := perform_straight q call
    obtain ⟨htrail, e, hresult⟩ :=
      hstale.refused hlocated huses (perform_effect q (hinv.history hback).next call)
    refine ⟨List.prefix_nil.1 (htrail ▸ hstraight.trail s o), fun reply hreply => ?_⟩
    rw [(hstraight.result s o reply hreply).1] at hresult
    cases hresult
  · rintro init issue rfl hbefore hafter hkept
    obtain ⟨hinit, hrun, rfl⟩ := hfront.last
    have hissue : cleanEvent q issue := hclean issue (by simp)
    obtain ⟨stored, hlive⟩ :=
      Live.of_issue (queueInv_of_history hinit).1 hrun hissue hbefore hafter
    exact (hlive.history hback hinv hkept).succeeds (hinv.history hback)
  · rintro init event now reply rfl hcall hreply now'
    obtain ⟨hinit, hrun, rfl⟩ := hfront.last
    obtain ⟨stored, hlocated, hvalid⟩ :=
      terminal_of_complete (queueInv_of_history hinit).1 hrun hcall hreply
    have hsettled := settled_history hback hinv hlocated (.inl rfl)
    refine ⟨?_, fun errorCode => ⟨.invalidState token.requestId .processing .completed, ?_⟩⟩
    · rw [perform_complete, transitionClaimed_of_terminal hsettled, hvalid]
      rfl
    · rw [perform_fail, transitionClaimed_of_elsewhere hsettled (by simp [terminalState]) (by decide)]
      rfl
  · rintro init event errorCode now reply rfl hcall hreply now'
    obtain ⟨hinit, hrun, rfl⟩ := hfront.last
    obtain ⟨stored, hlocated, hvalid⟩ :=
      terminal_of_fail (queueInv_of_history hinit).1 hrun hcall hreply
    have hsettled := settled_history hback hinv hlocated (.inr rfl)
    refine ⟨?_, .invalidState token.requestId .processing .failed, ?_⟩
    · rw [perform_fail, transitionClaimed_of_terminal hsettled, hvalid]
      rfl
    · rw [perform_complete,
        transitionClaimed_of_elsewhere hsettled (by simp [terminalState]) (by decide)]
      rfl

end Ownership

namespace QueueSample

theorem ownedBy_of_ensureOwned {s : QueueDisk} {token : ClaimToken} {digest : PackageDigest}
    (h : (ensureOwned setup token s).result = .ok digest) : s.OwnedBy setup token := by
  obtain ⟨stored, record, howned, -⟩ := ensureOwned_eq_ok.1 h
  exact ⟨stored, record, howned⟩

/-- A request is accepted and claimed. -/
def claimed : List (Turn QueueCall QueueMove IoSite) :=
  [{ call := .accept (upload 1) }, claimTurn 1 1]

/-- It is given back. -/
def givenBack : List (Turn QueueCall QueueMove IoSite) :=
  claimed ++ [{ call := .requeue (token 1 1 1) }]

/-- It is claimed again, by two batches of which the first is cut. -/
def claimedAgain : List (Turn QueueCall QueueMove IoSite) :=
  [{ claimTurn 1 2 with cut := some 1 }, claimTurn 1 3]

/-- The first owner, at the time the request has been given back. -/
theorem owner_visited : ∃ u ∈ visited .empty (play (perform setup) .empty givenBack),
    u.OwnedBy setup (token 1 1 1) := by
  have howned : (ensureOwned setup (token 1 1 1)
      (playEnd (perform setup) .empty claimed)).result = .ok (digest 1) := by decide +kernel
  have hhistory := history_play (perform setup) .empty claimed
  exact ⟨_, mem_visited_append.2 (.inl hhistory.mem_visited), ownedBy_of_ensureOwned howned⟩

theorem claim_tokens_claimedAgain :
    let m := playEnd (perform setup) .empty givenBack
    let s := playEnd (perform setup) m claimedAgain
    s.OwnedBy setup (token 1 3 3) ∧
    ∀ call, call.Uses (token 1 1 1) → ∀ o, (perform setup call s o).trail = [] ∧
      ∀ reply, (perform setup call s o).result ≠ .ok reply := by
  intro m s
  have howned : (ensureOwned setup (token 1 3 3) s).result = .ok (digest 1) := by decide +kernel
  exact ⟨ownedBy_of_ensureOwned howned,
    (claim_tokens (history_play (perform setup) .empty givenBack)
      (history_play (perform setup) m claimedAgain)
      (by decide +kernel) (token 1 1 1)).1 owner_visited (by decide +kernel)⟩

def rejection (batch : Fin 8) : Turn QueueCall QueueMove IoSite :=
  { call := .failPending (requestId 1) (batchId batch) .contentValidationFailed now }

/-- Without that condition a token that has lost its request can be told that its
transition succeeded, and one that has just been issued can fail. -/
theorem rejection_confuses_tokens :
    (let m := playEnd (perform setup) .empty givenBack
     let s := playEnd (perform setup) m [rejection 1]
     QueueHistory setup (play (perform setup) .empty givenBack) m ∧
       History (perform setup) m (play (perform setup) m [rejection 1]) s ∧
       (∃ u ∈ visited .empty (play (perform setup) .empty givenBack),
         u.OwnedBy setup (token 1 1 1)) ∧
       (m.slot .pending (token 1 1 1).requestId).isSome ∧
       ((perform setup (.fail (token 1 1 1) .contentValidationFailed now)).calmly s).2 =
         .ok .done) ∧
    let before := playEnd (perform setup) .empty
      [{ call := .accept (upload 1) }, { rejection 2 with cut := some 1 }]
    let issue := (claimTurn 1 1).event (perform setup) before
    QueueHistory setup (play (perform setup) .empty
        [{ call := .accept (upload 1) }, { rejection 2 with cut := some 1 }] ++ [issue]) issue.after ∧
      issue.reply = some (.ok (.claimed ⟨token 1 1 1, package 1⟩)) ∧
      ((perform setup (.complete (token 1 1 1) now)).calmly issue.after).2 =
        .error (.corruptState (requestId 1) .processing
          "successful request contains failure result metadata") := by
  refine ⟨⟨history_play _ _ _, history_play _ _ _, owner_visited, by decide +kernel,
    by decide +kernel⟩, ?_, by decide +kernel, by decide +kernel⟩
  exact (history_play _ _ _).append ((claimTurn 1 1).history _ _)

end QueueSample

end AgentKnowledge
