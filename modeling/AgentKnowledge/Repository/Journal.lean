import AgentKnowledge.Queue.Package

/-!
The transaction journal and the commit message it is checked against
(`crates/repository/src/git.rs`).

A Committed journal is only accepted again, in the same run or by a later
recovery, if the message of its commit carries exactly the trailers of the
journal (`messageMatches`, the last check of `validate_committed_journal`). The
message is written by `commitMessage`, which copies each request title as it
stands.

* `keyed_commitMessage` reads the trailers of any commit message: the stray lines
  that titles bring in, then the trailers the function writes.
* `commitMessage_matches_iff`: the check passes iff no successful title carries
  one of the two trailer keys after a line feed.
-/

namespace AgentKnowledge

/-- A Git object name. -/
abbrev CommitId := String

structure JournalClaim where
  requestId : RequestId
  attempt : Nat
  acceptanceSequence : Nat
deriving DecidableEq, Repr

structure JournalFailure where
  requestId : RequestId
  errorCode : ErrorCode
deriving DecidableEq, Repr

/-- The phases of a transaction. -/
inductive JournalState where
  | preparing
  | noChanges (failures : List JournalFailure)
  | committed (commit : CommitId) (successful : List RequestId) (failures : List JournalFailure)
      (publicationStarted : Bool)
deriving DecidableEq, Repr

structure TransactionJournal where
  batchId : BatchId
  queueIdentity : Revision
  baseCommit : CommitId
  claims : List JournalClaim
  claimFailures : Nat
  state : JournalState
deriving DecidableEq, Repr

/-- Counts of the paths a batch adds, modifies and deletes. -/
structure FileStats where
  added : Nat
  modified : Nat
  deleted : Nat
deriving DecidableEq, Repr

@[irreducible] def decimal (value : Nat) : List Char := Nat.toDigits 10 value

/-- The line of one successful request in the message body. -/
def messageEntry (request : ChangeRequest) : List Char :=
  Text.lit "- [" ++ request.requestId.toText ++ Text.lit "] " ++ request.title.toList ++ ['\n']

/-- The claims whose token is among the successful ones, in claim order. -/
def successfulClaims (claims : List ClaimedPackage) (successful : List ClaimToken) :
    List ClaimedPackage :=
  claims.filter fun claim => successful.contains claim.token

def commitMessage (batchId : BatchId) (claims : List ClaimedPackage)
    (successful : List ClaimToken) (stats : FileStats) : List Char :=
  Text.lit "knowledge snapshot: " ++ decimal successful.length ++ Text.lit " changes" ++
    ['\n', '\n'] ++
    (successfulClaims claims successful).flatMap (fun claim => messageEntry claim.package.request) ++
    ['\n'] ++ Text.lit "Requests: " ++ decimal successful.length ++
    ['\n'] ++ Text.lit "Files-Added: " ++ decimal stats.added ++
    ['\n'] ++ Text.lit "Files-Modified: " ++ decimal stats.modified ++
    ['\n'] ++ Text.lit "Files-Deleted: " ++ decimal stats.deleted ++
    ['\n', '\n'] ++ Text.lit "Batch-ID: " ++ batchId.toText ++ ['\n'] ++
    successful.flatMap fun token =>
      Text.lit "Knowledge-Request: " ++ token.requestId.toText ++ ['\n']

def batchKey : List Char := Text.lit "Batch-ID:"

def requestKey : List Char := Text.lit "Knowledge-Request:"

def batchTrailer (batchId : BatchId) : List Char := Text.lit "Batch-ID: " ++ batchId.toText

def requestTrailer (requestId : RequestId) : List Char :=
  Text.lit "Knowledge-Request: " ++ requestId.toText

/-- The message check of `validate_committed_journal` for the batch and the
successful requests of a Committed journal. -/
def messageMatches (batchId : BatchId) (successful : List RequestId) (message : List Char) : Bool :=
  let batchTrailers := Text.keyed batchKey message
  let requestTrailers := Text.keyed requestKey message
  batchTrailers.length == 1 && batchTrailers.head? == some (batchTrailer batchId) &&
    requestTrailers == successful.map requestTrailer

/-- The message check as a whole, on the journal. Only a Committed journal has a
commit whose message could pass it. -/
def TransactionJournal.messageCheck (journal : TransactionJournal) (message : List Char) : Bool :=
  match journal.state with
  | .committed _ successful _ _ => messageMatches journal.batchId successful message
  | .preparing | .noChanges _ => false

/-- A title with a trailer key right after a line feed: in the message, that part
of the title starts a line of its own. -/
def carriesTrailer (title : String) : Bool :=
  ('\n' :: batchKey) <:+: title.toList || ('\n' :: requestKey) <:+: title.toList

/-! ### Reading the trailers back -/

theorem isKey_batchKey : Text.IsKey batchKey := ⟨by decide +kernel, by decide +kernel, by decide +kernel⟩

theorem isKey_requestKey : Text.IsKey requestKey := ⟨by decide +kernel, by decide +kernel, by decide +kernel⟩

/-- Characters a number or an identifier is written with: no line ends there. -/
theorem decimal_no_terminator (value : Nat) : '\n' ∉ decimal value ∧ '\r' ∉ decimal value := by
  unfold decimal
  constructor <;> intro h <;>
    exact absurd (Nat.isDigit_of_mem_toDigits (by decide) (by decide) h) (by decide)

theorem ulid_no_terminator (id : Ulid) : '\n' ∉ id.toText ∧ '\r' ∉ id.toText := by
  constructor <;> intro h <;> exact absurd (Ulid.mem_toText h) (by decide)

/-- The line of the number of changes, and the empty line after it. -/
def headerLines (requests : Nat) : List (List Char) :=
  [Text.lit "knowledge snapshot: " ++ decimal requests ++ Text.lit " changes", []]

/-- The statistics between the entries and the trailers. -/
def statisticsLines (requests : Nat) (stats : FileStats) : List (List Char) :=
  [[], Text.lit "Requests: " ++ decimal requests, Text.lit "Files-Added: " ++ decimal stats.added,
    Text.lit "Files-Modified: " ++ decimal stats.modified,
    Text.lit "Files-Deleted: " ++ decimal stats.deleted, []]

def trailerLines (batchId : BatchId) (successful : List ClaimToken) : List (List Char) :=
  batchTrailer batchId :: successful.map fun token => requestTrailer token.requestId

/-- The message as lines around the entries. -/
theorem commitMessage_eq (batchId : BatchId) (claims : List ClaimedPackage)
    (successful : List ClaimToken) (stats : FileStats) :
    commitMessage batchId claims successful stats =
      (Text.unlines (headerLines successful.length) ++
        ((successfulClaims claims successful).flatMap
            (fun claim => messageEntry claim.package.request) ++
          Text.unlines (statisticsLines successful.length stats))) ++
        Text.unlines (trailerLines batchId successful) := by
  unfold commitMessage headerLines statisticsLines trailerLines batchTrailer requestTrailer
  simp [Text.unlines, List.flatMap_map]

theorem terminated_messageEntry (request : ChangeRequest) :
    Text.Terminated (messageEntry request) :=
  .inr ⟨_, rfl⟩

theorem terminated_entries (claims : List ClaimedPackage) :
    Text.Terminated (claims.flatMap fun claim => messageEntry claim.package.request) := by
  induction claims with
  | nil => exact .inl rfl
  | cons claim rest ih => exact (terminated_messageEntry claim.package.request).append ih

theorem keyed_entries (key : List Char) (claims : List ClaimedPackage) :
    Text.keyed key (claims.flatMap fun claim => messageEntry claim.package.request) =
      claims.flatMap fun claim => Text.keyed key (messageEntry claim.package.request) := by
  induction claims with
  | nil => rfl
  | cons claim rest ih =>
      rw [List.flatMap_cons, Text.keyed_append (terminated_messageEntry _), ih, List.flatMap_cons]

theorem keyed_messageEntry_eq_nil_iff {key : List Char} (h : Text.IsKey key)
    (hdash : key.head? ≠ some '-') (request : ChangeRequest) :
    Text.keyed key (messageEntry request) = [] ↔ ¬ ('\n' :: key) <:+: request.title.toList := by
  have hfront : '\n' ∉ Text.lit "- [" ++ request.requestId.toText ++ Text.lit "] " := by
    have := (ulid_no_terminator request.requestId.ulid).1
    simpa [RequestId.toText, Text.lit_eq] using this
  have hentry : messageEntry request =
      (Text.lit "- [" ++ request.requestId.toText ++ Text.lit "] ") ++
        (request.title.toList ++ ['\n']) := by simp [messageEntry]
  have hstart : ¬ key <+: messageEntry request := by
    obtain ⟨c, rest, rfl⟩ := List.exists_cons_of_ne_nil h.nonempty
    intro hkey
    obtain ⟨tail, htail⟩ := hkey
    have hc : c = '-' := by simpa [messageEntry, Text.lit_eq] using congrArg List.head? htail
    simp [hc] at hdash
  rw [Text.keyed_eq_nil_iff h, hentry, Text.newline_key_infix_iff h hfront, ← hentry]
  exact and_iff_right hstart

theorem header_no_terminator (requests : Nat) :
    ∀ line ∈ headerLines requests, '\n' ∉ line ∧ '\r' ∉ line := by
  simp [headerLines, decimal_no_terminator, Text.lit_eq]

theorem statistics_no_terminator (requests : Nat) (stats : FileStats) :
    ∀ line ∈ statisticsLines requests stats, '\n' ∉ line ∧ '\r' ∉ line := by
  simp [statisticsLines, decimal_no_terminator, Text.lit_eq]

theorem trailer_no_terminator (batchId : BatchId) (successful : List ClaimToken) :
    ∀ line ∈ trailerLines batchId successful, '\n' ∉ line ∧ '\r' ∉ line := by
  intro line hline
  rcases List.mem_cons.1 hline with rfl | hline
  · have hbatch := ulid_no_terminator batchId.ulid
    simp [batchTrailer, BatchId.toText, hbatch, Text.lit_eq]
  · obtain ⟨token, -, rfl⟩ := List.mem_map.1 hline
    have htoken := ulid_no_terminator token.requestId.ulid
    simp [requestTrailer, RequestId.toText, htoken, Text.lit_eq]

theorem trailer_ne_nil (batchId : BatchId) (successful : List ClaimToken) :
    ∀ line ∈ trailerLines batchId successful, line ≠ [] := by
  intro line hline
  rcases List.mem_cons.1 hline with rfl | hline
  · simp [batchTrailer, Text.lit_eq]
  · obtain ⟨token, -, rfl⟩ := List.mem_map.1 hline
    simp [requestTrailer, Text.lit_eq]

/-- The lines a message has with one of the two keys: what the titles bring in,
then the trailers the function writes. -/
theorem keyed_commitMessage {key : List Char} (batchId : BatchId) (claims : List ClaimedPackage)
    (successful : List ClaimToken) (stats : FileStats)
    (hkey : key = batchKey ∨ key = requestKey) :
    Text.keyed key (commitMessage batchId claims successful stats) =
      (successfulClaims claims successful).flatMap
          (fun claim => Text.keyed key (messageEntry claim.package.request)) ++
        (trailerLines batchId successful).filter fun line => key.isPrefixOf line := by
  have front : Text.Terminated (Text.unlines (headerLines successful.length)) :=
    Text.terminated_unlines _
  have middle := (terminated_entries (successfulClaims claims successful)).append
    (Text.terminated_unlines (statisticsLines successful.length stats))
  rw [commitMessage_eq, Text.keyed_append (front.append middle), Text.keyed_append front,
    Text.keyed_append (terminated_entries _), keyed_entries,
    Text.keyed_unlines _ (header_no_terminator _),
    Text.keyed_unlines _ (statistics_no_terminator _ _),
    Text.keyed_unlines _ (trailer_no_terminator _ _)]
  rcases hkey with rfl | rfl
  · simp [headerLines, statisticsLines, batchKey, List.isPrefixOf, Text.lit_eq]
  · simp [headerLines, statisticsLines, requestKey, List.isPrefixOf, Text.lit_eq]

theorem filter_batchKey_trailerLines (batchId : BatchId) (successful : List ClaimToken) :
    ((trailerLines batchId successful).filter fun line => batchKey.isPrefixOf line) =
      [batchTrailer batchId] := by
  rw [trailerLines, List.filter_cons_of_pos, List.filter_eq_nil_iff.2]
  · intro line hline
    obtain ⟨token, -, rfl⟩ := List.mem_map.1 hline
    simp [batchKey, requestTrailer, List.isPrefixOf, Text.lit_eq]
  · simp [batchKey, batchTrailer, List.isPrefixOf, Text.lit_eq]

theorem filter_requestKey_trailerLines (batchId : BatchId) (successful : List ClaimToken) :
    ((trailerLines batchId successful).filter fun line => requestKey.isPrefixOf line) =
      successful.map fun token => requestTrailer token.requestId := by
  rw [trailerLines, List.filter_cons_of_neg, List.filter_eq_self.2]
  · intro line hline
    obtain ⟨token, -, rfl⟩ := List.mem_map.1 hline
    simp [requestKey, requestTrailer, List.isPrefixOf, Text.lit_eq]
  · simp [requestKey, batchTrailer, List.isPrefixOf, Text.lit_eq]

/-- Git may drop or add line feeds at the end of a message; the trailers stay. -/
theorem keyed_stored {key stored : List Char} (h : Text.IsKey key) {batchId : BatchId}
    {claims : List ClaimedPackage} {successful : List ClaimToken} {stats : FileStats}
    (hstored : Text.SameUpToNewlines stored (commitMessage batchId claims successful stats)) :
    Text.keyed key stored = Text.keyed key (commitMessage batchId claims successful stats) := by
  have hne : trailerLines batchId successful ≠ [] := by simp [trailerLines]
  have hlast := List.getLast_mem hne
  have hbody : Text.Terminated (Text.unlines (headerLines successful.length) ++
      ((successfulClaims claims successful).flatMap
          (fun claim => messageEntry claim.package.request) ++
        Text.unlines (statisticsLines successful.length stats))) :=
    (Text.terminated_unlines _).append
      ((terminated_entries _).append (Text.terminated_unlines _))
  rw [commitMessage_eq] at hstored ⊢
  exact Text.keyed_of_sameUpToNewlines_unlines h hbody hne
    ⟨trailer_ne_nil _ _ _ hlast, trailer_no_terminator _ _ _ hlast⟩ hstored

/-! ### The message check -/

theorem keyed_titles_eq_nil_iff {key : List Char} (h : Text.IsKey key)
    (hdash : key.head? ≠ some '-') (claims : List ClaimedPackage) :
    claims.flatMap (fun claim => Text.keyed key (messageEntry claim.package.request)) = [] ↔
      ∀ claim ∈ claims, ¬ ('\n' :: key) <:+: claim.package.request.title.toList := by
  simp only [List.flatMap_eq_nil_iff, keyed_messageEntry_eq_nil_iff h hdash]

theorem messageMatches_stored_iff {batchId : BatchId} {claims : List ClaimedPackage}
    {successful : List ClaimToken} {stats : FileStats} {stored : List Char}
    (hstored : Text.SameUpToNewlines stored (commitMessage batchId claims successful stats)) :
    messageMatches batchId (successful.map ClaimToken.requestId) stored ↔
      ∀ claim ∈ successfulClaims claims successful,
        carriesTrailer claim.package.request.title = false := by
  have hbatch := keyed_titles_eq_nil_iff isKey_batchKey (by decide +kernel)
    (successfulClaims claims successful)
  have hrequest := keyed_titles_eq_nil_iff isKey_requestKey (by decide +kernel)
    (successfulClaims claims successful)
  simp only [messageMatches, keyed_stored isKey_batchKey hstored,
    keyed_stored isKey_requestKey hstored, keyed_commitMessage _ _ _ _ (.inl rfl),
    keyed_commitMessage _ _ _ _ (.inr rfl), filter_batchKey_trailerLines,
    filter_requestKey_trailerLines]
  -- What the titles bring in stands in front of the written trailers, so the counts agree iff
  -- the titles bring in nothing.
  generalize (successfulClaims claims successful).flatMap
    (fun claim => Text.keyed batchKey (messageEntry claim.package.request)) = strayBatch at hbatch ⊢
  generalize (successfulClaims claims successful).flatMap
    (fun claim => Text.keyed requestKey (messageEntry claim.package.request)) = strayRequest
    at hrequest ⊢
  have hcarries : (∀ claim ∈ successfulClaims claims successful,
      carriesTrailer claim.package.request.title = false) ↔ strayBatch = [] ∧ strayRequest = [] := by
    rw [hbatch, hrequest]
    simp only [carriesTrailer, Bool.or_eq_false_iff, decide_eq_false_iff_not]
    exact ⟨fun h => ⟨fun c hc => (h c hc).1, fun c hc => (h c hc).2⟩,
      fun h c hc => ⟨h.1 c hc, h.2 c hc⟩⟩
  rw [hcarries]
  constructor
  · intro h
    simp only [Bool.and_eq_true, beq_iff_eq, List.length_append, List.length_singleton,
      List.map_map] at h
    obtain ⟨⟨hlength, -⟩, hrequests⟩ := h
    refine ⟨List.eq_nil_of_length_eq_zero (by omega), ?_⟩
    exact List.append_left_eq_self.1 hrequests
  · rintro ⟨rfl, rfl⟩
    simp [Function.comp_def]

/-- **Trailers agree with the journal iff no title forges one.** For every batch,
every list of claims and every selection of successful tokens, whatever Git
returns for the stored message passes the check of the Committed journal, before
and after publication has started, exactly when no successful title carries a
trailer key after a line feed. -/
theorem committed_messageCheck_iff {journal : TransactionJournal} {claims : List ClaimedPackage}
    {successful : List ClaimToken} {stats : FileStats} {stored : List Char} {commit : CommitId}
    {failures : List JournalFailure} {publicationStarted : Bool}
    (hstate : journal.state = .committed commit (successful.map ClaimToken.requestId) failures
      publicationStarted)
    (hstored : Text.SameUpToNewlines stored
      (commitMessage journal.batchId claims successful stats)) :
    journal.messageCheck stored ↔
      ∀ claim ∈ successfulClaims claims successful,
        carriesTrailer claim.package.request.title = false := by
  rw [TransactionJournal.messageCheck, hstate]
  exact messageMatches_stored_iff hstored

/-! ### A title that forges a trailer -/

/-- A request whose title starts with a line feed and a batch trailer. Its trimmed
title holds no control character. -/
def forgingRequest (title : String) : ChangeRequest where
  protocolVersion := 1
  requestId := ⟨⟨1, Ulid.bound_one⟩⟩
  title := title
  project := none
  documentType := .decision
  node := none
  agent := none
  session := none
  createdAt := ⟨2025, 1, 1, 0, 0, 0, 0, 0, by decide⟩
  operations := [.archiveDocument ⟨⟨2, Ulid.bound_two⟩⟩ ⟨0⟩]

def forgingClaim (title : String) : ClaimedPackage where
  token := ⟨⟨⟨1, Ulid.bound_one⟩⟩, ⟨⟨3, Ulid.bound_three⟩⟩, 1⟩
  package := ⟨forgingRequest title, ⟨⟨0⟩⟩, [], none⟩
  packageRoot := ⟨[], [], ⟨⟨0⟩⟩, ⟨1, ⟨2025, 1, 1, 0, 0, 0, 0, 0, by decide⟩, none,
    AcceptanceMetadata.first_valid⟩, List.nodup_nil⟩

/-- The Committed journal of a batch of the one claim above. -/
def forgingJournal (title : String) : TransactionJournal where
  batchId := ⟨⟨3, Ulid.bound_three⟩⟩
  queueIdentity := ⟨0⟩
  baseCommit := "base"
  claims := [⟨(forgingClaim title).token.requestId, 1, 1⟩]
  claimFailures := 0
  state := .committed "commit" ([(forgingClaim title).token].map ClaimToken.requestId) [] false

def forgingMessage (title : String) : List Char :=
  commitMessage (forgingJournal title).batchId [forgingClaim title] [(forgingClaim title).token]
    ⟨0, 1, 0⟩

/-- A plain title passes the check, by the general criterion. -/
theorem committed_messageCheck_plain :
    (forgingJournal "plain").messageCheck (forgingMessage "plain") := by
  have hstored : Text.SameUpToNewlines (forgingMessage "plain")
      (commitMessage (forgingJournal "plain").batchId [forgingClaim "plain"]
        [(forgingClaim "plain").token] ⟨0, 1, 0⟩) := rfl
  exact (committed_messageCheck_iff rfl hstored).2 (by decide +kernel)

/-- The request validates, yet the message check rejects the message of its own batch. -/
theorem forged_batch_trailer_rejected :
    (forgingRequest "\nBatch-ID: x").validate {} = .ok () ∧
      (forgingJournal "\nBatch-ID: x").messageCheck (forgingMessage "\nBatch-ID: x") = false :=
  ⟨by rfl, by decide +kernel⟩

end AgentKnowledge
