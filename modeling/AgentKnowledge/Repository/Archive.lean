import AgentKnowledge.Repository.Conflict

/-!
What an archived document keeps (`archived_markdown` in
`crates/repository/src/apply.rs`).

The planner takes the body off with a `markdown_body` of its own, the readers with
the one of the core crate, and the metadata comes from a third scan for the same
delimiters. The first part shows that the two body functions agree on every byte
string. The second puts the scans together: the archived text is decoded again,
differs in the three fields the archive sets, and has the old body.
-/

namespace AgentKnowledge

open Results

namespace PlanInput

/-! ### One body, two scanners -/

/-- The offset counts from the start of the text, `taken` bytes before these lines. -/
theorem drop_bodyOffset (taken : Bytes) (lines : List Bytes) :
    (bodyOffset taken.length lines).map (taken ++ lines.flatten).drop =
      bodyAfterDelimiter lines := by
  induction lines generalizing taken with
  | nil => rfl
  | cons line rest ih =>
      unfold bodyOffset bodyAfterDelimiter
      rw [List.flatten_cons, ← List.append_assoc, ← List.length_append]
      split
      · rw [Option.map_some, List.drop_left]
      · exact ih (taken ++ line)

/-- The two opening delimiters exclude each other, so their order does not matter. -/
theorem drop_openingLength (markdown : Bytes) :
    (openingLength markdown).map markdown.drop = stripOpeningDelimiter markdown := by
  unfold openingLength stripOpeningDelimiter
  by_cases hcrlf : Bytes.ascii "---\r\n" <+: markdown
  · obtain ⟨rest, rfl⟩ := hcrlf
    have hlf : ¬ Bytes.ascii "---\n" <+: Bytes.ascii "---\r\n" ++ rest := by
      rintro ⟨other, hother⟩
      have hfourth := congrArg (fun bytes : Bytes => bytes[3]?) hother
      exact absurd hfourth (by simp [Bytes.ascii])
    rw [if_pos (List.prefix_append _ _), if_neg hlf, if_pos (List.prefix_append _ _)]
    rfl
  · rw [if_neg hcrlf, if_neg hcrlf]
    split <;> rfl

theorem markdownBody_eq (markdown : Bytes) :
    markdownBody markdown = (AgentKnowledge.markdownBody markdown).toOption := by
  have hopening := drop_openingLength markdown
  unfold markdownBody AgentKnowledge.markdownBody
  split
  · rfl
  · cases hlength : openingLength markdown with
    | none =>
        rw [hlength] at hopening
        rw [← hopening]
        rfl
    | some length =>
        rw [hlength, Option.map_some] at hopening
        rw [← hopening]
        have hbody := drop_bodyOffset [] (Text.splitInclusive lineFeed (markdown.drop length))
        rw [List.nil_append, Text.flatten_splitInclusive] at hbody
        simp only [List.length_nil] at hbody
        simp only [hbody]
        cases bodyAfterDelimiter (Text.splitInclusive lineFeed (markdown.drop length)) <;> rfl

theorem markdownBody_eq_some {markdown body : Bytes} :
    markdownBody markdown = some body ↔ AgentKnowledge.markdownBody markdown = .ok body := by
  rw [markdownBody_eq]
  cases AgentKnowledge.markdownBody markdown <;> simp [Except.toOption]

/-! ### The archived text -/

variable {input : PlanInput}

theorem reservePlannedBytes_eq_ok {total additional maximum total' : Nat}
    (h : reservePlannedBytes total additional maximum = .ok total') :
    total' = total + additional := by
  simp only [reservePlannedBytes, bind_eq_ok, exists_unit, rejectIf_eq_ok, pure_eq_ok,
    Except.ok.injEq] at h
  exact h.2.2.symm

theorem length_writtenMarkdown (yaml body : Bytes) :
    (writtenMarkdown yaml body).length = (terminated yaml).length + body.length + 8 := by
  have hdelimiter : (Bytes.ascii "---\n").length = 4 := by decide
  simp only [writtenMarkdown, List.length_append, hdelimiter]
  omega

/-- An archived document is the old one with a new status, time and request. -/
theorem archivedMarkdown_preserves (hx : input.x.YamlReadable) {bytes archived : Bytes}
    {metadata : DocumentMetadata} {plannedBytes plannedBytes' : Nat}
    (hdecode : decodeDocumentMetadata input.x bytes input.policy.maximumFrontMatterBytes =
      .ok metadata)
    (h : input.archivedMarkdown bytes plannedBytes = .ok (archived, plannedBytes')) :
    decodeDocumentMetadata input.x archived input.policy.maximumFrontMatterBytes =
        .ok { metadata with
          updated := some input.operationTime
          requestId := input.request.requestId
          status := .archived } ∧
      (∃ body, AgentKnowledge.markdownBody bytes = .ok body ∧
        AgentKnowledge.markdownBody archived = .ok body ∧
        markdownBody bytes = some body ∧ markdownBody archived = some body) ∧
      archived.length ≤ input.policy.maximumMarkdownBytes ∧
      plannedBytes' = plannedBytes + archived.length := by
  unfold archivedMarkdown at h
  simp only [bind_eq_ok, exists_unit, mapError_eq_ok, ofOption_eq_ok, rejectIf_eq_ok, pure_eq_ok,
    Except.ok.injEq, Prod.mk.injEq, not_le, not_lt] at h
  obtain ⟨-, old, hold, -, body, hbody, yaml, hyaml, hfront, hlength, planned, hreserve, rfl, rfl⟩ :=
    h
  obtain rfl : old = metadata := decodeDocumentMetadata_unique hold hdecode
  have hcore := markdownBody_eq_some.1 hbody
  have htext : Bytes.validUtf8 body := validUtf8_markdownBody hcore
  have hwritten := markdownBody_written hx hyaml htext
  refine ⟨decodeDocumentMetadata_of_written hx hyaml htext hfront,
    ⟨body, hcore, hwritten, hbody, markdownBody_eq_some.2 hwritten⟩, ?_, ?_⟩
  · exact (length_writtenMarkdown yaml body).trans_le hlength
  · rw [reservePlannedBytes_eq_ok hreserve]
    exact congrArg (plannedBytes + ·) (length_writtenMarkdown yaml body).symm

end PlanInput

namespace Sample

def archive : ChangeRequest := request none [.archiveDocument document revision]

def archivedMetadata : DocumentMetadata :=
  { metadata with updated := some (day 2), requestId := archive.requestId, status := .archived }

/-- The encoder leaves the last line of the archived metadata open. -/
def archiveExternals : Externals :=
  .ofTables [([97, lineFeed], metadata), ([98], archivedMetadata),
    ([98, lineFeed], archivedMetadata)] []

def archiveInput : PlanInput where
  x := archiveExternals
  tree := tree []
  packageRoot := directory
  package := package archive
  index := ⟨[], []⟩
  policy := {}
  maximumPlannedBytes := 1000

/-- Windows line ends, and a body without a last line feed. -/
def windowsMarkdown : Bytes :=
  Bytes.ascii "---\r\n" ++ [97, lineFeed] ++ Bytes.ascii "---\r\nbody"

theorem archiveExternals_readable : archiveExternals.YamlReadable where
  toYamlRoundTrips := Externals.ofTables_roundTrip (by decide +kernel)
  encoded_utf8 _ _ hencode := by
    have htexts : ∀ entry ∈ [([97, lineFeed], metadata), ([98], archivedMetadata),
        ([98, lineFeed], archivedMetadata)], Bytes.validUtf8 entry.1 := by decide +kernel
    exact htexts _ (Externals.mem_of_encodeYaml hencode)
  encoded_budget _ _ _ _ _ := rfl

/-- The body survives, under delimiters of the other kind. -/
theorem windowsMarkdown_archived : ∃ archived plannedBytes',
    archiveInput.archivedMarkdown windowsMarkdown 5 = .ok (archived, plannedBytes') ∧
      decodeDocumentMetadata archiveExternals archived 65536 = .ok archivedMetadata ∧
      markdownBody archived = .ok (Bytes.ascii "body") ∧ plannedBytes' = 5 + archived.length := by
  obtain ⟨⟨archived, plannedBytes'⟩, harchived⟩ : ∃ result,
      archiveInput.archivedMarkdown windowsMarkdown 5 = .ok result :=
    exists_eq_ok_of_isOk (by decide +kernel)
  have hdecode : decodeDocumentMetadata archiveInput.x windowsMarkdown
      archiveInput.policy.maximumFrontMatterBytes = .ok metadata := by decide +kernel
  obtain ⟨hmetadata, ⟨body, hbody, hkept, -⟩, -, hplanned⟩ :=
    PlanInput.archivedMarkdown_preserves archiveExternals_readable hdecode harchived
  have hbytes : markdownBody windowsMarkdown = .ok (Bytes.ascii "body") := by decide +kernel
  rw [hbytes] at hbody
  cases hbody
  exact ⟨archived, plannedBytes', harchived, hmetadata, hkept, hplanned⟩

end Sample

end AgentKnowledge
