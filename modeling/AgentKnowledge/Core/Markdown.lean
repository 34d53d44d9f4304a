import AgentKnowledge.Core.Document
import AgentKnowledge.Lib.Bytes

/-!
Markdown front matter (`crates/core/src/markdown.rs`).

The delimiter scanners work on the bytes of the document. What the repository
takes from other libraries enters as `Externals`: the SHA-256 digest, the YAML
decoder and encoder of document metadata, and the JSON form of a request. No
definition looks inside them; a result that needs one of their documented laws
names it as a hypothesis (`Externals.YamlRoundTrips`).
-/

namespace AgentKnowledge

/-- The third-party functions the repository computes with. -/
structure Externals where
  /-- SHA-256 of a byte string. -/
  digest : Bytes → Revision
  /-- Whether the YAML parser gets through a text on a budget of so many bytes. -/
  withinBudget : Nat → Bytes → Bool
  /-- YAML front matter to metadata, on a sufficient budget. -/
  decodeYaml : Bytes → Option DocumentMetadata
  /-- Metadata to YAML. -/
  encodeYaml : DocumentMetadata → Option Bytes
  /-- `request.json` to a request. -/
  decodeRequest : Bytes → Option ChangeRequest
  /-- The canonical JSON of a request, as it enters the package digest. -/
  encodeRequest : ChangeRequest → Option Bytes

/-- An instance to compute with: finite tables of YAML texts and of request files,
and a digest that tells short byte strings apart. -/
def Externals.ofTables (documents : List (Bytes × DocumentMetadata))
    (requests : List (Bytes × ChangeRequest)) : Externals where
  digest bytes := ⟨BitVec.ofNat 256 (bytes.foldl (fun n byte => n * 257 + byte.toNat + 1) 0)⟩
  withinBudget _ _ := true
  decodeYaml text := (documents.find? fun entry => entry.1 = text).map Prod.snd
  encodeYaml metadata := (documents.find? fun entry => entry.2 = metadata).map Prod.fst
  decodeRequest text := (requests.find? fun entry => entry.1 = text).map Prod.snd
  encodeRequest request := (requests.find? fun entry => entry.2 = request).map Prod.fst

/-- A bounded Markdown front-matter decoding failure. -/
inductive DocumentParseError where
  | invalidUtf8
  | missingOpeningDelimiter
  | missingClosingDelimiter
  | frontMatterTooLarge (maximum actual : Nat)
  | invalidYaml
deriving DecidableEq, Repr

def lineFeed : UInt8 := 10

def carriageReturn : UInt8 := 13

/-- Remove a byte at the end, if it is there (`strip_suffix(c).unwrap_or(line)`). -/
def stripSuffixByte (byte : UInt8) (line : Bytes) : Bytes :=
  if line.getLast? = some byte then line.dropLast else line

/-- The content of one line piece: first a line feed goes, then a carriage return. -/
def lineContent (line : Bytes) : Bytes :=
  stripSuffixByte carriageReturn (stripSuffixByte lineFeed line)

/-- Remove `---\n` or `---\r\n` at the start. -/
def stripOpeningDelimiter (markdown : Bytes) : Option Bytes :=
  if Bytes.ascii "---\n" <+: markdown then some (markdown.drop 4)
  else if Bytes.ascii "---\r\n" <+: markdown then some (markdown.drop 5)
  else none

/-- The loop of `markdown_body`: everything after the first delimiter line. -/
def bodyAfterDelimiter : List Bytes → Option Bytes
  | [] => none
  | line :: rest =>
      if lineContent line = Bytes.ascii "---" then some rest.flatten
      else bodyAfterDelimiter rest

/-- Return the Markdown body after the required YAML front matter. -/
def markdownBody (markdown : Bytes) : Except DocumentParseError Bytes :=
  if ¬ Bytes.validUtf8 markdown then .error .invalidUtf8
  else
    match stripOpeningDelimiter markdown with
    | none => .error .missingOpeningDelimiter
    | some remainder =>
        match bodyAfterDelimiter (Text.splitInclusive lineFeed remainder) with
        | none => .error .missingClosingDelimiter
        | some body => .ok body

/-- The loop of `extract_front_matter`, with the bytes read so far in `taken`. -/
def frontMatterLines (maximumBytes : Nat) (taken : Bytes) :
    List Bytes → Except DocumentParseError Bytes
  | [] => .error .missingClosingDelimiter
  | line :: rest =>
      if lineContent line = Bytes.ascii "---" then
        if maximumBytes < taken.length then
          .error (.frontMatterTooLarge maximumBytes taken.length)
        else .ok taken
      else if maximumBytes < (taken ++ line).length then
        .error (.frontMatterTooLarge maximumBytes (taken ++ line).length)
      else frontMatterLines maximumBytes (taken ++ line) rest

def extractFrontMatter (markdown : Bytes) (maximumBytes : Nat) :
    Except DocumentParseError Bytes :=
  match stripOpeningDelimiter markdown with
  | none => .error .missingOpeningDelimiter
  | some remainder => frontMatterLines maximumBytes [] (Text.splitInclusive lineFeed remainder)

/-- Decode typed document metadata from a Markdown byte sequence. -/
def decodeDocumentMetadata (x : Externals) (markdown : Bytes) (maximumFrontMatterBytes : Nat) :
    Except DocumentParseError DocumentMetadata :=
  if ¬ Bytes.validUtf8 markdown then .error .invalidUtf8
  else
    match extractFrontMatter markdown maximumFrontMatterBytes with
    | .error error => .error error
    | .ok yaml =>
        if ¬ x.withinBudget maximumFrontMatterBytes yaml then .error .invalidYaml
        else
          match x.decodeYaml yaml with
          | none => .error .invalidYaml
          | some metadata => .ok metadata

/-! ### Limits decide whether metadata is decoded, not what it is -/

theorem frontMatterLines_eq_ok {maximum maximum' : Nat} {taken yaml yaml' : Bytes}
    {lines : List Bytes} (h : frontMatterLines maximum taken lines = .ok yaml)
    (h' : frontMatterLines maximum' taken lines = .ok yaml') : yaml = yaml' := by
  induction lines generalizing taken with
  | nil => cases h
  | cons line rest ih =>
      unfold frontMatterLines at h h'
      split at h
      · rename_i hdelimiter
        rw [if_pos hdelimiter] at h'
        split at h
        · cases h
        · split at h'
          · cases h'
          · cases h
            cases h'
            rfl
      · rename_i hdelimiter
        rw [if_neg hdelimiter] at h'
        split at h
        · cases h
        · split at h'
          · cases h'
          · exact ih h h'

theorem decodeDocumentMetadata_eq_ok {x : Externals} {markdown : Bytes} {maximum : Nat}
    {metadata : DocumentMetadata} :
    decodeDocumentMetadata x markdown maximum = .ok metadata ↔
      Bytes.validUtf8 markdown ∧ ∃ yaml, extractFrontMatter markdown maximum = .ok yaml ∧
        x.withinBudget maximum yaml ∧ x.decodeYaml yaml = some metadata := by
  unfold decodeDocumentMetadata
  by_cases hutf : Bytes.validUtf8 markdown
  · cases hextract : extractFrontMatter markdown maximum with
    | error error => simp [hutf]
    | ok yaml =>
        by_cases hbudget : x.withinBudget maximum yaml
        · cases hyaml : x.decodeYaml yaml <;> simp [hutf, hbudget, hyaml]
        · simp [hutf, hbudget]
  · simp [hutf]

/-- Metadata is a function of the bytes. -/
theorem decodeDocumentMetadata_unique {x : Externals} {markdown : Bytes} {maximum maximum' : Nat}
    {metadata metadata' : DocumentMetadata}
    (h : decodeDocumentMetadata x markdown maximum = .ok metadata)
    (h' : decodeDocumentMetadata x markdown maximum' = .ok metadata') : metadata = metadata' := by
  obtain ⟨-, yaml, hextract, -, hyaml⟩ := decodeDocumentMetadata_eq_ok.1 h
  obtain ⟨-, yaml', hextract', -, hyaml'⟩ := decodeDocumentMetadata_eq_ok.1 h'
  have heq : yaml = yaml' := by
    unfold extractFrontMatter at hextract hextract'
    split at hextract
    · cases hextract
    · rename_i remainder hremainder
      rw [hremainder] at hextract'
      exact frontMatterLines_eq_ok hextract hextract'
  subst heq
  rw [hyaml] at hyaml'
  exact Option.some.inj hyaml'

/-! ### Writing front matter -/

/-- A text with a line feed at its end, added if it is missing. -/
def terminated (yaml : Bytes) : Bytes :=
  if yaml.getLast? = some lineFeed then yaml else yaml ++ [lineFeed]

/-- What the YAML library promises about metadata it encodes: reading the text gives
the metadata back, and no line of the text looks like a document delimiter. -/
structure Externals.YamlRoundTrips (x : Externals) : Prop where
  decode_encode : ∀ metadata yaml, x.encodeYaml metadata = some yaml →
    x.decodeYaml (terminated yaml) = some metadata
  no_delimiter : ∀ metadata yaml, x.encodeYaml metadata = some yaml →
    ∀ line ∈ Text.splitInclusive lineFeed (terminated yaml), lineContent line ≠ Bytes.ascii "---"

theorem Externals.mem_of_encodeYaml {documents : List (Bytes × DocumentMetadata)}
    {requests : List (Bytes × ChangeRequest)} {metadata : DocumentMetadata} {yaml : Bytes}
    (hencode : (Externals.ofTables documents requests).encodeYaml metadata = some yaml) :
    (yaml, metadata) ∈ documents := by
  obtain ⟨⟨text, decoded⟩, hfind, rfl⟩ := Option.map_eq_some_iff.1 hencode
  have hdecoded : decoded = metadata := by simpa using List.find?_some hfind
  exact hdecoded ▸ List.mem_of_find?_eq_some hfind

/-- Tables whose texts are decoded to what they encode. -/
theorem Externals.ofTables_roundTrip {documents : List (Bytes × DocumentMetadata)}
    {requests : List (Bytes × ChangeRequest)}
    (h : ∀ entry ∈ documents,
      (documents.find? fun other => other.1 = terminated entry.1).map Prod.snd = some entry.2 ∧
        ∀ line ∈ Text.splitInclusive lineFeed (terminated entry.1),
          lineContent line ≠ Bytes.ascii "---") :
    (Externals.ofTables documents requests).YamlRoundTrips :=
  ⟨fun _ _ hencode => (h _ (mem_of_encodeYaml hencode)).1,
    fun _ _ hencode => (h _ (mem_of_encodeYaml hencode)).2⟩

theorem exists_terminated (yaml : Bytes) : ∃ lines, terminated yaml = lines ++ [lineFeed] := by
  unfold terminated
  split
  · rename_i hlast
    exact ⟨yaml.dropLast, (List.dropLast_append_getLast? _ hlast).symm⟩
  · exact ⟨yaml, rfl⟩

/-- Lines that are no delimiter are taken up to the first one that is. -/
theorem frontMatterLines_append {maximum : Nat} {taken yaml : Bytes} {lines rest : List Bytes}
    {delimiter : Bytes} (hlines : ∀ line ∈ lines, lineContent line ≠ Bytes.ascii "---")
    (hdelimiter : lineContent delimiter = Bytes.ascii "---")
    (h : frontMatterLines maximum taken (lines ++ delimiter :: rest) = .ok yaml) :
    yaml = taken ++ lines.flatten := by
  induction lines generalizing taken with
  | nil =>
      simp only [List.nil_append, frontMatterLines, hdelimiter, if_true] at h
      split at h
      · cases h
      · cases h
        simp
  | cons line lines ih =>
      obtain ⟨hline, hlines⟩ := List.forall_mem_cons.1 hlines
      simp only [List.cons_append, frontMatterLines, hline, if_false] at h
      split at h
      · cases h
      · rw [ih hlines h, List.flatten_cons, List.append_assoc]

theorem frontMatterLines_of_length_le {maximum : Nat} {taken : Bytes} {lines rest : List Bytes}
    {delimiter : Bytes} (hlines : ∀ line ∈ lines, lineContent line ≠ Bytes.ascii "---")
    (hdelimiter : lineContent delimiter = Bytes.ascii "---")
    (hlength : (taken ++ lines.flatten).length ≤ maximum) :
    frontMatterLines maximum taken (lines ++ delimiter :: rest) = .ok (taken ++ lines.flatten) := by
  induction lines generalizing taken with
  | nil =>
      rw [List.flatten_nil, List.append_nil] at hlength ⊢
      rw [List.nil_append, frontMatterLines, if_pos hdelimiter, if_neg (Nat.not_lt.2 hlength)]
  | cons line lines ih =>
      obtain ⟨hline, hlines⟩ := List.forall_mem_cons.1 hlines
      rw [List.flatten_cons, ← List.append_assoc] at hlength ⊢
      have htaken : ¬ maximum < (taken ++ line).length := by
        rw [List.length_append] at hlength
        omega
      rw [List.cons_append, frontMatterLines, if_neg hline, if_neg htaken, ih hlines hlength]

theorem bodyAfterDelimiter_append {lines rest : List Bytes} {delimiter : Bytes}
    (hlines : ∀ line ∈ lines, lineContent line ≠ Bytes.ascii "---")
    (hdelimiter : lineContent delimiter = Bytes.ascii "---") :
    bodyAfterDelimiter (lines ++ delimiter :: rest) = some rest.flatten := by
  induction lines with
  | nil => rw [List.nil_append, bodyAfterDelimiter, if_pos hdelimiter]
  | cons line lines ih =>
      obtain ⟨hline, hlines⟩ := List.forall_mem_cons.1 hlines
      rw [List.cons_append, bodyAfterDelimiter, if_neg hline, ih hlines]

/-- A document as it is written: front matter between two delimiters, then the body. -/
def writtenMarkdown (yaml body : Bytes) : Bytes :=
  Bytes.ascii "---\n" ++ terminated yaml ++ Bytes.ascii "---\n" ++ body

theorem stripOpeningDelimiter_written (yaml body : Bytes) :
    stripOpeningDelimiter (writtenMarkdown yaml body) =
      some (terminated yaml ++ Bytes.ascii "---\n" ++ body) := by
  rw [writtenMarkdown, stripOpeningDelimiter, if_pos, List.append_assoc, List.append_assoc,
    List.append_assoc]
  · rfl
  · rw [List.append_assoc, List.append_assoc]
    exact List.prefix_append _ _

theorem splitInclusive_written (yaml body : Bytes) :
    Text.splitInclusive lineFeed (terminated yaml ++ Bytes.ascii "---\n" ++ body) =
      Text.splitInclusive lineFeed (terminated yaml) ++
        Bytes.ascii "---\n" :: Text.splitInclusive lineFeed body := by
  obtain ⟨lines, hlines⟩ := exists_terminated yaml
  have hbody : Text.splitInclusive lineFeed (Bytes.ascii "---\n" ++ body) =
      Bytes.ascii "---\n" :: Text.splitInclusive lineFeed body :=
    Text.splitInclusive_append_separator (Bytes.ascii "---") body
  rw [hlines, List.append_assoc, List.append_assoc, List.singleton_append,
    Text.splitInclusive_append_separator, hbody]

theorem extractFrontMatter_written (yaml body : Bytes) (maximum : Nat) :
    extractFrontMatter (writtenMarkdown yaml body) maximum =
      frontMatterLines maximum [] (Text.splitInclusive lineFeed (terminated yaml) ++
        Bytes.ascii "---\n" :: Text.splitInclusive lineFeed body) := by
  unfold extractFrontMatter
  rw [stripOpeningDelimiter_written, ← splitInclusive_written]

/-- A written document is read back as the metadata it was written for. -/
theorem decodeDocumentMetadata_written {x : Externals} (hx : x.YamlRoundTrips)
    {metadata metadata' : DocumentMetadata} {yaml body : Bytes} {maximum : Nat}
    (hencode : x.encodeYaml metadata = some yaml)
    (hdecode : decodeDocumentMetadata x (writtenMarkdown yaml body) maximum = .ok metadata') :
    metadata' = metadata := by
  obtain ⟨-, text, hextract, -, htext⟩ := decodeDocumentMetadata_eq_ok.1 hdecode
  rw [extractFrontMatter_written] at hextract
  have hyaml := frontMatterLines_append (hx.no_delimiter metadata yaml hencode) (by decide) hextract
  rw [List.nil_append, Text.flatten_splitInclusive] at hyaml
  rw [hyaml, hx.decode_encode metadata yaml hencode] at htext
  exact (Option.some.inj htext).symm

/-- What the encoder writes is text, and is read on the budget of any limit it fits in. -/
structure Externals.YamlReadable (x : Externals) : Prop extends x.YamlRoundTrips where
  encoded_utf8 : ∀ metadata yaml, x.encodeYaml metadata = some yaml → Bytes.validUtf8 yaml
  encoded_budget : ∀ metadata yaml maximum, x.encodeYaml metadata = some yaml →
    (terminated yaml).length ≤ maximum → x.withinBudget maximum (terminated yaml)

theorem validUtf8_terminated {yaml : Bytes} (h : Bytes.validUtf8 yaml) :
    Bytes.validUtf8 (terminated yaml) := by
  unfold terminated
  split
  · exact h
  · rw [Bytes.validUtf8_append h]
    rfl

theorem validUtf8_written {yaml body : Bytes} (hyaml : Bytes.validUtf8 yaml)
    (hbody : Bytes.validUtf8 body) : Bytes.validUtf8 (writtenMarkdown yaml body) := by
  rw [writtenMarkdown, List.append_assoc, List.append_assoc, Bytes.validUtf8_append (by decide),
    Bytes.validUtf8_append (validUtf8_terminated hyaml), Bytes.validUtf8_append (by decide)]
  exact hbody

/-- A written document whose front matter fits is decoded. -/
theorem decodeDocumentMetadata_of_written {x : Externals} (hx : x.YamlReadable)
    {metadata : DocumentMetadata} {yaml body : Bytes} {maximum : Nat}
    (hencode : x.encodeYaml metadata = some yaml) (hbody : Bytes.validUtf8 body)
    (hlength : (terminated yaml).length ≤ maximum) :
    decodeDocumentMetadata x (writtenMarkdown yaml body) maximum = .ok metadata := by
  have hextract : extractFrontMatter (writtenMarkdown yaml body) maximum =
      .ok (terminated yaml) := by
    rw [extractFrontMatter_written,
      frontMatterLines_of_length_le (hx.no_delimiter metadata yaml hencode) (by decide)]
    · rw [List.nil_append, Text.flatten_splitInclusive]
    · rwa [List.nil_append, Text.flatten_splitInclusive]
  exact decodeDocumentMetadata_eq_ok.2
    ⟨validUtf8_written (hx.encoded_utf8 metadata yaml hencode) hbody, terminated yaml, hextract,
      hx.encoded_budget metadata yaml maximum hencode hlength,
      hx.decode_encode metadata yaml hencode⟩

theorem markdownBody_eq_ok {markdown body : Bytes} :
    markdownBody markdown = .ok body ↔
      Bytes.validUtf8 markdown ∧ ∃ remainder, stripOpeningDelimiter markdown = some remainder ∧
        bodyAfterDelimiter (Text.splitInclusive lineFeed remainder) = some body := by
  unfold markdownBody
  by_cases hutf : Bytes.validUtf8 markdown
  · cases hstrip : stripOpeningDelimiter markdown with
    | none => simp [hutf]
    | some remainder =>
        cases hbody : bodyAfterDelimiter (Text.splitInclusive lineFeed remainder) <;>
          simp [hutf, hbody]
  · simp [hutf]

theorem markdownBody_written {x : Externals} (hx : x.YamlReadable) {metadata : DocumentMetadata}
    {yaml body : Bytes} (hencode : x.encodeYaml metadata = some yaml)
    (hbody : Bytes.validUtf8 body) : markdownBody (writtenMarkdown yaml body) = .ok body := by
  refine markdownBody_eq_ok.2 ⟨validUtf8_written (hx.encoded_utf8 metadata yaml hencode) hbody, _,
    stripOpeningDelimiter_written yaml body, ?_⟩
  rw [splitInclusive_written,
    bodyAfterDelimiter_append (hx.no_delimiter metadata yaml hencode) (by decide),
    Text.flatten_splitInclusive]

/-! ### A body is text -/

/-- What follows a whole line is cut off after a line feed. -/
theorem validUtf8_bodyAfterDelimiter {lines : List Bytes} (hlines : Text.Pieces lineFeed lines)
    (hutf : Bytes.validUtf8 lines.flatten) {body : Bytes}
    (h : bodyAfterDelimiter lines = some body) : Bytes.validUtf8 body := by
  induction hlines with
  | nil => cases h
  | last _ _ =>
      unfold bodyAfterDelimiter at h
      split at h
      · cases h
        rfl
      · cases h
  | @cons line rest _ _ ih =>
      have hcut : ((line ++ [lineFeed]) :: rest).flatten = line ++ lineFeed :: rest.flatten := by
        simp
      have hrest := (Bytes.validUtf8_split (by decide) hutf hcut).2
      unfold bodyAfterDelimiter at h
      split at h
      · cases h
        exact hrest
      · exact ih hrest h

theorem validUtf8_stripOpeningDelimiter {markdown remainder : Bytes}
    (hutf : Bytes.validUtf8 markdown) (h : stripOpeningDelimiter markdown = some remainder) :
    Bytes.validUtf8 remainder := by
  unfold stripOpeningDelimiter at h
  split at h
  · rename_i hopening
    obtain ⟨rest, rfl⟩ := hopening
    cases h
    rwa [Bytes.validUtf8_append (by decide)] at hutf
  · split at h
    · rename_i hopening
      obtain ⟨rest, rfl⟩ := hopening
      cases h
      rwa [Bytes.validUtf8_append (by decide)] at hutf
    · cases h

theorem validUtf8_markdownBody {markdown body : Bytes} (h : markdownBody markdown = .ok body) :
    Bytes.validUtf8 body := by
  obtain ⟨hutf, remainder, hstrip, hbody⟩ := markdownBody_eq_ok.1 h
  refine validUtf8_bodyAfterDelimiter (Text.pieces_splitInclusive _) ?_ hbody
  rw [Text.flatten_splitInclusive]
  exact validUtf8_stripOpeningDelimiter hutf hstrip

end AgentKnowledge
