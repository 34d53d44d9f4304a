import AgentKnowledge.Lib.Expansion
import AgentKnowledge.Repository.Conflict
import AgentKnowledge.Repository.Read

/-!
Linear search over committed documents and its excerpts (`crates/repository/src/read.rs`).

`LinearSearch.search` looks for a lowercase query in the fields of every selected document, and
`linearExcerpts` cuts a window around the first match of each field. The match is found as a byte
offset in the lowercase text, which has other lengths than the source, and is carried back to a
character of the source.

* `linearExcerpts_ne_nil_iff`: a document has an excerpt iff the search matches it;
* `search_eq_ok`: so a search returns the documents that have excerpts, by path;
* `linearExcerpts_faithful`: an excerpt is a window of its field that holds the beginning of the
  match, and the whole match if that takes at most two thirds of the window.

Lowercase is a parameter: a text is lowercased character by character, perhaps with regard to the
characters around, and the number of bytes does not depend on them.
-/

namespace AgentKnowledge

open Results Expansion

/-- The length of the UTF-8 encoding of a text. -/
abbrev byteLength : List Char → Nat := weight Char.utf8Size

/-- Unicode lowercase. -/
structure Lowercase where
  /-- `char::to_lowercase`. -/
  char : Char → List Char
  /-- What each character of a text becomes in its place. -/
  pieces : List Char → List (List Char)
  expands : ∀ text, List.Forall₂ (fun c piece => piece ≠ [] ∧ byteLength piece = byteLength (char c))
    text (pieces text)

/-- `str::to_lowercase`. -/
def Lowercase.text (lower : Lowercase) (text : List Char) : List Char := (lower.pieces text).flatten

/-- `str::find`: the byte offset of the first match. -/
def findBytes (needle text : List Char) : Option Nat :=
  (firstMatch needle text).map fun k => byteLength (text.take k)

/-! ### Fields -/

/-- Optional metadata fields included in the portable linear search. -/
structure SearchMetadataFields where
  node : Bool := false
  agent : Bool := false
  session : Bool := false
  requestId : Bool := false
deriving DecidableEq

def displayPath (path : RelPath) : List Char := (String.intercalate "/" path).toList

def searchFieldValues (record : DocumentRecord) (body : List Char) (fields : SearchMetadataFields) :
    List (String × List Char) :=
  let metadata := record.metadata
  [("body", body), ("title", metadata.title.toList), ("path", displayPath record.relativePath)] ++
    metadata.tags.map (fun tag => ("tags", tag.toList)) ++
    (if fields.node then metadata.node.toList.map fun value => ("node", value.toList) else []) ++
    (if fields.agent then metadata.agent.toList.map fun value => ("agent", value.toList) else []) ++
    (if fields.session then
      metadata.session.toList.map fun value => ("session", value.ulid.toText) else []) ++
    (if fields.requestId then [("request_id", metadata.requestId.toText)] else [])

/-! ### Excerpts -/

/-- A plain-text field excerpt. -/
structure FieldExcerpt where
  field : String
  text : List Char
  truncated : Bool
deriving DecidableEq

section Excerpts

variable (lower : Lowercase)

/-- Where the window around a match begins. -/
def windowStart (text : List Char) (offset maximum : Nat) : Nat :=
  leadingWithin (fun c => byteLength (lower.char c)) offset 0 text - maximum / 3

/-- The excerpt of a field that matches. -/
def linearExcerpt (query : List Char) (maximum : Nat) (value : String × List Char) :
    Option FieldExcerpt :=
  (findBytes query (lower.text value.2)).map fun offset =>
    let excerpt := (value.2.drop (windowStart lower value.2 offset maximum)).take maximum
    { field := value.1, text := excerpt, truncated := decide (excerpt ≠ value.2) }

/-- A field that has an excerpt already is passed over. -/
def addExcerpt (query : List Char) (maximum : Nat) (excerpts : List FieldExcerpt)
    (value : String × List Char) : List FieldExcerpt :=
  if excerpts.any fun excerpt => excerpt.field == value.1 then excerpts
  else excerpts ++ (linearExcerpt lower query maximum value).toList

/-- Produces at most one raw excerpt per matching field for linear substring search. -/
def linearExcerpts (record : DocumentRecord) (body query : List Char)
    (fields : SearchMetadataFields) (maximum : Nat) : List FieldExcerpt :=
  (searchFieldValues record body fields).foldl
    (addExcerpt lower (lower.text (Text.trim query)) maximum) []

end Excerpts

/-! ### Search -/

/-- The bounds of a search. -/
structure SearchPolicy where
  maximumQueryCharacters : Nat
  maximumResults : Nat
  maximumScannedDocuments : Nat
  maximumScannedMarkdownBytes : Nat

/-- Bounded full-text search that scans committed Markdown directly. -/
structure LinearSearch where
  metadataFields : SearchMetadataFields

/-- The state of the loop over the documents. -/
structure SearchState where
  found : List DocumentRecord := []
  scannedDocuments : Nat := 0
  scannedMarkdownBytes : Nat := 0

section Search

variable (lower : Lowercase) (x : Externals) (snapshot : CommittedSnapshot)

/-- `text.to_lowercase().contains(query)`. -/
def lowerContains (query text : List Char) : Bool := decide (query <:+: lower.text text)

def fixedMatch (query : List Char) (record : DocumentRecord) : Bool :=
  lowerContains lower query record.metadata.title.toList ||
    lowerContains lower query (displayPath record.relativePath) ||
    record.metadata.tags.any fun tag => lowerContains lower query tag.toList

def optionalMatch (fields : SearchMetadataFields) (query : List Char) (record : DocumentRecord) :
    Bool :=
  let metadata := record.metadata
  (fields.node && metadata.node.any fun value => lowerContains lower query value.toList) ||
    (fields.agent && metadata.agent.any fun value => lowerContains lower query value.toList) ||
    (fields.session && metadata.session.any fun value =>
      lowerContains lower query value.ulid.toText) ||
    (fields.requestId && lowerContains lower query metadata.requestId.toText)

/-- The body of a document as text. -/
def bodyText (documentId : DocumentId) (markdown : Bytes) :
    Except CommittedReadError (List Char) :=
  match markdownBody markdown with
  | .ok bytes => .ok bytes.chars
  | .error _ => .error (.invalidMarkdownEncoding documentId)

/-- Look for the query in the body, within the budget of bytes. -/
def markdownMatch (policy : SearchPolicy) (query : List Char) (record : DocumentRecord)
    (scanned : Nat) : Except CommittedReadError (Bool × Nat) := do
  let maximum := policy.maximumScannedMarkdownBytes
  rejectIf (maximum - scanned < record.byteLength) (.searchMarkdownByteLimitExceeded maximum)
  let markdown ← snapshot.readMarkdown x record
  rejectIf (maximum < scanned + markdown.length) (.searchMarkdownByteLimitExceeded maximum)
  let text ← bodyText record.metadata.documentId markdown
  pure (lowerContains lower query text, scanned + markdown.length)

/-- One document of a search. -/
def LinearSearch.searchDocument (search : LinearSearch) (policy : SearchPolicy)
    (query : List Char) (state : SearchState) (record : DocumentRecord) :
    Except CommittedReadError SearchState := do
  let state := { state with scannedDocuments := state.scannedDocuments + 1 }
  rejectIf (policy.maximumScannedDocuments < state.scannedDocuments)
    (.searchDocumentLimitExceeded policy.maximumScannedDocuments)
  if fixedMatch lower query record || optionalMatch lower search.metadataFields query record then
    pure { state with found := state.found ++ [record] }
  else do
    let (inBody, scanned) ←
      markdownMatch lower x snapshot policy query record state.scannedMarkdownBytes
    pure { state with
      found := if inBody then state.found ++ [record] else state.found
      scannedMarkdownBytes := scanned }

def pathBefore (left right : DocumentRecord) : Bool :=
  decide (left.relativePath ≤ right.relativePath)

def LinearSearch.search (search : LinearSearch) (query : List Char) (filter : ReadFilter)
    (policy : SearchPolicy) : Except CommittedReadError (List DocumentRecord) := do
  rejectIf (policy.maximumResults = 0) .invalidResultLimit
  let query := Text.trim query
  rejectIf (query = []) .emptyQuery
  rejectIf (policy.maximumQueryCharacters < query.length)
    (.queryTooLong policy.maximumQueryCharacters query.length)
  let state ← (snapshot.selected filter).foldlM
    (search.searchDocument lower x snapshot policy (lower.text query)) {}
  pure ((state.found.mergeSort pathBefore).take policy.maximumResults)

end Search

/-! ### Matches and excerpts agree -/

section Agree

variable {lower : Lowercase} {query : List Char} {maximum : Nat}

theorem findBytes_isSome {needle text : List Char} :
    (findBytes needle text).isSome ↔ needle <:+: text := by
  rw [findBytes, Option.isSome_map, firstMatch_isSome]

theorem linearExcerpt_isSome (maximum : Nat) {value : String × List Char} :
    (linearExcerpt lower query maximum value).isSome ↔ lowerContains lower query value.2 := by
  rw [linearExcerpt, Option.isSome_map, findBytes_isSome, lowerContains, decide_eq_true_iff]

theorem linearExcerpt_field {value : String × List Char} {excerpt : FieldExcerpt}
    (h : linearExcerpt lower query maximum value = some excerpt) : excerpt.field = value.1 := by
  obtain ⟨offset, -, rfl⟩ := Option.map_eq_some_iff.1 h
  rfl

/-- The first value of a field that matches. -/
def firstValue (lower : Lowercase) (query : List Char) (values : List (String × List Char))
    (field : String) : Option (String × List Char) :=
  values.find? fun value => value.1 == field && lowerContains lower query value.2

theorem firstValue_concat {values : List (String × List Char)} {last : String × List Char}
    {field : String} :
    firstValue lower query (values ++ [last]) field =
      (firstValue lower query values field).or
        (if last.1 = field ∧ lowerContains lower query last.2 then some last else none) := by
  simp only [firstValue, List.find?_append, List.find?_singleton, Bool.and_eq_true, beq_iff_eq]

theorem of_firstValue {values : List (String × List Char)} {field : String}
    {value : String × List Char} (h : firstValue lower query values field = some value) :
    value ∈ values ∧ value.1 = field ∧ lowerContains lower query value.2 := by
  have hfound := List.find?_some h
  rw [Bool.and_eq_true, beq_iff_eq] at hfound
  exact ⟨List.mem_of_find?_eq_some h, hfound⟩

/-- The excerpts are those of the first value of each field that matches. -/
theorem mem_foldl_addExcerpt {values : List (String × List Char)} {excerpt : FieldExcerpt} :
    excerpt ∈ values.foldl (addExcerpt lower query maximum) [] ↔
      ∃ value, firstValue lower query values excerpt.field = some value ∧
        linearExcerpt lower query maximum value = some excerpt := by
  induction values using List.reverseRecOn generalizing excerpt with
  | nil => simp [firstValue]
  | append_singleton values last ih =>
      rw [List.foldl_concat, firstValue_concat]
      generalize values.foldl (addExcerpt lower query maximum) [] = before at ih ⊢
      -- a field has an excerpt iff a value of it matched
      have hany : (before.any fun excerpt => excerpt.field == last.1) ↔
          (firstValue lower query values last.1).isSome := by
        rw [List.any_eq_true]
        constructor
        · rintro ⟨other, hother, hfield⟩
          obtain ⟨value, hvalue, -⟩ := ih.1 hother
          rw [← eq_of_beq hfield, hvalue]
          rfl
        · intro hsome
          obtain ⟨value, hvalue⟩ := Option.isSome_iff_exists.1 hsome
          obtain ⟨-, hfield, hcontains⟩ := of_firstValue hvalue
          obtain ⟨other, hother⟩ :=
            Option.isSome_iff_exists.1 ((linearExcerpt_isSome maximum).2 hcontains)
          have hname := (linearExcerpt_field hother).trans hfield
          exact ⟨other, ih.2 ⟨value, hname ▸ hvalue, hother⟩, beq_iff_eq.2 hname⟩
      have hlast : linearExcerpt lower query maximum last = some excerpt →
          last.1 = excerpt.field ∧ lowerContains lower query last.2 := fun hnew =>
        ⟨(linearExcerpt_field hnew).symm, (linearExcerpt_isSome maximum).1 (by rw [hnew]; rfl)⟩
      unfold addExcerpt
      cases hbefore : firstValue lower query values excerpt.field with
      | some value =>
          have hold : excerpt ∈ before ↔ linearExcerpt lower query maximum value = some excerpt := by
            simp [ih, hbefore]
          simp only [Option.some_or, Option.some.injEq, exists_eq_left']
          split
          · exact hold
          · rename_i hnone
            rw [List.mem_append, Option.mem_toList, hold, or_iff_left]
            intro hnew
            refine hnone (hany.2 ?_)
            rw [(hlast hnew).1, hbefore]
            rfl
      | none =>
          have hout : excerpt ∉ before := by simp [ih, hbefore]
          simp only [Option.none_or, Option.ite_none_right_eq_some, Option.some.injEq]
          split
          · rename_i hsome
            have hother : last.1 ≠ excerpt.field := by
              intro hfield
              rw [hany, hfield, hbefore] at hsome
              cases hsome
            simp [hout, hother]
          · rw [List.mem_append, Option.mem_toList, or_iff_right hout]
            constructor
            · exact fun hnew => ⟨last, ⟨hlast hnew, rfl⟩, hnew⟩
            · rintro ⟨value, ⟨-, rfl⟩, hnew⟩
              exact hnew

theorem foldl_addExcerpt_ne_nil {values : List (String × List Char)} :
    values.foldl (addExcerpt lower query maximum) [] ≠ [] ↔
      ∃ value ∈ values, lowerContains lower query value.2 := by
  rw [← List.isEmpty_eq_false_iff, List.isEmpty_eq_false_iff_exists_mem]
  constructor
  · rintro ⟨excerpt, hexcerpt⟩
    obtain ⟨value, hvalue, -⟩ := mem_foldl_addExcerpt.1 hexcerpt
    obtain ⟨hmem, -, hcontains⟩ := of_firstValue hvalue
    exact ⟨value, hmem, hcontains⟩
  · rintro ⟨value, hmem, hcontains⟩
    obtain ⟨first, hfirst⟩ : ∃ first, firstValue lower query values value.1 = some first :=
      Option.isSome_iff_exists.1 (List.find?_isSome.2 ⟨value, hmem, by simp [hcontains]⟩)
    obtain ⟨-, hfield, hfirstContains⟩ := of_firstValue hfirst
    obtain ⟨excerpt, hexcerpt⟩ :=
      Option.isSome_iff_exists.1 ((linearExcerpt_isSome maximum).2 hfirstContains)
    refine ⟨excerpt, mem_foldl_addExcerpt.2 ⟨first, ?_, hexcerpt⟩⟩
    rw [linearExcerpt_field hexcerpt, hfield, hfirst]

/-- A document that a search finds: by its metadata, or else by its body. -/
def documentMatches (lower : Lowercase) (fields : SearchMetadataFields) (query : List Char)
    (record : DocumentRecord) (body : List Char) : Bool :=
  fixedMatch lower query record || optionalMatch lower fields query record ||
    lowerContains lower query body

theorem documentMatches_iff {fields : SearchMetadataFields} {record : DocumentRecord}
    {body : List Char} :
    documentMatches lower fields query record body ↔
      ∃ value ∈ searchFieldValues record body fields, lowerContains lower query value.2 := by
  have hallowed : ∀ (allowed : Bool) (values : List (String × List Char)),
      (if allowed then values else []).any (fun value => lowerContains lower query value.2) =
        (allowed && values.any fun value => lowerContains lower query value.2) := by
    rintro (_ | _) values <;> rfl
  have hoption : ∀ {α : Type} (o : Option α) (p : α → Bool), o.toList.any p = o.any p := by
    rintro α (_ | a) p <;> simp
  rw [← List.any_eq_true]
  simp only [documentMatches, fixedMatch, optionalMatch, searchFieldValues, List.any_append,
    List.any_cons, List.any_nil, List.any_map, hallowed, hoption, Function.comp_def, Bool.or_false]
  rw [iff_eq_eq]
  congr 1
  ac_rfl

theorem linearExcerpts_ne_nil_iff {record : DocumentRecord} {body : List Char}
    {fields : SearchMetadataFields} :
    linearExcerpts lower record body query fields maximum ≠ [] ↔
      documentMatches lower fields (lower.text (Text.trim query)) record body := by
  rw [linearExcerpts, foldl_addExcerpt_ne_nil, documentMatches_iff]

end Agree

/-! ### What an excerpt shows -/

/-- A window of a field around the first match: the match is at position `k` of the lowercase text,
in what the character with number `first` of the field becomes. -/
structure FieldExcerpt.Shows (lower : Lowercase) (query : List Char) (maximum : Nat)
    (text : List Char) (excerpt : FieldExcerpt) (start k first : Nat) : Prop where
  found : query <+: (lower.text text).drop k
  earliest : ∀ j < k, ¬ query <+: (lower.text text).drop j
  begins : first < text.length ∧ reach (lower.pieces text) first ≤ k ∧
    k < reach (lower.pieces text) (first + 1)
  window : excerpt.text = (text.drop start).take maximum
  inside : start ≤ first ∧ first < start + maximum
  /-- Few enough characters of the field take part in the match to show them all. -/
  whole : (touched (lower.pieces text) k query.length).length ≤ maximum - maximum / 3 →
    ∀ i ∈ touched (lower.pieces text) k query.length, start ≤ i ∧ i < start + maximum
  truncated : excerpt.truncated = false ↔ excerpt.text = text

section Shows

variable {lower : Lowercase} {query : List Char} {maximum : Nat}

theorem Lowercase.text_ne_nil {text : List Char} (h : text ≠ []) : lower.text text ≠ [] := by
  obtain ⟨c, rest, rfl⟩ := List.exists_cons_of_ne_nil h
  obtain ⟨piece, pieces, ⟨hpiece, -⟩, -, hpieces⟩ :=
    List.forall₂_cons_left_iff.1 (lower.expands (c :: rest))
  rw [Lowercase.text, hpieces, List.flatten_cons]
  exact List.append_ne_nil_of_left_ne_nil hpiece _

theorem linearExcerpt_shows (hquery : query ≠ []) (hmaximum : 1 ≤ maximum)
    {value : String × List Char} {excerpt : FieldExcerpt}
    (h : linearExcerpt lower query maximum value = some excerpt) :
    ∃ start k first, excerpt.Shows lower query maximum value.2 start k first := by
  obtain ⟨offset, hoffset, rfl⟩ := Option.map_eq_some_iff.1 h
  obtain ⟨k, hk, rfl⟩ := Option.map_eq_some_iff.1 hoffset
  obtain ⟨hfound, hearliest⟩ := firstMatch_eq_some hk
  have hbelow : k < (lower.text value.2).length := by
    by_contra hpast
    rw [List.drop_of_length_le (by omega), List.prefix_nil] at hfound
    exact hquery hfound
  have hcost := (lower.expands value.2).imp fun _ _ hpiece => hpiece.2
  have hspec := leadingWithin_spec Char.utf8Size_pos hcost hbelow 0
  rw [Nat.zero_add] at hspec
  obtain ⟨hlt, hreach, hnext⟩ := hspec
  have hthird : maximum / 3 < maximum := by omega
  have hinside : ∀ n, n < n - maximum / 3 + maximum := by omega
  refine ⟨_, k, _, hfound, hearliest, ⟨hlt, hreach, hnext⟩, rfl,
    ⟨Nat.sub_le _ _, hinside _⟩, fun hfew i hi => ?_, by simp⟩
  exact touched_in_window hreach hnext hthird.le hfew hi

end Shows

/-! ### What a search returns -/

section Results

variable {lower : Lowercase} {x : Externals} {snapshot : CommittedSnapshot} {search : LinearSearch}

/-- The body of a document, empty if it cannot be read. -/
def CommittedSnapshot.bodyOf (x : Externals) (snapshot : CommittedSnapshot)
    (record : DocumentRecord) : List Char :=
  ((snapshot.readMarkdown x record >>= bodyText record.metadata.documentId).toOption).getD []

theorem searchDocument_eq_ok {policy : SearchPolicy} {query : List Char}
    {state state' : SearchState} {record : DocumentRecord}
    (h : search.searchDocument lower x snapshot policy query state record = .ok state') :
    state'.found = state.found ++ [record].filter fun record =>
      documentMatches lower search.metadataFields query record (snapshot.bodyOf x record) := by
  unfold LinearSearch.searchDocument at h
  rw [bind_eq_ok] at h
  obtain ⟨-, -, h⟩ := h
  split at h
  · rename_i hmetadata
    obtain rfl := Except.ok.inj h
    simp [documentMatches, hmetadata]
  · rename_i hmetadata
    simp only [markdownMatch, bind_eq_ok, exists_unit, pure_eq_ok, Except.ok.injEq, Prod.exists,
      Prod.mk.injEq] at h
    obtain ⟨inBody, scanned, ⟨-, markdown, hread, -, text, htext, rfl, rfl⟩, rfl⟩ := h
    have hbody : snapshot.bodyOf x record = text := by
      rw [CommittedSnapshot.bodyOf, hread, ok_bind, htext]
      rfl
    have hmatches : documentMatches lower search.metadataFields query record
        (snapshot.bodyOf x record) = lowerContains lower query text := by
      rw [documentMatches, Bool.eq_false_iff.2 hmetadata, Bool.false_or, hbody]
    by_cases hcontains : lowerContains lower query text <;> simp [hmatches, hcontains]

theorem searchDocuments_eq_ok {policy : SearchPolicy} {query : List Char}
    {records : List DocumentRecord} {state state' : SearchState}
    (h : records.foldlM (search.searchDocument lower x snapshot policy query) state = .ok state') :
    state'.found = state.found ++ records.filter fun record =>
      documentMatches lower search.metadataFields query record (snapshot.bodyOf x record) := by
  induction records generalizing state with
  | nil =>
      obtain rfl := Except.ok.inj h
      simp
  | cons record rest ih =>
      obtain ⟨next, hnext, hrest⟩ := foldlM_cons_eq_ok.1 h
      rw [ih hrest, searchDocument_eq_ok hnext, List.append_assoc, ← List.filter_append]
      rfl

/-- A search returns the first documents by path of those that have excerpts. -/
theorem search_eq_ok {query : List Char} {filter : ReadFilter} {policy : SearchPolicy}
    {results : List DocumentRecord} (maximum : Nat)
    (h : search.search lower x snapshot query filter policy = .ok results) :
    results = (((snapshot.selected filter).filter fun record =>
      decide (linearExcerpts lower record (snapshot.bodyOf x record) query search.metadataFields
        maximum ≠ [])).mergeSort pathBefore).take policy.maximumResults := by
  unfold LinearSearch.search at h
  simp only [bind_eq_ok, exists_unit, pure_eq_ok, Except.ok.injEq] at h
  obtain ⟨-, -, -, state, hstate, rfl⟩ := h
  simp only [searchDocuments_eq_ok hstate, linearExcerpts_ne_nil_iff, Bool.decide_eq_true,
    List.nil_append]

end Results

/-- Search and excerpts agree on every document, and every excerpt shows the first match of the
field it is taken from. -/
theorem linear_search_excerpts (lower : Lowercase) (fields : SearchMetadataFields)
    {query : List Char} (hquery : Text.trim query ≠ []) {maximum : Nat} (hmaximum : 1 ≤ maximum) :
    (∀ record body, documentMatches lower fields (lower.text (Text.trim query)) record body ↔
      linearExcerpts lower record body query fields maximum ≠ []) ∧
    (∀ x snapshot filter policy results,
      LinearSearch.search lower x snapshot ⟨fields⟩ query filter policy = .ok results →
      results = (((snapshot.selected filter).filter fun record =>
        decide (linearExcerpts lower record (snapshot.bodyOf x record) query fields maximum ≠ []))
          |>.mergeSort pathBefore).take policy.maximumResults) ∧
    ∀ record body, ∀ excerpt ∈ linearExcerpts lower record body query fields maximum,
      ∃ text, firstValue lower (lower.text (Text.trim query)) (searchFieldValues record body fields)
          excerpt.field = some (excerpt.field, text) ∧
        ∃ start k first,
          excerpt.Shows lower (lower.text (Text.trim query)) maximum text start k first := by
  refine ⟨fun record body => linearExcerpts_ne_nil_iff.symm,
    fun x snapshot filter policy results h => search_eq_ok maximum h, ?_⟩
  intro record body excerpt hexcerpt
  obtain ⟨value, hvalue, hcut⟩ := mem_foldl_addExcerpt.1 hexcerpt
  refine ⟨value.2, ?_, linearExcerpt_shows (Lowercase.text_ne_nil hquery) hmaximum hcut⟩
  rw [hvalue, linearExcerpt_field hcut]

namespace Sample

/-- Lowercase letters as in ASCII, and a dotted capital that becomes two characters. -/
def lowercase : Lowercase where
  char c := if c = 'İ' then ['i', '\u0307'] else [c.toLower]
  pieces text := text.map fun c => if c = 'İ' then ['i', '\u0307'] else [c.toLower]
  expands text := by
    rw [List.forall₂_map_right_iff, List.forall₂_same]
    intro c _
    split <;> simp

def foundRecord : DocumentRecord :=
  ⟨bundle ++ ["index.md"], ⟨.decision, none, false⟩, metadata, revision, 10⟩

/-- The combining dot, followed by a letter: the match begins inside what the dotted capital
becomes. -/
def dottedQuery : List Char := ['\u0307', 'd']

theorem dotted_excerpt :
    linearExcerpts lowercase foundRecord "ABCİDE".toList dottedQuery {} 3 =
        [⟨"body", "CİD".toList, true⟩] ∧
      ∃ text start k first, FieldExcerpt.Shows lowercase (lowercase.text (Text.trim dottedQuery)) 3
        text ⟨"body", "CİD".toList, true⟩ start k first := by
  have hexcerpts : linearExcerpts lowercase foundRecord "ABCİDE".toList dottedQuery {} 3 =
      [⟨"body", "CİD".toList, true⟩] := by decide +kernel
  obtain ⟨-, -, hshows⟩ :=
    linear_search_excerpts lowercase {} (show Text.trim dottedQuery ≠ [] by decide +kernel)
      (show 1 ≤ 3 by decide)
  obtain ⟨text, -, start, k, first, hshow⟩ := hshows foundRecord "ABCİDE".toList
    ⟨"body", "CİD".toList, true⟩ (by rw [hexcerpts]; exact List.mem_singleton_self _)
  exact ⟨hexcerpts, text, start, k, first, hshow⟩

end Sample

end AgentKnowledge
