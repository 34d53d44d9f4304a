import Mathlib

/-!
Line-oriented text over lists of characters.

`lines` splits a text the way `str::lines` does: a line ends at a line feed, a
carriage return directly before that line feed belongs to the terminator, and a
last line without terminator is kept as it stands. `keyed key text` is the list
of lines that start with `key`, the shape in which trailers are read back.

* `keyed_append`: on terminated texts `keyed` distributes over concatenation, so
  the keyed lines of a generated text are read off piece by piece.
* `keyed_eq_nil_iff`: a text has no keyed line iff it neither starts with the key
  nor contains the key right after a line feed.
* `keyed_of_sameUpToNewlines`: two texts that differ in trailing line feeds only
  have the same keyed lines, unless a carriage return stands at the cut.

The character classes `isWhitespace` and `isControl` are those of the Unicode
properties `White_Space` and `Cc`; `trim` drops the first class at both ends.
-/

namespace Text

/-- The characters of a literal. Unfolding a string literal is slow, so it is done
only where `lit_eq` asks for it. -/
@[irreducible] def lit (text : String) : List Char := text.toList

theorem lit_eq (text : String) : lit text = text.toList := by
  unfold lit
  rfl

/-- Split after every separator, keeping it at the end of its piece
(`str::split_inclusive`). -/
def splitInclusive {α : Type} [DecidableEq α] (separator : α) : List α → List (List α)
  | [] => []
  | c :: rest =>
      if c = separator then [c] :: splitInclusive separator rest
      else
        match splitInclusive separator rest with
        | [] => [[c]]
        | piece :: pieces => (c :: piece) :: pieces

/-- Remove the terminator `\n` or `\r\n` of one piece. A carriage return without
line feed stays. -/
def stripTerminator (piece : List Char) : List Char :=
  match piece.reverse with
  | '\n' :: '\r' :: rest => rest.reverse
  | '\n' :: rest => rest.reverse
  | _ => piece

/-- The lines of a text, as `str::lines` yields them. -/
def lines (text : List Char) : List (List Char) :=
  (splitInclusive '\n' text).map stripTerminator

/-- The lines of a text that start with `key`. -/
def keyed (key text : List Char) : List (List Char) :=
  (lines text).filter fun line => key.isPrefixOf line

/-- A text that is empty or ends with a line feed. -/
def Terminated (text : List Char) : Prop :=
  text = [] ∨ ∃ body, text = body ++ ['\n']

/-- A key a line can start with: it is not empty and holds no line terminator. -/
structure IsKey (key : List Char) : Prop where
  nonempty : key ≠ []
  no_lf : '\n' ∉ key
  no_cr : '\r' ∉ key

/-- Two texts that agree once their trailing line feeds are dropped. -/
def SameUpToNewlines (a b : List Char) : Prop :=
  a.rdropWhile (· == '\n') = b.rdropWhile (· == '\n')

/-- Join lines, ending each one with a line feed. -/
def unlines (texts : List (List Char)) : List Char :=
  texts.flatMap fun line => line ++ ['\n']

/-- The Unicode property `White_Space`. -/
def isWhitespace (c : Char) : Bool :=
  (0x09 ≤ c.toNat && c.toNat ≤ 0x0D) || c.toNat == 0x20 || c.toNat == 0x85 ||
    c.toNat == 0xA0 || c.toNat == 0x1680 || (0x2000 ≤ c.toNat && c.toNat ≤ 0x200A) ||
    c.toNat == 0x2028 || c.toNat == 0x2029 || c.toNat == 0x202F || c.toNat == 0x205F ||
    c.toNat == 0x3000

/-- The Unicode general category `Cc`. -/
def isControl (c : Char) : Bool :=
  c.toNat ≤ 0x1F || (0x7F ≤ c.toNat && c.toNat ≤ 0x9F)

/-- Drop white space at both ends (`str::trim`). -/
def trim (text : List Char) : List Char :=
  (text.dropWhile isWhitespace).rdropWhile isWhitespace

/-! ### Splitting -/

section Pieces

variable {α : Type} {separator : α}

/-- What a text can be split into: pieces that end in their only separator, and possibly
a last one without. -/
inductive Pieces (separator : α) : List (List α) → Prop
  | nil : Pieces separator []
  | last {line} : line ≠ [] → separator ∉ line → Pieces separator [line]
  | cons {line pieces} : separator ∉ line → Pieces separator pieces →
      Pieces separator ((line ++ [separator]) :: pieces)

theorem Pieces.drop {pieces : List (List α)} (h : Pieces separator pieces) (n : Nat) :
    Pieces separator (pieces.drop n) := by
  induction h generalizing n with
  | nil => simpa using Pieces.nil
  | last hne hline =>
      cases n with
      | zero => exact .last hne hline
      | succ n => simpa using Pieces.nil
  | cons hline hrest ih =>
      cases n with
      | zero => exact .cons hline hrest
      | succ n => exact ih n

theorem Pieces.take {pieces : List (List α)} (h : Pieces separator pieces) (n : Nat) :
    Pieces separator (pieces.take n) := by
  induction h generalizing n with
  | nil => simpa using Pieces.nil
  | last hne hline =>
      cases n with
      | zero => exact .nil
      | succ n => simpa using Pieces.last hne hline
  | cons hline hrest ih =>
      cases n with
      | zero => exact .nil
      | succ n => exact .cons hline (ih n)

end Pieces

section Splitting

variable {α : Type} [DecidableEq α] {separator : α}

theorem splitInclusive_eq_nil_iff (text : List α) :
    splitInclusive separator text = [] ↔ text = [] := by
  cases text with
  | nil => simp [splitInclusive]
  | cons c rest =>
      simp only [splitInclusive]
      split
      · simp
      · split <;> simp

theorem splitInclusive_append_separator (a b : List α) :
    splitInclusive separator (a ++ separator :: b) =
      splitInclusive separator (a ++ [separator]) ++ splitInclusive separator b := by
  induction a with
  | nil => simp [splitInclusive]
  | cons c rest ih =>
      by_cases hc : c = separator
      · simp [splitInclusive, hc, ih]
      · simp only [List.cons_append, splitInclusive, hc, if_false, ih]
        -- The first piece of `rest ++ [separator]` exists; `c` goes in front of it on both sides.
        cases h : splitInclusive separator (rest ++ [separator]) with
        | nil => simp [splitInclusive_eq_nil_iff] at h
        | cons piece pieces => simp

theorem flatten_splitInclusive (text : List α) :
    (splitInclusive separator text).flatten = text := by
  induction text with
  | nil => rfl
  | cons c rest ih =>
      simp only [splitInclusive]
      split
      · simp [ih]
      · split
        · rename_i h
          rw [h] at ih
          simp [← ih]
        · rename_i piece pieces h
          rw [h] at ih
          simp [← ih]

theorem splitInclusive_line {line : List α} (h : separator ∉ line) :
    splitInclusive separator (line ++ [separator]) = [line ++ [separator]] := by
  induction line with
  | nil => simp [splitInclusive]
  | cons c rest ih =>
      simp only [List.mem_cons, not_or] at h
      have hc : c ≠ separator := fun e => h.1 e.symm
      simp only [List.cons_append, splitInclusive, hc, if_false, ih h.2]

theorem splitInclusive_unterminated {line : List α} (hne : line ≠ []) (h : separator ∉ line) :
    splitInclusive separator line = [line] := by
  induction line with
  | nil => exact absurd rfl hne
  | cons c rest ih =>
      simp only [List.mem_cons, not_or] at h
      have hc : c ≠ separator := fun e => h.1 e.symm
      cases hrest : rest with
      | nil => simp [splitInclusive, hc]
      | cons d tail =>
          rw [← hrest]
          simp only [splitInclusive, hc, if_false, ih (by simp [hrest]) h.2]

theorem pieces_splitInclusive (text : List α) : Pieces separator (splitInclusive separator text) := by
  induction text with
  | nil => exact .nil
  | cons c rest ih =>
      simp only [splitInclusive]
      split
      · rename_i hc
        rw [hc]
        exact Pieces.cons (List.not_mem_nil) ih
      · rename_i hc
        have hmem : ∀ line : List α, separator ∉ line → separator ∉ c :: line := by
          intro line hline
          simp only [List.mem_cons, not_or]
          exact ⟨fun h => hc h.symm, hline⟩
        split
        · exact .last (by simp) (hmem [] (by simp))
        · rename_i piece pieces hpieces
          rw [hpieces] at ih
          cases ih with
          | last hne hline => exact .last (by simp) (hmem _ hline)
          | @cons line _ hline hrest => exact .cons (hmem line hline) hrest

theorem Pieces.split {pieces : List (List α)} (h : Pieces separator pieces) :
    splitInclusive separator pieces.flatten = pieces := by
  induction h with
  | nil => rfl
  | last hne hline => simpa using splitInclusive_unterminated hne hline
  | @cons line pieces hline _ ih =>
      rw [List.flatten_cons, List.append_assoc, List.singleton_append, splitInclusive_append_separator,
        splitInclusive_line hline, ih, List.singleton_append]

theorem isPrefix_headD_splitInclusive {key : List α} (h : separator ∉ key) (text : List α) :
    key <+: (splitInclusive separator text).headD [] ↔ key <+: text := by
  induction text generalizing key with
  | nil => simp [splitInclusive]
  | cons c rest ih =>
      cases key with
      | nil => simp
      | cons k ks =>
          simp only [List.mem_cons, not_or] at h
          simp only [splitInclusive]
          split
          · rename_i hc
            subst hc
            simp [List.cons_prefix_cons, Ne.symm h.1]
          · have := ih h.2
            cases hs : splitInclusive separator rest with
            | nil => simpa [hs, List.cons_prefix_cons] using fun _ => this
            | cons piece pieces => simpa [hs, List.cons_prefix_cons] using fun _ => this

theorem tail_splitInclusive_isPrefix_iff {key : List α} (hne : key ≠ []) (h : separator ∉ key)
    (text : List α) :
    (∃ piece ∈ (splitInclusive separator text).tail, key <+: piece) ↔
      (separator :: key) <:+: text := by
  induction text with
  | nil => simp [splitInclusive]
  | cons c rest ih =>
      rw [List.infix_cons_iff, List.cons_prefix_cons, ← ih]
      simp only [splitInclusive]
      split
      · -- After a separator the whole of `rest` starts a new piece.
        rename_i hc
        rw [← isPrefix_headD_splitInclusive h rest]
        cases splitInclusive separator rest with
        | nil => simp [hne]
        | cons piece pieces => simp [hc]
      · rename_i hc
        have hc' : separator ≠ c := fun e => hc e.symm
        cases hs : splitInclusive separator rest <;> simp [hc']

end Splitting

/-! ### Stripping terminators -/

theorem stripTerminator_append (piece : List Char) :
    ∃ terminator, piece = stripTerminator piece ++ terminator ∧
      ∀ c ∈ terminator, c = '\n' ∨ c = '\r' := by
  unfold stripTerminator
  split
  · rename_i rest h
    exact ⟨['\r', '\n'], by simpa using congrArg List.reverse h, by simp⟩
  · rename_i rest _ h
    exact ⟨['\n'], by simpa using congrArg List.reverse h, by simp⟩
  · exact ⟨[], by simp, by simp⟩

theorem isPrefix_stripTerminator_iff {key : List Char} (h : IsKey key) (piece : List Char) :
    key <+: stripTerminator piece ↔ key <+: piece := by
  obtain ⟨terminator, heq, hchars⟩ := stripTerminator_append piece
  constructor
  · intro hkey
    rw [heq]
    exact hkey.trans (List.prefix_append _ _)
  · intro hkey
    rw [heq] at hkey
    rcases List.prefix_or_prefix_of_prefix hkey (List.prefix_append _ terminator) with hle | ⟨s, hs⟩
    · exact hle
    · -- The rest of the key would lie in the terminator, whose characters no key holds.
      have hs' : s <+: terminator := by
        rw [← hs] at hkey
        exact (List.prefix_append_right_inj _).1 hkey
      cases s with
      | nil => exact ⟨[], by simpa using hs.symm⟩
      | cons c s =>
          have hc : c ∈ key := by simp [← hs]
          rcases hchars c (hs'.subset (by simp)) with rfl | rfl
          · exact absurd hc h.no_lf
          · exact absurd hc h.no_cr

theorem stripTerminator_line {line : List Char} (h : '\r' ∉ line) :
    stripTerminator (line ++ ['\n']) = line := by
  unfold stripTerminator
  rw [List.reverse_append]
  cases hr : line.reverse with
  | nil => simpa using hr.symm
  | cons c rest =>
      have hline : line = rest.reverse ++ [c] := by simpa using congrArg List.reverse hr
      have hcr : c ≠ '\r' := fun e => h (by simp [hline, e])
      rw [hline]
      simp [hcr]

/-! ### Keyed lines -/

theorem lines_append {a : List Char} (h : Terminated a) (b : List Char) :
    lines (a ++ b) = lines a ++ lines b := by
  rcases h with rfl | ⟨body, rfl⟩
  · rfl
  · simp [lines, splitInclusive_append_separator body b]

theorem keyed_append {a : List Char} (h : Terminated a) (key b : List Char) :
    keyed key (a ++ b) = keyed key a ++ keyed key b := by
  simp [keyed, lines_append h b]

@[simp] theorem keyed_nil (key : List Char) : keyed key [] = [] := rfl

theorem keyed_eq_nil_iff {key : List Char} (h : IsKey key) (text : List Char) :
    keyed key text = [] ↔ ¬ key <+: text ∧ ¬ ('\n' :: key) <:+: text := by
  rw [← isPrefix_headD_splitInclusive h.no_lf text,
    ← tail_splitInclusive_isPrefix_iff h.nonempty h.no_lf text]
  simp only [keyed, lines, List.filter_map, List.map_eq_nil_iff, List.filter_eq_nil_iff,
    Function.comp_apply, List.isPrefixOf_iff_prefix, isPrefix_stripTerminator_iff h]
  cases splitInclusive '\n' text with
  | nil => simp [h.nonempty]
  | cons piece pieces => simp

/-- Framing a text by a start of line and a final line feed brings in no keyed line. -/
theorem newline_key_infix_iff {key front : List Char} (h : IsKey key) (hfront : '\n' ∉ front)
    (text : List Char) :
    ('\n' :: key) <:+: front ++ (text ++ ['\n']) ↔ ('\n' :: key) <:+: text := by
  have drop_front : ('\n' :: key) <:+: front ++ (text ++ ['\n']) ↔
      ('\n' :: key) <:+: text ++ ['\n'] := by
    induction front with
    | nil => rfl
    | cons c rest ih =>
        simp only [List.mem_cons, not_or] at hfront
        rw [List.cons_append, List.infix_cons_iff, List.cons_prefix_cons, ← ih hfront.2]
        simp [hfront.1]
  rw [drop_front, List.infix_concat_iff]
  -- The occurrence cannot end in the final line feed, since the key holds none.
  refine ⟨fun h' => h'.resolve_left ?_, .inr⟩
  intro hsuffix
  have hlast := hsuffix.getLast (by simp)
  rw [List.getLast_concat, List.getLast_cons h.nonempty] at hlast
  exact h.no_lf (hlast ▸ List.getLast_mem h.nonempty)

theorem lines_line {line : List Char} (hlf : '\n' ∉ line) (hcr : '\r' ∉ line) :
    lines (line ++ ['\n']) = [line] := by
  simp [lines, splitInclusive_line hlf, stripTerminator_line hcr]

/-! ### Terminated texts -/

theorem Terminated.append {a b : List Char} (ha : Terminated a) (hb : Terminated b) :
    Terminated (a ++ b) := by
  rcases hb with rfl | ⟨body, rfl⟩
  · simpa using ha
  · exact .inr ⟨a ++ body, by simp⟩

theorem terminated_unlines (texts : List (List Char)) : Terminated (unlines texts) := by
  induction texts with
  | nil => exact .inl rfl
  | cons line rest ih => exact Terminated.append (.inr ⟨line, rfl⟩) ih

theorem lines_unlines {texts : List (List Char)}
    (h : ∀ line ∈ texts, '\n' ∉ line ∧ '\r' ∉ line) : lines (unlines texts) = texts := by
  induction texts with
  | nil => rfl
  | cons line rest ih =>
      have hline := h line (by simp)
      have hrest := ih fun other hother => h other (by simp [hother])
      have : unlines (line :: rest) = (line ++ ['\n']) ++ unlines rest := by simp [unlines]
      rw [this, lines_append (.inr ⟨line, rfl⟩), lines_line hline.1 hline.2, hrest]
      rfl

theorem keyed_unlines {texts : List (List Char)} (key : List Char)
    (h : ∀ line ∈ texts, '\n' ∉ line ∧ '\r' ∉ line) :
    keyed key (unlines texts) = texts.filter fun line => key.isPrefixOf line := by
  rw [keyed, lines_unlines h]

/-! ### Trailing line feeds -/

theorem keyed_replicate_newline {key : List Char} (h : IsKey key) (n : Nat) :
    keyed key (List.replicate n '\n') = [] := by
  rw [keyed_eq_nil_iff h]
  -- A key occurring in a run of line feeds would itself hold a line feed.
  have absent : ¬ key <:+: List.replicate n '\n' := by
    intro hkey
    obtain ⟨c, rest, rfl⟩ := List.exists_cons_of_ne_nil h.nonempty
    have hc : c = '\n' := List.eq_of_mem_replicate (hkey.subset (by simp))
    exact h.no_lf (by simp [hc])
  exact ⟨fun hkey => absent hkey.isInfix,
    fun hkey => absent ((List.suffix_cons _ _).isInfix.trans hkey)⟩

theorem lines_unterminated {line : List Char} (hne : line ≠ []) (hlf : '\n' ∉ line) :
    lines line = [line] := by
  have strip : stripTerminator line = line := by
    unfold stripTerminator
    cases hr : line.reverse with
    | nil => rfl
    | cons c rest =>
        have hc : c ∈ line := by rw [← List.mem_reverse, hr]; simp
        have hc' : c ≠ '\n' := fun e => hlf (e ▸ hc)
        simp [hc']
  simp [lines, splitInclusive_unterminated hne hlf, strip]

/-- **Keyed lines ignore trailing line feeds.** The last line must not be empty
or end in a carriage return, which a missing line feed would bring back. -/
theorem keyed_of_sameUpToNewlines {key body line out : List Char} (h : IsKey key)
    (hbody : Terminated body) (hne : line ≠ []) (hlf : '\n' ∉ line) (hcr : '\r' ∉ line)
    (hout : SameUpToNewlines out (body ++ (line ++ ['\n']))) :
    keyed key out = keyed key (body ++ (line ++ ['\n'])) := by
  have hcore : (body ++ (line ++ ['\n'])).rdropWhile (· == '\n') = body ++ line := by
    rw [← List.append_assoc, List.rdropWhile_concat_pos _ _ _ (by simp)]
    rw [List.rdropWhile_eq_self_iff]
    intro hnil
    have : (body ++ line).getLast hnil ∈ line := by
      rw [List.getLast_append_of_ne_nil hnil hne]
      exact List.getLast_mem hne
    intro hp
    exact hlf (by rwa [show (body ++ line).getLast hnil = '\n' by simpa using hp] at this)
  obtain ⟨n, rfl⟩ : ∃ n, out = body ++ (line ++ List.replicate n '\n') := by
    refine ⟨(out.rtakeWhile (· == '\n')).length, ?_⟩
    have hrep : out.rtakeWhile (· == '\n') =
        List.replicate (out.rtakeWhile (· == '\n')).length '\n' := by
      refine List.eq_replicate_iff.2 ⟨rfl, fun c hc => ?_⟩
      simpa using List.mem_rtakeWhile_imp hc
    rw [← hrep, ← List.append_assoc, ← hcore, ← hout]
    exact List.rdropWhile_append_rtakeWhile.symm
  rw [keyed_append hbody, keyed_append hbody]
  congr 1
  cases n with
  | zero => simp [keyed, lines_unterminated hne hlf, lines_line hlf hcr]
  | succ n =>
      have split : line ++ List.replicate (n + 1) '\n' =
          (line ++ ['\n']) ++ List.replicate n '\n' := by simp [List.replicate_succ]
      rw [split, keyed_append (.inr ⟨line, rfl⟩), keyed_replicate_newline h, List.append_nil]

/-- The same for a text given by its last lines. -/
theorem keyed_of_sameUpToNewlines_unlines {key body out : List Char} {texts : List (List Char)}
    (h : IsKey key) (hbody : Terminated body) (hne : texts ≠ [])
    (hlast : texts.getLast hne ≠ [] ∧ '\n' ∉ texts.getLast hne ∧ '\r' ∉ texts.getLast hne)
    (hout : SameUpToNewlines out (body ++ unlines texts)) :
    keyed key out = keyed key (body ++ unlines texts) := by
  have split : body ++ unlines texts =
      (body ++ unlines texts.dropLast) ++ (texts.getLast hne ++ ['\n']) := by
    conv_lhs => rw [← List.dropLast_append_getLast hne]
    simp [unlines]
  rw [split] at hout ⊢
  exact keyed_of_sameUpToNewlines h (hbody.append (terminated_unlines _)) hlast.1 hlast.2.1
    hlast.2.2 hout

end Text
