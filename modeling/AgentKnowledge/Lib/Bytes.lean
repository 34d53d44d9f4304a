import AgentKnowledge.Lib.Text

/-!
Byte strings: ASCII literals and the well-formedness of UTF-8.

`validUtf8` is the byte table of the Unicode standard (no overlong forms, no
surrogates, nothing above U+10FFFF) as a structural recursion, so it evaluates
in the kernel; `chars` decodes what it accepts. Delimiters below 0x80 never occur
inside a longer sequence, which is why line scanning can be done on the bytes.
-/

abbrev Bytes := List UInt8

namespace Bytes

/-- The bytes of a text made of ASCII characters. -/
def ascii (text : String) : Bytes :=
  text.toList.map fun c => UInt8.ofNat c.toNat

/-- A continuation byte `10xxxxxx`. -/
def isContinuation (b : UInt8) : Bool := 0x80 ≤ b && b ≤ 0xBF

/-- Whether a byte string is well-formed UTF-8. -/
def validUtf8 : Bytes → Bool
  | [] => true
  | a :: rest =>
      if a < 0x80 then validUtf8 rest
      else
        match rest with
        | [] => false
        | b :: rest =>
            if 0xC2 ≤ a && a ≤ 0xDF then isContinuation b && validUtf8 rest
            else
              match rest with
              | [] => false
              | c :: rest =>
                  if a == 0xE0 then
                    (0xA0 ≤ b && b ≤ 0xBF) && isContinuation c && validUtf8 rest
                  else if a == 0xED then
                    (0x80 ≤ b && b ≤ 0x9F) && isContinuation c && validUtf8 rest
                  else if 0xE1 ≤ a && a ≤ 0xEF then
                    isContinuation b && isContinuation c && validUtf8 rest
                  else
                    match rest with
                    | [] => false
                    | d :: rest =>
                        if a == 0xF0 then
                          (0x90 ≤ b && b ≤ 0xBF) && isContinuation c && isContinuation d &&
                            validUtf8 rest
                        else if 0xF1 ≤ a && a ≤ 0xF3 then
                          isContinuation b && isContinuation c && isContinuation d &&
                            validUtf8 rest
                        else if a == 0xF4 then
                          (0x80 ≤ b && b ≤ 0x8F) && isContinuation c && isContinuation d &&
                            validUtf8 rest
                        else false

/-- The lower six bits of a continuation byte. -/
def payload (b : UInt8) : Nat := b.toNat % 64

/-- The characters of a well-formed UTF-8 string. -/
def chars : Bytes → List Char
  | [] => []
  | a :: rest =>
      if a < 0x80 then Char.ofNat a.toNat :: chars rest
      else
        match rest with
        | [] => []
        | b :: rest =>
            if a < 0xE0 then Char.ofNat (a.toNat % 32 * 64 + payload b) :: chars rest
            else
              match rest with
              | [] => []
              | c :: rest =>
                  if a < 0xF0 then
                    Char.ofNat ((a.toNat % 16 * 64 + payload b) * 64 + payload c) :: chars rest
                  else
                    match rest with
                    | [] => []
                    | d :: rest =>
                        Char.ofNat (((a.toNat % 8 * 64 + payload b) * 64 + payload c) * 64 +
                          payload d) :: chars rest

theorem toList_loop (b : ByteArray) (i : Nat) (r : List UInt8) :
    ByteArray.toList.loop b i r = r.reverse ++ b.data.toList.drop i := by
  fun_induction ByteArray.toList.loop b i r with
  | case1 i r hlt ih =>
      have hget : b.get! i = b.data.toList[i] := by simp [ByteArray.get!, hlt]
      rw [ih, List.drop_eq_getElem_cons (i := i) hlt]
      simp [hget]
  | case2 i r hge => rw [List.drop_eq_nil_of_le (Nat.le_of_not_lt hge), List.append_nil]

theorem toList_eq (b : ByteArray) : b.toList = b.data.toList := toList_loop b 0 []

theorem toList_injective {a b : ByteArray} (h : a.toList = b.toList) : a = b := by
  rw [toList_eq, toList_eq] at h
  exact ByteArray.ext (Array.toList_inj.1 h)

theorem validUtf8_of_ascii {bytes : Bytes} (h : ∀ b ∈ bytes, b < 0x80) : validUtf8 bytes := by
  induction bytes with
  | nil => rfl
  | cons a rest ih =>
      unfold validUtf8
      rw [if_pos (h a List.mem_cons_self)]
      exact ih fun b hb => h b (List.mem_cons_of_mem _ hb)

/-! ### Sequences -/

/-- The bytes of one encoded character. -/
def isSequence : Bytes → Bool
  | [a] => a < 0x80
  | [a, b] => (0xC2 ≤ a && a ≤ 0xDF) && isContinuation b
  | [a, b, c] =>
      (a == 0xE0 && (0xA0 ≤ b && b ≤ 0xBF) || a == 0xED && (0x80 ≤ b && b ≤ 0x9F) ||
        a != 0xED && (0xE1 ≤ a && a ≤ 0xEF) && isContinuation b) && isContinuation c
  | [a, b, c, d] =>
      (a == 0xF0 && (0x90 ≤ b && b ≤ 0xBF) || (0xF1 ≤ a && a ≤ 0xF3) && isContinuation b ||
        a == 0xF4 && (0x80 ≤ b && b ≤ 0x8F)) && isContinuation c && isContinuation d
  | _ => false

/-- Only the first byte of a sequence can be an ASCII byte. -/
theorem le_of_mem_tail {s : Bytes} (h : isSequence s) : ∀ b ∈ s.tail, 0x80 ≤ b := by
  match s with
  | [] => cases h
  | [a] => simp
  | [a, b] =>
      simp only [isSequence, isContinuation, Bool.and_eq_true, decide_eq_true_eq] at h
      simpa using h.2.1
  | [a, b, c] =>
      simp only [isSequence, isContinuation, Bool.and_eq_true, Bool.or_eq_true,
        decide_eq_true_eq] at h
      simp only [List.tail_cons, List.forall_mem_cons]
      grind
  | [a, b, c, d] =>
      simp only [isSequence, isContinuation, Bool.and_eq_true, Bool.or_eq_true,
        decide_eq_true_eq] at h
      simp only [List.tail_cons, List.forall_mem_cons]
      grind
  | _ :: _ :: _ :: _ :: _ :: _ => cases h

/-- An ASCII byte is a sequence of its own. -/
theorem eq_nil_of_ascii {a : UInt8} {s : Bytes} (h : isSequence (a :: s)) (ha : a < 0x80) :
    s = [] := by
  match s with
  | [] => rfl
  | [b] =>
      simp only [isSequence, Bool.and_eq_true, decide_eq_true_eq] at h
      grind
  | [b, c] =>
      simp only [isSequence, Bool.and_eq_true, Bool.or_eq_true, decide_eq_true_eq,
        beq_iff_eq] at h
      grind
  | [b, c, d] =>
      simp only [isSequence, Bool.and_eq_true, Bool.or_eq_true, decide_eq_true_eq,
        beq_iff_eq] at h
      grind
  | _ :: _ :: _ :: _ :: _ => cases h

theorem validUtf8_sequence {s rest : Bytes} (h : isSequence s) :
    validUtf8 (s ++ rest) = validUtf8 rest := by
  match s with
  | [] => cases h
  | [a] =>
      simp only [isSequence, decide_eq_true_eq] at h
      rw [List.singleton_append]
      conv_lhs => unfold validUtf8
      rw [if_pos h]
  | [a, b] =>
      simp only [isSequence, Bool.and_eq_true, decide_eq_true_eq] at h
      have hlead : ¬ a < 0x80 := by grind
      rw [List.cons_append, List.singleton_append]
      conv_lhs => unfold validUtf8
      simp [hlead, h]
  | [a, b, c] =>
      simp only [isSequence, Bool.and_eq_true, Bool.or_eq_true, decide_eq_true_eq, beq_iff_eq,
        bne_iff_ne] at h
      have hlead : ¬ a < 0x80 ∧ ¬ a ≤ 0xDF := by grind
      rw [List.cons_append, List.cons_append, List.singleton_append]
      conv_lhs => unfold validUtf8
      obtain ⟨(⟨rfl, h⟩ | ⟨rfl, h⟩) | h, hc⟩ := h
      · simp [h, hc]
      · simp [h, hc]
      · have hne : a ≠ 0xE0 := by grind
        simp [hlead, h, hc, hne]
  | [a, b, c, d] =>
      simp only [isSequence, Bool.and_eq_true, Bool.or_eq_true, decide_eq_true_eq,
        beq_iff_eq] at h
      have hlead : ¬ a < 0x80 ∧ ¬ a ≤ 0xDF ∧ ¬ a ≤ 0xEF := by grind
      rw [List.cons_append, List.cons_append, List.cons_append, List.singleton_append]
      conv_lhs => unfold validUtf8
      obtain ⟨⟨(⟨rfl, h⟩ | h) | ⟨rfl, h⟩, hc⟩, hd⟩ := h
      · simp [h, hc, hd]
      · have hne : a ≠ 0xE0 ∧ a ≠ 0xED ∧ a ≠ 0xF0 := by grind
        simp [hlead, h, hc, hd, hne]
      · simp [h, hc, hd]
  | _ :: _ :: _ :: _ :: _ :: _ => cases h

theorem exists_sequence {bytes : Bytes} (h : validUtf8 bytes) (hne : bytes ≠ []) :
    ∃ s rest, isSequence s ∧ bytes = s ++ rest ∧ validUtf8 rest := by
  revert h
  fun_cases validUtf8 bytes with
  | case1 => exact absurd rfl hne
  | case2 a rest ha => exact fun h => ⟨[a], rest, by simpa [isSequence] using ha, rfl, h⟩
  | case3 | case5 | case9 | case13 => exact fun h => absurd h Bool.false_ne_true
  | case4 a _ b rest =>
      intro h
      exact ⟨[a, b], rest, by simp_all [isSequence], rfl, by simp_all⟩
  | case6 a _ b _ c rest | case7 a _ b _ c rest | case8 a _ b _ c rest =>
      intro h
      exact ⟨[a, b, c], rest, by simp_all [isSequence], rfl, by simp_all⟩
  | case10 a _ b _ c _ _ _ d rest | case11 a _ b _ c _ _ _ d rest
  | case12 a _ b _ c _ _ _ d rest =>
      intro h
      exact ⟨[a, b, c, d], rest, by simp_all [isSequence], rfl, by simp_all⟩

/-- Well-formed UTF-8 is a list of sequences. -/
@[elab_as_elim]
theorem validUtf8_induction {motive : (bytes : Bytes) → validUtf8 bytes = true → Prop}
    (nil : motive [] rfl)
    (cons : ∀ s rest (hs : isSequence s) (hrest : validUtf8 rest), motive rest hrest →
      motive (s ++ rest) ((validUtf8_sequence hs).trans hrest))
    {bytes : Bytes} (h : validUtf8 bytes) : motive bytes h := by
  -- a sequence is not empty, so what follows it is shorter
  induction hlength : bytes.length using Nat.strong_induction_on generalizing bytes with
  | _ n ih =>
      by_cases hne : bytes = []
      · subst hne
        exact nil
      · obtain ⟨s, rest, hs, rfl, hrest⟩ := exists_sequence h hne
        have hpos : 0 < s.length := List.length_pos_iff.2 fun hnil => by
          rw [hnil] at hs
          cases hs
        have hshorter : rest.length < n := by
          rw [← hlength, List.length_append]
          omega
        exact cons s rest hs hrest (ih rest.length hshorter hrest rfl)

theorem validUtf8_append {a b : Bytes} (h : validUtf8 a) : validUtf8 (a ++ b) = validUtf8 b := by
  induction h using validUtf8_induction with
  | nil => rfl
  | cons s rest hs _ ih => rw [List.append_assoc, validUtf8_sequence hs, ih]

/-- A text may be cut at an ASCII byte. -/
theorem validUtf8_split {text a b : Bytes} {c : UInt8} (hc : c < 0x80)
    (h : validUtf8 text) (htext : text = a ++ c :: b) : validUtf8 a ∧ validUtf8 b := by
  induction h using validUtf8_induction generalizing a with
  | nil => simp at htext
  | cons s rest hs hrest ih =>
      rcases List.append_eq_append_iff.1 htext with ⟨a', rfl, hrest'⟩ | ⟨c', rfl, hcut⟩
      · obtain ⟨ha, hb⟩ := ih hrest'
        exact ⟨by rwa [validUtf8_sequence hs], hb⟩
      · cases c' with
        | nil =>
            -- the cut is where the sequence ends
            rw [List.append_nil] at hs
            obtain ⟨-, hb⟩ := ih (a := []) hcut.symm
            refine ⟨?_, hb⟩
            rw [← List.append_nil a, validUtf8_sequence hs]
            rfl
        | cons c' tail =>
            obtain ⟨rfl, rfl⟩ := List.cons.inj hcut
            cases a with
            | nil =>
                rw [eq_nil_of_ascii hs hc]
                exact ⟨rfl, hrest⟩
            | cons first a =>
                have hinner := le_of_mem_tail hs c (by simp)
                exact absurd hc (UInt8.not_lt.2 hinner)

/-! ### Encoded characters -/

theorem isSequence_utf8EncodeChar (c : Char) : isSequence (String.utf8EncodeChar c) := by
  have hvalid := c.valid
  simp only [UInt32.isValidChar, Nat.isValidChar] at hvalid
  unfold String.utf8EncodeChar
  dsimp only
  generalize c.val.toNat = v at hvalid
  split
  · simp only [isSequence, decide_eq_true_eq, UInt8.lt_iff_toNat_lt, UInt8.toNat_ofNat']
    change v % 256 < 128
    omega
  · split
    · simp only [isSequence, isContinuation, Bool.and_eq_true, decide_eq_true_eq,
        UInt8.le_iff_toNat_le, UInt8.toNat_ofNat', UInt8.reduceToNat]
      omega
    · split
      · simp only [isSequence, isContinuation, Bool.and_eq_true, Bool.or_eq_true,
          decide_eq_true_eq, beq_iff_eq, bne_iff_ne, ne_eq, ← UInt8.toNat_inj,
          UInt8.le_iff_toNat_le, UInt8.toNat_ofNat', UInt8.reduceToNat]
        omega
      · simp only [isSequence, isContinuation, Bool.and_eq_true, Bool.or_eq_true,
          decide_eq_true_eq, beq_iff_eq, ← UInt8.toNat_inj, UInt8.le_iff_toNat_le,
          UInt8.toNat_ofNat', UInt8.reduceToNat]
        omega

/-- The bytes of a string are well formed. -/
theorem validUtf8_toUTF8 (s : String) : validUtf8 s.toUTF8.toList := by
  have hchars : ∀ cs : List Char, validUtf8 (cs.flatMap String.utf8EncodeChar) := by
    intro cs
    induction cs with
    | nil => rfl
    | cons c cs ih => rw [List.flatMap_cons, validUtf8_sequence (isSequence_utf8EncodeChar c), ih]
  have hencode : s.toUTF8 = s.toList.utf8Encode := by simp [String.toUTF8]
  rw [hencode, List.utf8Encode, toList_eq, List.data_toByteArray, List.toList_toArray]
  exact hchars _

end Bytes
