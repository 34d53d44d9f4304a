import AgentKnowledge.Gateway.DiffSearch

/-!
What the hunks of a difference say.

* `hunks_patch`: hunks that are not truncated are a patch that turns one text into the
  other, and truncated ones are the first hunks of the whole patch.
* `hunks_minimal`: without context, no patch removes and adds fewer lines.
* `hunks_size`: the limit on the encoded size is kept, and a hunk that is left out for it
  would not have fitted.
-/

namespace AgentKnowledge

namespace Diff

open Alignment EditGraph Results

/-! ### Context -/

section Context

variable {α : Type} {old new : List α} {po pn : Nat} {rest found : List Span}

/-- What merging makes of a widened range that starts here and of those that follow. -/
structure Merged (old new : List α) (oldStart newStart : Nat) (merged : List Span) : Prop where
  exists_first : ∃ first others, merged = first :: others ∧ first.oldStart = oldStart ∧
    first.newStart = newStart ∧ first.oldStart ≤ first.oldEnd ∧ first.newStart ≤ first.newEnd ∧
    first.oldEnd ≤ old.length ∧ first.newEnd ≤ new.length ∧
    Differs old new first.oldEnd first.newEnd others
  apart : merged.Pairwise Apart

/-- On the ranges that follow: two of them are merged, or the lines between the widened
ranges are the same on both sides because neither side was cut off at an end. -/
theorem merge_spec (context : Nat) (last : Span) (h : Differs old new po pn rest) (hold : last.oldStart ≤ po)
    (hnew : last.newStart ≤ pn) (hpo : po ≤ old.length) (hpn : pn ≤ new.length)
    (hoend : last.oldEnd = min (po + context) old.length)
    (hnend : last.newEnd = min (pn + context) new.length) :
    Merged old new last.oldStart last.newStart (merge last (rest.map (expand context old.length new.length))) := by
  induction rest generalizing last po pn with
  | nil =>
      cases h with
      | @done _ _ count hblock hcount hcount' =>
          refine ⟨⟨last, [], rfl, rfl, rfl, by omega, by omega, by omega, by omega, ?_⟩, by simp [merge]⟩
          have hrest := hblock.sub (min context count) (count - min context count) (by omega)
          rw [show po + min context count = last.oldEnd by omega,
            show pn + min context count = last.newEnd by omega] at hrest
          exact .done hrest (by omega) (by omega)
  | cons range rest ih =>
      cases h with
      | @span _ _ count _ _ hblock hstart hstart' hole hnle hrold hrnew hrest =>
          simp only [List.map_cons, merge]
          split
          · exact ih ⟨last.oldStart, _, last.newStart, _⟩ hrest (by simp; omega) (by simp; omega)
              hrold hrnew rfl rfl
          · rename_i hfar
            simp only [expand, not_or, not_le] at hfar
            obtain ⟨⟨first, others, hmerged, hfirst, hfirst', hfle, hfle', hfold, hfnew, hdiffers⟩,
              hapart⟩ := ih (expand context old.length new.length range) hrest
                (by simp [expand]; omega) (by simp [expand]; omega) hrold hrnew rfl rfl
            simp only [expand] at hfirst hfirst'
            have hbetween := hblock.sub context (count - 2 * context) (by omega)
            rw [show po + context = last.oldEnd by omega,
              show pn + context = last.newEnd by omega] at hbetween
            rw [hmerged] at hapart ⊢
            refine ⟨⟨last, first :: others, rfl, rfl, rfl, by omega, by omega, by omega, by omega, ?_⟩, ?_⟩
            · exact .span hbetween (by omega) (by omega) hfle hfle' hfold hfnew hdiffers
            · refine List.pairwise_cons.2 ⟨fun other hother => ?_, hapart⟩
              unfold Apart
              rcases List.mem_cons.1 hother with rfl | hother
              · omega
              · have hlater : Apart first other := List.rel_of_pairwise_cons hapart hother
                unfold Apart at hlater
                omega

/-- Ranges stay a difference when they are widened and merged. -/
theorem mergeAll_differs (context : Nat) (h : Differs old new 0 0 found) :
    Differs old new 0 0 (mergeAll (found.map (expand context old.length new.length))) ∧
      (mergeAll (found.map (expand context old.length new.length))).Pairwise Apart := by
  cases h with
  | done hblock hold hnew => exact ⟨.done hblock hold hnew, .nil⟩
  | @span _ _ count range rest hblock hstart hstart' hole hnle hrold hrnew hrest =>
      obtain ⟨⟨first, others, hmerged, hfirst, hfirst', hfle, hfle', hfold, hfnew, hdiffers⟩,
        hapart⟩ := merge_spec context (expand context old.length new.length range) hrest
          (by simp [expand]; omega) (by simp [expand]; omega) hrold hrnew rfl rfl
      simp only [expand] at hfirst hfirst'
      simp only [List.map_cons, mergeAll]
      refine ⟨?_, hapart⟩
      rw [hmerged]
      have hbefore := hblock.sub 0 (count - context) (by omega)
      exact .span hbefore (by omega) (by omega) hfle hfle' hfold hfnew hdiffers

theorem merge_of_apart {last : Span} (h : (last :: rest).Pairwise Apart) :
    merge last rest = last :: rest := by
  induction rest generalizing last with
  | nil => rfl
  | cons range rest ih =>
      have hapart : Apart last range := List.rel_of_pairwise_cons h List.mem_cons_self
      have hfar : ¬ (range.oldStart ≤ last.oldEnd ∨ range.newStart ≤ last.newEnd) := by
        unfold Apart at hapart
        omega
      rw [merge, if_neg hfar, ih h.of_cons]

/-- Without context nothing is widened, and ranges that are apart are not merged. -/
theorem mergeAll_expand_zero (h : Differs old new 0 0 found) (hapart : found.Pairwise Apart) :
    mergeAll (found.map (expand 0 old.length new.length)) = found := by
  have hexpand : found.map (expand 0 old.length new.length) = found := by
    conv_rhs => rw [← List.map_id found]
    refine List.map_congr_left fun range hrange => ?_
    obtain ⟨-, -, hold, hnew⟩ := h.bounds range hrange
    simp only [expand, Nat.sub_zero, Nat.add_zero, min_eq_left hold, min_eq_left hnew, id]
  rw [hexpand]
  cases found with
  | nil => rfl
  | cons range rest => exact merge_of_apart hapart

end Context

/-! ### Limits -/

section Limits

variable {old new : List (List Char)} {maximumHunks maximumBytes : Nat} {result : BodyHunks}
  {spans : List Span}

/-- What has been collected is within the limit, with room for a reason to stop. -/
def Fits (maximumBytes : Nat) (result : BodyHunks) : Prop :=
  result.hunks = [] ∨ Json.size result.json + 32 ≤ maximumBytes

/-- The result with the hunks of more ranges. -/
def extend (old new : List (List Char)) (result : BodyHunks) (spans : List Span) : BodyHunks :=
  { result with hunks := result.hunks ++ spans.map (hunkOf old new) }

theorem extend_push (span : Span) :
    extend old new (push result (hunkOf old new span)) spans = extend old new result (span :: spans) := by
  simp [extend, push]

theorem size_json (body : BodyHunks) :
    Json.size body.json = 55 + Json.size (Json.bool body.changed) +
      Json.size (Json.array (body.hunks.map BodyDiff.json)) + Json.size (Json.bool body.truncated) +
      Json.size (DiffTruncation.json body.truncationReason) := by
  have hchanged : Json.size (Json.string "changed".toList) = 9 := by decide
  have hhunks : Json.size (Json.string "hunks".toList) = 7 := by decide
  have htruncated : Json.size (Json.string "truncated".toList) = 11 := by decide
  have hreason : Json.size (Json.string "truncation_reason".toList) = 19 := by decide
  simp only [BodyHunks.json, Json.size_object, Json.size_field, List.map_cons, List.map_nil,
    List.sum_cons, List.sum_nil, List.length_cons, List.length_nil, hchanged, hhunks, htruncated, hreason]
  omega

theorem size_reason (reason : DiffTruncation) :
    Json.size (DiffTruncation.json (some reason)) ≤ 19 := by
  cases reason <;> decide

/-- The reserve covers every reason to stop. -/
theorem size_truncate (result : BodyHunks) (hopen : result.truncated = false) (hnone : result.truncationReason = none)
    (reason : DiffTruncation) :
    Json.size (truncate result reason).json ≤ Json.size result.json + 32 := by
  have hreason := size_reason reason
  have htrue : Json.size (Json.bool true) = 4 := by decide
  have hfalse : Json.size (Json.bool false) = 5 := by decide
  have hnull : Json.size (DiffTruncation.json none) = 4 := by decide
  simp only [size_json, truncate, hopen, hnone, htrue, hfalse, hnull]
  omega

/-- An empty result is small. -/
theorem size_empty (result : BodyHunks) (hhunks : result.hunks = []) (hopen : result.truncated = false)
    (hnone : result.truncationReason = none) : Json.size result.json ≤ 71 := by
  have hempty : Json.size (Json.array []) = 2 := by decide
  have hbool : ∀ b, Json.size (Json.bool b) ≤ 5 := by decide
  have hchanged := hbool result.changed
  have hfalse : Json.size (Json.bool false) = 5 := by decide
  have hnull : Json.size (DiffTruncation.json none) = 4 := by decide
  simp only [size_json, hhunks, hopen, hnone, List.map_nil, hempty, hfalse, hnull]
  omega

theorem Fits.size_le (h : Fits maximumBytes result) (hmaximum : 256 ≤ maximumBytes)
    (hopen : result.truncated = false) (hnone : result.truncationReason = none) :
    Json.size result.json + 32 ≤ maximumBytes := by
  rcases h with hhunks | hfits
  · have hempty := size_empty result hhunks hopen hnone
    omega
  · exact hfits

/-- The text of a hunk is no longer than the result that holds it. -/
theorem size_hunk_le (result : BodyHunks) (hunk : BodyDiff) :
    Json.size hunk.removed + Json.size hunk.added ≤ Json.size (push result hunk).json := by
  have hremoved := Json.size_le_size_string hunk.removed
  have hadded := Json.size_le_size_string hunk.added
  have hhunk : Json.size hunk.removed + Json.size hunk.added ≤ Json.size hunk.json := by
    simp only [BodyDiff.json, Json.size_object, Json.size_field, List.map_cons, List.map_nil,
      List.sum_cons, List.sum_nil]
    omega
  have harray : Json.size hunk.json ≤
      Json.size (Json.array ((push result hunk).hunks.map BodyDiff.json)) := by
    simp only [push, Json.size_array, List.map_append, List.map_cons, List.map_nil, List.sum_append,
      List.sum_cons, List.sum_nil]
    omega
  rw [size_json]
  omega

/-- What the loop over the ranges takes, and why it stops. -/
theorem collect_spec (old new : List (List Char)) (maximumHunks maximumBytes : Nat)
    (result : BodyHunks) (spans : List Span) (hopen : result.truncated = false) (hnone : result.truncationReason = none)
    (hfits : Fits maximumBytes result) :
    ∃ taken rest, spans = taken ++ rest ∧ Fits maximumBytes (extend old new result taken) ∧
      ((rest = [] ∧ collect old new maximumHunks maximumBytes result spans = extend old new result taken) ∨
        ∃ next rest', rest = next :: rest' ∧
          (collect old new maximumHunks maximumBytes result spans =
              truncate (extend old new result taken) .hunkLimit ∨
            collect old new maximumHunks maximumBytes result spans =
                truncate (extend old new result taken) .byteLimit ∧
              maximumBytes <
                Json.size (push (extend old new result taken) (hunkOf old new next)).json + 32)) := by
  have hself : extend old new result [] = result := by simp [extend]
  induction spans generalizing result with
  | nil => exact ⟨[], [], rfl, by rwa [hself], .inl ⟨rfl, by rw [hself]; rfl⟩⟩
  | cons span spans ih =>
      simp only [collect]
      split
      · exact ⟨[], span :: spans, rfl, by rwa [hself], .inr ⟨span, spans, rfl, .inl (by rw [hself])⟩⟩
      · split
        · rename_i hbytes
          have hhunk := size_hunk_le result (hunkOf old new span)
          exact ⟨[], span :: spans, rfl, by rwa [hself],
            .inr ⟨span, spans, rfl, .inr ⟨by rw [hself], by rw [hself]; omega⟩⟩⟩
        · split
          · rename_i hbytes
            exact ⟨[], span :: spans, rfl, by rwa [hself],
              .inr ⟨span, spans, rfl, .inr ⟨by rw [hself], by rwa [hself]⟩⟩⟩
          · rename_i hroom
            obtain ⟨taken, rest, hspans, htaken, hend⟩ := ih (push result (hunkOf old new span))
              hopen hnone (.inr (Nat.le_of_not_lt hroom)) (by simp [extend])
            rw [extend_push] at htaken hend
            exact ⟨span :: taken, rest, by rw [hspans]; rfl, htaken, hend⟩

theorem length_collect (old new : List (List Char)) {maximumHunks : Nat} (maximumBytes : Nat)
    (result : BodyHunks) (spans : List Span) (hlength : result.hunks.length ≤ maximumHunks) :
    (collect old new maximumHunks maximumBytes result spans).hunks.length ≤ maximumHunks := by
  induction spans generalizing result with
  | nil => exact hlength
  | cons span spans ih =>
      simp only [collect]
      split
      · exact hlength
      · rename_i hother
        split
        · exact hlength
        · split
          · exact hlength
          · refine ih _ ?_
            simp only [push, List.length_append, List.length_cons, List.length_nil]
            omega

/-- Limits that do not bind. -/
theorem collect_unlimited (old new : List (List Char)) (result : BodyHunks) (spans : List Span) :
    ∃ bound, ∀ maximumHunks maximumBytes, bound ≤ maximumHunks → bound ≤ maximumBytes →
      collect old new maximumHunks maximumBytes result spans = extend old new result spans := by
  induction spans generalizing result with
  | nil => exact ⟨0, fun _ _ _ _ => by simp [collect, extend]⟩
  | cons span spans ih =>
      obtain ⟨bound, hbound⟩ := ih (push result (hunkOf old new span))
      have hhunk := size_hunk_le result (hunkOf old new span)
      refine ⟨bound + result.hunks.length + 1 +
        (Json.size (push result (hunkOf old new span)).json + 32), fun maximumHunks maximumBytes hH hB => ?_⟩
      rw [collect, if_neg (by omega), if_neg (by omega), if_neg (by omega),
        hbound _ _ (by omega) (by omega), extend_push]

end Limits

/-! ### Patches -/

/-- What a call with limits that do not bind returns. -/
def Unlimited (before after : List Char) (context : Nat) (whole : BodyHunks) : Prop :=
  ∃ bound, ∀ maximumHunks maximumBytes, bound ≤ maximumHunks → bound ≤ maximumBytes →
    hunks before after context maximumHunks maximumBytes = whole

/-- The lines a hunk removes and adds. -/
def removedLines (hunk : BodyDiff) : Nat := (linesOf hunk.removed).length

def addedLines (hunk : BodyDiff) : Nat := (linesOf hunk.added).length

/-- The lines from `position` to `stop`, with what the hunks remove replaced by what they
add. -/
def applyHunks (lines : List (List Char)) (position stop : Nat) : List BodyDiff → List Char
  | [] => (slice lines position stop).flatten
  | hunk :: hunks =>
      (slice lines position (hunk.fromLine - 1)).flatten ++ hunk.added ++
        applyHunks lines (hunk.fromLine - 1 + removedLines hunk) stop hunks

/-- The hunks are a patch from one text to the other. -/
structure IsPatch (before after : List Char) (body : List BodyDiff) : Prop where
  /-- Their ranges are increasing and disjoint, in both texts. -/
  ordered : body.Pairwise fun hunk later =>
    hunk.fromLine + removedLines hunk < later.fromLine ∧ hunk.toLine + addedLines hunk < later.toLine
  /-- What is removed stands at its place. -/
  removed : ∀ hunk ∈ body, 1 ≤ hunk.fromLine ∧
    slice (linesOf before) (hunk.fromLine - 1) (hunk.fromLine - 1 + removedLines hunk) =
      linesOf hunk.removed
  added : ∀ hunk ∈ body, 1 ≤ hunk.toLine ∧
    slice (linesOf after) (hunk.toLine - 1) (hunk.toLine - 1 + addedLines hunk) = linesOf hunk.added
  /-- The lines that precede a hunk in the new text. -/
  preceding : ∀ earlier hunk later, body = earlier ++ hunk :: later →
    applyHunks (linesOf before) 0 (hunk.fromLine - 1) earlier <+: after ∧
      (linesOf (applyHunks (linesOf before) 0 (hunk.fromLine - 1) earlier)).length + 1 = hunk.toLine
  applies : applyHunks (linesOf before) 0 (linesOf before).length body = after

section Patches

variable {before after : List Char} {context maximumHunks maximumBytes : Nat} {spans : List Span}

theorem linesOf_slice (text : List Char) (i j : Nat) :
    linesOf (slice (linesOf text) i j).flatten = slice (linesOf text) i j :=
  (((Text.pieces_splitInclusive text).drop i).take (j - i)).split

theorem flatten_linesOf (text : List Char) : (linesOf text).flatten = text :=
  Text.flatten_splitInclusive text

/-- What can come of a call, whatever its limits are. -/
theorem hunks_cases (before after : List Char) (context : Nat) :
    (before = after ∧ ∀ maximumHunks maximumBytes,
      hunks before after context maximumHunks maximumBytes = ⟨false, [], false, none⟩) ∨
    before ≠ after ∧
      ((∃ reason, (reason = .inputLineLimit ∨ reason = .computationLimit) ∧
        ∀ maximumHunks maximumBytes, hunks before after context maximumHunks maximumBytes =
          truncate ⟨true, [], false, none⟩ reason) ∨
      ∃ found, Shortest (linesOf before) (linesOf after) found ∧
        ∀ maximumHunks maximumBytes, hunks before after context maximumHunks maximumBytes =
          collect (linesOf before) (linesOf after) maximumHunks maximumBytes ⟨true, [], false, none⟩
            (mergeAll (found.map (expand context (linesOf before).length (linesOf after).length)))) := by
  by_cases hsame : before = after
  · refine .inl ⟨hsame, fun _ _ => ?_⟩
    simp [hunks, hsame]
  · refine .inr ⟨hsame, ?_⟩
    simp only [hunks, hsame, if_false, ne_eq, not_false_iff, decide_true]
    by_cases hlong : maximumLines < ((linesOf before).take (maximumLines + 1)).length ∨
        maximumLines < ((linesOf after).take (maximumLines + 1)).length
    · exact .inl ⟨.inputLineLimit, .inl rfl, fun _ _ => by rw [if_pos hlong]⟩
    · have hshort : (linesOf before).length ≤ maximumLines ∧ (linesOf after).length ≤ maximumLines := by
        simp only [List.length_take] at hlong
        omega
      rw [List.take_of_length_le (by omega), List.take_of_length_le (by omega)] at hlong ⊢
      cases hranges : ranges (linesOf before) (linesOf after) with
      | none => exact .inl ⟨.computationLimit, .inr rfl, fun _ _ => by rw [if_neg hlong]⟩
      | some found => exact .inr ⟨found, ranges_spec hranges, fun _ _ => by rw [if_neg hlong]⟩

theorem length_slice {α : Type} {l : List α} {i j : Nat} (h : j ≤ l.length) :
    (slice l i j).length = j - i := by
  rw [slice, List.length_take, List.length_drop]
  omega

theorem hunkOf_lines {span : Span} (hold : span.oldEnd ≤ (linesOf before).length)
    (hnew : span.newEnd ≤ (linesOf after).length) :
    removedLines (hunkOf (linesOf before) (linesOf after) span) = span.oldEnd - span.oldStart ∧
      addedLines (hunkOf (linesOf before) (linesOf after) span) = span.newEnd - span.newStart := by
  simp only [removedLines, addedLines, hunkOf, linesOf_slice]
  exact ⟨length_slice hold, length_slice hnew⟩

/-- Hunks replace what their spans replace. -/
theorem applyHunks_eq {position stop : Nat} (hbounds : ∀ span ∈ spans, span.oldStart ≤ span.oldEnd ∧
      span.oldEnd ≤ (linesOf before).length ∧ span.newEnd ≤ (linesOf after).length) :
    applyHunks (linesOf before) position stop (spans.map (hunkOf (linesOf before) (linesOf after))) =
      (patch (linesOf before) (linesOf after) position stop spans).flatten := by
  induction spans generalizing position with
  | nil => rfl
  | cons span spans ih =>
      obtain ⟨hle, hold, hnew⟩ := hbounds span List.mem_cons_self
      have hstart : (hunkOf (linesOf before) (linesOf after) span).fromLine - 1 = span.oldStart := rfl
      have hend : (hunkOf (linesOf before) (linesOf after) span).fromLine - 1 +
          removedLines (hunkOf (linesOf before) (linesOf after) span) = span.oldEnd := by
        rw [hstart, (hunkOf_lines hold hnew).1]
        omega
      rw [List.map_cons, applyHunks, hend, hstart, patch, List.flatten_append, List.flatten_append,
        ih fun other hother => hbounds other (List.mem_cons_of_mem _ hother)]
      rfl

/-- The hunks of a difference are a patch. -/
theorem isPatch_of_differs (h : Differs (linesOf before) (linesOf after) 0 0 spans)
    (hapart : spans.Pairwise Apart) :
    IsPatch before after (spans.map (hunkOf (linesOf before) (linesOf after))) := by
  have hbounds := h.bounds
  have hlines : ∀ span ∈ spans, removedLines (hunkOf (linesOf before) (linesOf after) span) =
        span.oldEnd - span.oldStart ∧
      addedLines (hunkOf (linesOf before) (linesOf after) span) = span.newEnd - span.newStart :=
    fun span hspan => hunkOf_lines (hbounds span hspan).2.2.1 (hbounds span hspan).2.2.2
  refine ⟨?_, fun hunk hhunk => ?_, fun hunk hhunk => ?_, fun earlier hunk later hbody => ?_, ?_⟩
  · refine List.pairwise_map.2 (hapart.imp_of_mem fun {s t} hs ht hst => ?_)
    have hbound := hbounds s hs
    unfold Apart at hst
    rw [(hlines s hs).1, (hlines s hs).2]
    simp only [hunkOf]
    omega
  · obtain ⟨span, hspan, rfl⟩ := List.mem_map.1 hhunk
    have hbound := hbounds span hspan
    refine ⟨Nat.succ_pos _, ?_⟩
    rw [(hlines span hspan).1]
    simp only [hunkOf, Nat.add_sub_cancel, linesOf_slice]
    rw [Nat.add_sub_cancel' hbound.1]
  · obtain ⟨span, hspan, rfl⟩ := List.mem_map.1 hhunk
    have hbound := hbounds span hspan
    refine ⟨Nat.succ_pos _, ?_⟩
    rw [(hlines span hspan).2]
    simp only [hunkOf, Nat.add_sub_cancel, linesOf_slice]
    rw [Nat.add_sub_cancel' hbound.2.1]
  · obtain ⟨before', rest, hspans, rfl, hrest⟩ := List.map_eq_append_iff.1 hbody
    obtain ⟨span, after', rfl, rfl, -⟩ := List.map_eq_cons_iff.1 hrest
    subst hspans
    obtain ⟨hpatch, -⟩ := h.patch_to
    have hspan := hbounds span (by simp)
    have hstart : (hunkOf (linesOf before) (linesOf after) span).fromLine - 1 = span.oldStart := rfl
    rw [hstart, applyHunks_eq fun other hother => ?_, hpatch, linesOf_slice,
      length_slice (hspan.2.1.trans hspan.2.2.2)]
    · refine ⟨?_, rfl⟩
      conv_rhs => rw [← flatten_linesOf after]
      rw [slice, List.drop_zero, Nat.sub_zero]
      conv_rhs => rw [← List.take_append_drop span.newStart (linesOf after), List.flatten_append]
      exact List.prefix_append _ _
    · have hbound := hbounds other (by simp [hother])
      exact ⟨hbound.1, hbound.2.2.1, hbound.2.2.2⟩
  · rw [applyHunks_eq fun span hspan => ?_, h.patch_eq.1, slice, List.drop_zero, Nat.sub_zero,
      List.take_length, flatten_linesOf]
    have hbound := hbounds span hspan
    exact ⟨hbound.1, hbound.2.2.1, hbound.2.2.2⟩

/-- The empty result of two texts that differ. -/
def nothing : BodyHunks := ⟨true, [], false, none⟩

/-- How a call on two texts that differ ends: at once, or with the hunks of the first
ranges. -/
theorem hunks_outcome (hne : before ≠ after) (context maximumHunks maximumBytes : Nat) :
    let result := hunks before after context maximumHunks maximumBytes
    let taking := extend (linesOf before) (linesOf after) nothing
    (∃ reason, (reason = .inputLineLimit ∨ reason = .computationLimit) ∧
      result = truncate nothing reason ∧ Unlimited before after context result) ∨
    ∃ found taken rest, Shortest (linesOf before) (linesOf after) found ∧
      mergeAll (found.map (expand context (linesOf before).length (linesOf after).length)) =
        taken ++ rest ∧
      Unlimited before after context (taking (taken ++ rest)) ∧ Fits maximumBytes (taking taken) ∧
      ((rest = [] ∧ result = taking taken) ∨ ∃ next rest', rest = next :: rest' ∧
        (result = truncate (taking taken) .hunkLimit ∨
          result = truncate (taking taken) .byteLimit ∧ maximumBytes <
            Json.size (push (taking taken) (hunkOf (linesOf before) (linesOf after) next)).json + 32)) := by
  intro result taking
  rcases hunks_cases before after context with
    ⟨hsame, -⟩ | ⟨-, ⟨reason, hreason, htruncated⟩ | ⟨found, hfound, hall⟩⟩
  · exact absurd hsame hne
  · refine .inl ⟨reason, hreason, htruncated _ _, 0, fun _ _ _ _ => ?_⟩
    exact (htruncated _ _).trans (htruncated _ _).symm
  · obtain ⟨taken, rest, hspans, hfits, hend⟩ := collect_spec (linesOf before) (linesOf after)
      maximumHunks maximumBytes nothing
      (mergeAll (found.map (expand context (linesOf before).length (linesOf after).length)))
      rfl rfl (.inl rfl)
    obtain ⟨bound, hbound⟩ := collect_unlimited (linesOf before) (linesOf after) nothing
      (mergeAll (found.map (expand context (linesOf before).length (linesOf after).length)))
    have hresult := hall maximumHunks maximumBytes
    refine .inr ⟨found, taken, rest, hfound, hspans, ⟨bound, fun _ _ hH hB => ?_⟩, hfits, ?_⟩
    · rw [← hspans]
      exact (hall _ _).trans (hbound _ _ hH hB)
    · rcases hend with ⟨hnil, hend⟩ | ⟨next, rest', hrest, hend | ⟨hend, hsize⟩⟩
      · exact .inl ⟨hnil, hresult.trans hend⟩
      · exact .inr ⟨next, rest', hrest, .inl (hresult.trans hend)⟩
      · exact .inr ⟨next, rest', hrest, .inr ⟨hresult.trans hend, hsize⟩⟩

theorem size_hunks_le (before after : List Char) (context maximumHunks : Nat)
    (hmaximum : 256 ≤ maximumBytes) :
    Json.size (hunks before after context maximumHunks maximumBytes).json ≤ maximumBytes := by
  by_cases hne : before = after
  · subst hne
    have hresult : hunks before before context maximumHunks maximumBytes =
        ⟨false, [], false, none⟩ := by simp [hunks]
    have hsmall := size_empty ⟨false, [], false, none⟩ rfl rfl rfl
    rw [hresult]
    omega
  · rcases hunks_outcome hne context maximumHunks maximumBytes with
      ⟨reason, hreason, hresult, -⟩ | ⟨found, taken, rest, hfound, hspans, hwhole, hfits, hend⟩
    · have hsmall := size_empty nothing rfl rfl rfl
      have htruncate := size_truncate nothing rfl rfl reason
      rw [hresult]
      omega
    · have hroom := hfits.size_le hmaximum rfl rfl
      have htruncate : ∀ reason, Json.size
          (truncate (extend (linesOf before) (linesOf after) nothing taken) reason).json ≤ maximumBytes :=
        fun reason => (size_truncate _ rfl rfl reason).trans hroom
      rcases hend with ⟨-, hresult⟩ | ⟨next, rest', rfl, hresult | ⟨hresult, -⟩⟩
      · rw [hresult]
        omega
      · rw [hresult]
        exact htruncate _
      · rw [hresult]
        exact htruncate _

/-- A difference that agrees with itself and keeps its limits. -/
structure Presentable (maximumHunks maximumBytes : Nat) (body : BodyHunks) : Prop where
  hunks_le : body.hunks.length ≤ maximumHunks
  reason : body.truncated = body.truncationReason.isSome
  unchanged : body.changed = false → body.hunks = [] ∧ body.truncated = false
  changed : body.changed = true → body.hunks ≠ [] ∨ body.truncated = true
  lines : ∀ hunk ∈ body.hunks, 0 < hunk.fromLine ∧ 0 < hunk.toLine
  size_le : Json.size body.json ≤ maximumBytes

theorem length_hunks_le (before after : List Char) (context maximumHunks maximumBytes : Nat) :
    (hunks before after context maximumHunks maximumBytes).hunks.length ≤ maximumHunks := by
  unfold hunks
  split
  · exact Nat.zero_le _
  · simp only []
    split
    · exact Nat.zero_le _
    · split
      · exact Nat.zero_le _
      · exact length_collect _ _ _ _ _ (Nat.zero_le _)

theorem hunks_presentable (before after : List Char) (context maximumHunks : Nat)
    (hmaximum : 256 ≤ maximumBytes) :
    Presentable maximumHunks maximumBytes
      (hunks before after context maximumHunks maximumBytes) := by
  have hlength := length_hunks_le before after context maximumHunks maximumBytes
  have hsize := size_hunks_le before after context maximumHunks hmaximum
  by_cases hne : before = after
  · subst hne
    have hresult : hunks before before context maximumHunks maximumBytes =
        ⟨false, [], false, none⟩ := by simp [hunks]
    rw [hresult] at hlength hsize ⊢
    exact ⟨hlength, rfl, by simp, by simp, by simp, hsize⟩
  · have hlines : ∀ spans, ∀ hunk ∈ (extend (linesOf before) (linesOf after) nothing spans).hunks,
        0 < hunk.fromLine ∧ 0 < hunk.toLine := by
      intro spans hunk hhunk
      obtain ⟨span, -, rfl⟩ := List.mem_map.1 hhunk
      exact ⟨Nat.succ_pos _, Nat.succ_pos _⟩
    rcases hunks_outcome hne context maximumHunks maximumBytes with
      ⟨reason, -, hresult, -⟩ | ⟨found, taken, rest, hfound, hspans, -, -, hend⟩
    · rw [hresult] at hlength hsize ⊢
      exact ⟨hlength, rfl, by simp [truncate, nothing], by simp [truncate],
        by simp [truncate, nothing], hsize⟩
    · rcases hend with ⟨rfl, hresult⟩ | ⟨next, rest', rfl, hresult | ⟨hresult, -⟩⟩
      · rw [hresult] at hlength hsize ⊢
        refine ⟨hlength, rfl, by simp [extend, nothing], fun _ => .inl fun hnil => hne ?_,
          hlines taken, hsize⟩
        -- without any hunk the patch is the identity
        have htaken : taken = [] := by simpa [extend, nothing] using hnil
        have hmerged := mergeAll_differs context hfound.differs
        rw [hspans, htaken] at hmerged
        have happlies := (isPatch_of_differs hmerged.1 hmerged.2).applies
        simpa [applyHunks, slice, flatten_linesOf] using happlies
      · rw [hresult] at hlength hsize ⊢
        exact ⟨hlength, rfl, by simp [truncate, extend, nothing], by simp [truncate],
          hlines taken, hsize⟩
      · rw [hresult] at hlength hsize ⊢
        exact ⟨hlength, rfl, by simp [truncate, extend, nothing], by simp [truncate],
          hlines taken, hsize⟩

/-- Hunks are a correct patch, and truncated ones are the first hunks of the whole patch. -/
theorem hunks_patch (before after : List Char) (context maximumHunks maximumBytes : Nat) :
    let result := hunks before after context maximumHunks maximumBytes
    (result.changed = true ↔ before ≠ after) ∧
      (result.truncated = false → IsPatch before after result.hunks) ∧
      (result.truncated = true → ∃ whole, Unlimited before after context whole ∧
        result.hunks <+: whole.hunks ∧
        (result.truncationReason = some .inputLineLimit ∨
          result.truncationReason = some .computationLimit → result.hunks = [])) := by
  intro result
  by_cases hne : before = after
  · subst hne
    have hresult : result = ⟨false, [], false, none⟩ := by simp [result, hunks]
    rw [hresult]
    refine ⟨by simp, fun _ => ?_, by simp⟩
    have hwhole : Differs (linesOf before) (linesOf before) 0 0 [] :=
      .done ⟨by simp, by simp, fun _ _ => rfl⟩ (Nat.zero_add _) (Nat.zero_add _)
    exact isPatch_of_differs hwhole .nil
  · rcases hunks_outcome hne context maximumHunks maximumBytes with
      ⟨reason, -, hresult, hwhole⟩ | ⟨found, taken, rest, hfound, hspans, hwhole, -, hend⟩
    · have hempty : result.hunks = [] := by
        rw [show result = _ from hresult]
        rfl
      refine ⟨by simp [show result = _ from hresult, truncate, nothing, hne],
        by simp [show result = _ from hresult, truncate], fun _ => ⟨result, hwhole, List.prefix_refl _, fun _ => hempty⟩⟩
    · rcases hend with ⟨rfl, hresult⟩ | ⟨next, rest', rfl, hend⟩
      · rw [show result = _ from hresult]
        refine ⟨by simp [extend, nothing, hne], fun _ => ?_, by simp [extend, nothing]⟩
        obtain ⟨hdiffers, hapart⟩ := mergeAll_differs context hfound.differs
        rw [hspans, List.append_nil] at hdiffers hapart
        exact isPatch_of_differs hdiffers hapart
      · obtain ⟨reason, hreason, hresult⟩ : ∃ reason, (reason = .hunkLimit ∨ reason = .byteLimit) ∧
            result = truncate (extend (linesOf before) (linesOf after) nothing taken) reason := by
          rcases hend with hend | ⟨hend, -⟩
          · exact ⟨_, .inl rfl, hend⟩
          · exact ⟨_, .inr rfl, hend⟩
        rw [hresult]
        refine ⟨by simp [truncate, extend, nothing, hne], by simp [truncate], fun _ => ⟨_, hwhole, ?_, ?_⟩⟩
        · simp only [truncate, extend, List.map_append, ← List.append_assoc]
          exact List.prefix_append _ _
        · rcases hreason with rfl | rfl <;> simp [truncate]

/-- How many lines the hunks remove and add. -/
def changedLines (body : BodyHunks) : Nat :=
  (body.hunks.map fun hunk => removedLines hunk + addedLines hunk).sum

/-- The least number of insertions and deletions that turn one list into the other: what a
longest common sublist leaves over. -/
def EditDistance {α : Type} (old new : List α) (total : Nat) : Prop :=
  (∃ common : List α, common.Sublist old ∧ common.Sublist new ∧
    total + 2 * common.length = old.length + new.length) ∧
  ∀ common : List α, common.Sublist old → common.Sublist new →
    total + 2 * common.length ≤ old.length + new.length

/-- Without context, hunks that are not truncated remove and add as few lines as
possible. -/
theorem hunks_minimal (before after : List Char) (maximumHunks maximumBytes : Nat)
    (h : (hunks before after 0 maximumHunks maximumBytes).truncated = false) :
    EditDistance (linesOf before) (linesOf after)
      (changedLines (hunks before after 0 maximumHunks maximumBytes)) := by
  by_cases hne : before = after
  · subst hne
    have htotal : changedLines (hunks before before 0 maximumHunks maximumBytes) = 0 := by
      simp [changedLines, hunks]
    rw [htotal]
    refine ⟨⟨linesOf before, List.Sublist.refl _, List.Sublist.refl _, by omega⟩, fun common hold _ => ?_⟩
    have hle := hold.length_le
    omega
  · rcases hunks_outcome hne 0 maximumHunks maximumBytes with
      ⟨reason, -, hresult, -⟩ | ⟨found, taken, rest, hfound, hspans, -, -, hend⟩
    · rw [hresult] at h
      cases h
    · rcases hend with ⟨rfl, hresult⟩ | ⟨next, rest', -, hresult | ⟨hresult, -⟩⟩
      · rw [mergeAll_expand_zero hfound.differs hfound.apart, List.append_nil] at hspans
        subst hspans
        have htotal : changedLines (hunks before after 0 maximumHunks maximumBytes) =
            (found.map Span.cost).sum := by
          simp only [changedLines, hresult, extend, nothing, List.nil_append, List.map_map]
          congr 1
          refine List.map_congr_left fun span hspan => ?_
          obtain ⟨-, -, hold, hnew⟩ := hfound.differs.bounds span hspan
          obtain ⟨hremoved, hadded⟩ := hunkOf_lines hold hnew
          simp only [Function.comp_apply, hremoved, hadded, Span.cost]
        rw [htotal]
        exact ⟨by simpa using hfound.differs.common, hfound.least⟩
      · rw [hresult] at h
        cases h
      · rw [hresult] at h
        cases h

/-- The limit on the encoded size is kept, and a hunk that is left out for it would not
have fitted. -/
theorem hunks_size (before after : List Char) (context maximumHunks maximumBytes : Nat)
    (hmaximum : 256 ≤ maximumBytes) :
    let result := hunks before after context maximumHunks maximumBytes
    Json.size result.json ≤ maximumBytes ∧
      (result.truncationReason = some .byteLimit → ∃ whole next, Unlimited before after context whole ∧
        result.hunks ++ [next] <+: whole.hunks ∧
        maximumBytes - 32 < Json.size (BodyHunks.json ⟨true, result.hunks ++ [next], false, none⟩)) := by
  intro result
  refine ⟨size_hunks_le before after context maximumHunks hmaximum, fun hbyte => ?_⟩
  by_cases hne : before = after
  · subst hne
    simp [result, hunks] at hbyte
  · rcases hunks_outcome hne context maximumHunks maximumBytes with
      ⟨reason, hreason, hresult, -⟩ | ⟨found, taken, rest, hfound, hspans, hwhole, hfits, hend⟩
    · rw [show result = _ from hresult] at hbyte
      rcases hreason with rfl | rfl <;> cases hbyte
    · rcases hend with ⟨-, hresult⟩ | ⟨next, rest', rfl, hresult | ⟨hresult, hsize⟩⟩
      · rw [show result = _ from hresult] at hbyte
        simp [extend, nothing] at hbyte
      · rw [show result = _ from hresult] at hbyte
        simp [truncate] at hbyte
      · rw [show result = _ from hresult]
        refine ⟨_, hunkOf (linesOf before) (linesOf after) next, hwhole, ?_, ?_⟩
        · simp only [truncate, extend, List.map_append, List.map_cons]
          exact ⟨rest'.map (hunkOf (linesOf before) (linesOf after)), by simp⟩
        · have hpushed : push (extend (linesOf before) (linesOf after) nothing taken)
              (hunkOf (linesOf before) (linesOf after) next) =
              ⟨true, (truncate (extend (linesOf before) (linesOf after) nothing taken) .byteLimit).hunks ++
                [hunkOf (linesOf before) (linesOf after) next], false, none⟩ := rfl
          rw [hpushed] at hsize
          omega

end Patches

namespace Sample

def oldBody : List Char := ['a', '\n', 'b', '\n', 'c', '\n', 'a', '\n']

def newBody : List Char := ['a', '\n', 'c', '\n', 'b', '\n', 'a']

example : hunks oldBody newBody 0 5 500 =
    ⟨true, [⟨2, 2, ['b', '\n'], []⟩, ⟨4, 3, ['a', '\n'], ['b', '\n', 'a']⟩], false, none⟩ := by
  decide +kernel

theorem hunks_minimal_sample :
    (hunks oldBody newBody 0 5 500).truncated = false ∧ EditDistance (linesOf oldBody) (linesOf newBody) 4 :=
  have hopen : (hunks oldBody newBody 0 5 500).truncated = false := by decide +kernel
  have htotal : changedLines (hunks oldBody newBody 0 5 500) = 4 := by decide +kernel
  ⟨hopen, htotal ▸ hunks_minimal oldBody newBody 5 500 hopen⟩

theorem hunks_size_sample :
    256 ≤ 300 ∧ Json.size (hunks oldBody newBody 3 5 300).json ≤ 300 :=
  ⟨by decide, (hunks_size oldBody newBody 3 5 300 (by decide)).1⟩

end Sample

end Diff

end AgentKnowledge
