import AgentKnowledge.Gateway.Diff

/-!
The search for changed ranges is correct and finds the shortest difference.

`search_spec`: if the search succeeds, its trace leads back from the end of both lists to
their start (`Traced`), and it has as many rounds as a shortest path has edits.
`backtrack_spec` reads the equal elements off a trace: a matching with as many pairs as
the rounds leave room for. `ranges_differs` and `ranges_cost` say what follows for the
ranges between the matches, with the common ends put back.
-/

namespace AgentKnowledge

namespace Diff

open Alignment EditGraph Results

section Rounds

variable {α : Type} [DecidableEq α] {old new : List α} {distance : Nat} {s s' : Search}
  {frontier : Int → Int}

theorem mem_diagonals {k : Int} : k ∈ diagonals distance ↔ OnDiagonal distance k := by
  simp only [diagonals, List.mem_map, List.mem_range, OnDiagonal]
  constructor
  · rintro ⟨i, hi, rfl⟩
    omega
  · rintro ⟨hlow, hhigh, heven⟩
    exact ⟨((k + distance) / 2).toNat, by omega, by omega⟩

theorem visit_eq_ok {diagonal : Int} (h : visit old new distance s diagonal = .ok s') :
    s'.frontier = Function.update s.frontier diagonal (advance old new s.frontier distance diagonal) ∧
      ¬ (advance old new s.frontier distance diagonal = old.length ∧
        advance old new s.frontier distance diagonal - diagonal = new.length) := by
  simp only [visit, bind_eq_ok, rejectIf_eq_ok, exists_unit, pure_eq_ok, Except.ok.injEq] at h
  obtain ⟨-, -, hend, rfl⟩ := h
  refine ⟨rfl, ?_⟩
  unfold advance
  omega

theorem visit_eq_arrived {diagonal : Int} (h : visit old new distance s diagonal = .error .arrived) :
    advance old new s.frontier distance diagonal = old.length ∧
      advance old new s.frontier distance diagonal - diagonal = new.length := by
  simp only [visit, bind_eq_error, rejectIf_eq_error] at h
  rcases h with ⟨-, ⟨⟩⟩ | ⟨-, -, ⟨-, ⟨⟩⟩ | ⟨-, -, ⟨hend, -⟩ | ⟨-, -, ⟨⟩⟩⟩⟩
  unfold advance
  omega

/-- What a round leaves on the diagonals it has visited, and what it read there. -/
theorem visits_ok {ks : List Int} (hks : ∀ k ∈ ks, OnDiagonal distance k)
    (hold : ∀ k : Int, (k + distance) % 2 ≠ 0 → s.frontier k = frontier k)
    (h : ks.foldlM (visit old new distance) s = .ok s') :
    (∀ k ∈ ks, s'.frontier k = advance old new frontier distance k ∧
      ¬ (advance old new frontier distance k = old.length ∧
        advance old new frontier distance k - k = new.length)) ∧
    ∀ k, k ∉ ks → s'.frontier k = s.frontier k := by
  induction ks using List.reverseRecOn generalizing s' with
  | nil =>
      cases h
      simp
  | append_singleton ks diagonal ih =>
      rw [List.foldlM_append, bind_eq_ok] at h
      obtain ⟨s₁, hbefore, hlast⟩ := h
      simp only [List.foldlM_cons, List.foldlM_nil, bind_pure] at hlast
      obtain ⟨hvisited, hkept⟩ := ih (fun k hk => hks k (by simp [hk])) hbefore
      obtain ⟨hupdate, hend⟩ := visit_eq_ok hlast
      have hdiagonal := hks diagonal (by simp)
      -- the neighbours belong to the round before
      have hother : ∀ k : Int, (k + distance) % 2 ≠ 0 → s₁.frontier k = frontier k := by
        intro k hodd
        have hout : k ∉ ks := fun hk => hodd (hks k (by simp [hk])).2.2
        rw [hkept k hout, hold k hodd]
      have hadvance : advance old new s₁.frontier distance diagonal =
          advance old new frontier distance diagonal := by
        have heven := hdiagonal.2.2
        exact advance_congr (hother _ (by omega)) (hother _ (by omega))
      rw [hadvance] at hupdate hend
      refine ⟨fun k hk => ?_, fun k hk => ?_⟩
      · by_cases hlastk : k = diagonal
        · subst hlastk
          exact ⟨by rw [hupdate, Function.update_self], hend⟩
        · have hmem : k ∈ ks := by simpa [hlastk] using hk
          rw [hupdate, Function.update_of_ne hlastk]
          exact hvisited k hmem
      · simp only [List.mem_append, List.mem_singleton, not_or] at hk
        rw [hupdate, Function.update_of_ne hk.2, hkept k hk.1]

theorem visits_arrived {ks : List Int} (hks : ∀ k ∈ ks, OnDiagonal distance k)
    (hold : ∀ k : Int, (k + distance) % 2 ≠ 0 → s.frontier k = frontier k)
    (h : ks.foldlM (visit old new distance) s = .error .arrived) :
    ∃ k ∈ ks, advance old new frontier distance k = old.length ∧
      advance old new frontier distance k - k = new.length := by
  induction ks using List.reverseRecOn with
  | nil => cases h
  | append_singleton ks diagonal ih =>
      rw [List.foldlM_append, bind_eq_error] at h
      rcases h with hbefore | ⟨s₁, hbefore, hlast⟩
      · obtain ⟨k, hk, hend⟩ := ih (fun k hk => hks k (by simp [hk])) hbefore
        exact ⟨k, by simp [hk], hend⟩
      · simp only [List.foldlM_cons, List.foldlM_nil, bind_pure] at hlast
        have hend := visit_eq_arrived hlast
        have hdiagonal := hks diagonal (by simp)
        obtain ⟨-, hkept⟩ := visits_ok (fun k hk => hks k (by simp [hk])) hold hbefore
        have hother : ∀ k : Int, (k + distance) % 2 ≠ 0 → s₁.frontier k = frontier k := by
          intro k hodd
          have hout : k ∉ ks := fun hk => hodd (hks k (by simp [hk])).2.2
          rw [hkept k hout, hold k hodd]
        have heven := hdiagonal.2.2
        rw [advance_congr (hother _ (by omega)) (hother _ (by omega))] at hend
        exact ⟨diagonal, by simp, hend⟩

end Rounds

/-! ### The trace -/

section Traces

variable {α : Type} [DecidableEq α] {old new : List α} {trace : List (Int → Int)} {x y : Int}

/-- The frontiers, last one first, lead from a point back to the start. The first round
comes to `(0, 0)` by an insertion from `(0, -1)`. -/
def Traced (old new : List α) : List (Int → Int) → Int → Int → Prop
  | [], x, y => x = 0 ∧ y = -1
  | frontier :: earlier, x, y =>
      let previous := parent frontier earlier.length (x - y)
      x = advance old new frontier earlier.length (x - y) ∧
        0 ≤ origin frontier earlier.length (x - y) ∧
        x - y ≤ origin frontier earlier.length (x - y) ∧
        Traced old new earlier (frontier previous) (frontier previous - previous)

/-- The search before round `trace.length`: no earlier round has come to the end, and the
frontier is that of the last round. -/
structure Searching (old new : List α) (trace : List (Int → Int)) (frontier : Int → Int) : Prop where
  shorter : ∀ d < trace.length, ¬ Reaches old new d old.length new.length
  start : trace = [] → frontier = fun _ => 0
  furthest : ∀ d, trace.length = d + 1 → Furthest old new d frontier
  traced : ∀ d k, trace.length = d + 1 → OnDiagonal d k →
    Traced old new trace.reverse (frontier k) (frontier k - k)

variable {frontier frontier' : Int → Int} {k : Int}

/-- The point a round starts from. -/
theorem Searching.origin_reaches (h : Searching old new trace frontier)
    (hk : OnDiagonal trace.length k) :
    Reaches old new trace.length (origin frontier trace.length k)
      (origin frontier trace.length k - k) := by
  cases htrace : trace.length with
  | zero =>
      have hnil := List.length_eq_zero_iff.1 htrace
      rw [h.start hnil]
      rw [htrace] at hk
      unfold OnDiagonal at hk
      obtain rfl : k = 0 := by omega
      exact .start
  | succ d =>
      rw [htrace] at hk
      exact (h.furthest d htrace).origin_reaches hk

theorem Searching.advance_traced (h : Searching old new trace frontier)
    (hk : OnDiagonal trace.length k) :
    Traced old new (trace ++ [frontier]).reverse (advance old new frontier trace.length k)
      (advance old new frontier trace.length k - k) := by
  have hdiagonal : advance old new frontier trace.length k -
      (advance old new frontier trace.length k - k) = k := by omega
  have hnonneg := (h.origin_reaches hk).nonneg
  rw [List.reverse_append, List.reverse_singleton, List.singleton_append]
  simp only [Traced, List.length_reverse, hdiagonal]
  refine ⟨trivial, hnonneg.1, by omega, ?_⟩
  cases htrace : trace.length with
  | zero =>
      have hnil := List.length_eq_zero_iff.1 htrace
      rw [htrace] at hk
      unfold OnDiagonal at hk
      obtain rfl : k = 0 := by omega
      rw [h.start hnil, hnil]
      exact ⟨rfl, rfl⟩
  | succ d =>
      rw [htrace] at hk
      exact h.traced d _ htrace (parent_onDiagonal frontier hk)

/-- A round that does not come to the end. -/
theorem Searching.next (h : Searching old new trace frontier)
    (hmoves : ∀ k, OnDiagonal trace.length k →
      frontier' k = advance old new frontier trace.length k)
    (hend : ∀ k, OnDiagonal trace.length k →
      ¬ (advance old new frontier trace.length k = old.length ∧
        advance old new frontier trace.length k - k = new.length)) :
    Searching old new (trace ++ [frontier]) frontier' := by
  have hfurthest : Furthest old new trace.length frontier' := by
    cases htrace : trace.length with
    | zero =>
        have hnil := List.length_eq_zero_iff.1 htrace
        rw [htrace, h.start hnil] at hmoves
        exact furthest_zero (hmoves 0 (by simp [OnDiagonal]))
    | succ d =>
        rw [htrace] at hmoves
        exact (h.furthest d htrace).next hmoves
  have hlength : (trace ++ [frontier]).length = trace.length + 1 := by simp
  refine ⟨fun d hd => ?_, by simp, fun d hd => ?_, fun d k hd hk => ?_⟩
  · rcases Nat.lt_succ_iff_lt_or_eq.1 (hlength ▸ hd) with hlt | rfl
    · exact h.shorter d hlt
    · intro hpath
      have hk := hpath.onDiagonal
      refine hfurthest.not_reaches (fun heq => hend _ hk ?_) h.shorter hpath
      rw [hmoves _ hk] at heq
      exact ⟨heq, by omega⟩
  · obtain rfl : d = trace.length := by omega
    exact hfurthest
  · obtain rfl : d = trace.length := by omega
    rw [hmoves k hk]
    exact h.advance_traced hk

/-- What the search finds. -/
theorem search_spec {width rounds : Nat} {s : Search} {found : List (Int → Int)}
    (h : Searching old new trace s.frontier)
    (hfound : search old new width rounds trace s = some found) :
    Traced old new found.reverse old.length new.length ∧
      ∃ d, found.length = d + 1 ∧ ∀ d' < d, ¬ Reaches old new d' old.length new.length := by
  induction rounds generalizing trace s with
  | zero => cases hfound
  | succ rounds ih =>
      have hks : ∀ k ∈ diagonals trace.length, OnDiagonal trace.length k := fun _ => mem_diagonals.1
      simp only [search] at hfound
      split at hfound
      · cases hfound
      · split at hfound
        · cases hfound
        · rename_i harrived
          cases hfound
          obtain ⟨k, hk, hx, hy⟩ := visits_arrived hks (fun _ _ => rfl) harrived
          have htraced := h.advance_traced (hks k hk)
          rw [hx] at hy htraced
          rw [hy] at htraced
          exact ⟨htraced, trace.length, by simp, h.shorter⟩
        · rename_i s' hround
          obtain ⟨hvisited, -⟩ := visits_ok hks (fun _ _ => rfl) hround
          exact ih (h.next (fun k hk => (hvisited k (mem_diagonals.2 hk)).1)
            fun k hk => (hvisited k (mem_diagonals.2 hk)).2) hfound

/-- The point before the equal elements of a round, and how many there are. -/
theorem retreat_count (x y : Int) (frontier : Int → Int) (d : Nat)
    (hx : x = advance old new frontier d (x - y)) :
    let previous := parent frontier d (x - y)
    let start := origin frontier d (x - y)
    let equal := run old new start (start - (x - y))
    min (x - frontier previous) (y - (frontier previous - previous)) = equal ∧
      frontier previous ≤ start ∧ frontier previous - previous ≤ start - (x - y) ∧
      x = start + equal ∧ x + y = frontier previous + (frontier previous - previous) + 1 + 2 * equal := by
  intro previous start equal
  have hend : x = start + equal := hx
  rcases origin_cases frontier d (x - y) with ⟨hprevious, hstart⟩ | ⟨hprevious, hstart⟩
  · have hprev : previous = x - y + 1 := hprevious
    have hfrom : start = frontier previous := hstart
    refine ⟨?_, by omega, by omega, hend, by omega⟩
    rw [min_eq_left] <;> omega
  · have hprev : previous = x - y - 1 := hprevious
    have hfrom : start = frontier previous + 1 := hstart
    refine ⟨?_, by omega, by omega, hend, by omega⟩
    rw [min_eq_right] <;> omega

/-- What a trace says about the lists: a matching before `(x, y)` with all elements but
one for each round. -/
structure Backtracked (old new : List α) (rounds : Nat) (x y : Int) (pairs : List (Nat × Nat)) :
    Prop where
  same : ∀ pair ∈ pairs, ∃ a, old[pair.1]? = some a ∧ new[pair.2]? = some a
  decreasing : pairs.Pairwise fun p q => q.1 < p.1 ∧ q.2 < p.2
  before : ∀ pair ∈ pairs, (pair.1 : Int) < x ∧ (pair.2 : Int) < y
  cost : x + y + 1 = rounds + 2 * pairs.length

theorem backtrack_spec (h : Traced old new trace x y) :
    Backtracked old new trace.length x y (backtrack trace x y) := by
  induction trace generalizing x y with
  | nil =>
      obtain ⟨rfl, rfl⟩ := h
      exact ⟨by simp [backtrack], by simp [backtrack], by simp [backtrack], by simp [backtrack]⟩
  | cons frontier earlier ih =>
      obtain ⟨hx, horigin, horigin', htraced⟩ := h
      obtain ⟨hcount, hstartx, hstarty, hend, hcost⟩ := retreat_count x y frontier earlier.length hx
      have hearlier := ih htraced
      simp only [backtrack, retreat, hcount, Int.toNat_natCast]
      set previous := parent frontier earlier.length (x - y)
      set start := origin frontier earlier.length (x - y)
      set equal := run old new start (start - (x - y))
      have hpair : ∀ i < equal, ((x - 1 - i).toNat : Int) = start + (equal - 1 - i : Nat) ∧
          ((y - 1 - i).toNat : Int) = start - (x - y) + (equal - 1 - i : Nat) := by
        intro i hi
        omega
      refine ⟨fun pair hmem => ?_, ?_, fun pair hmem => ?_, ?_⟩
      · rcases List.mem_append.1 hmem with hmem | hmem
        · obtain ⟨i, hi, rfl⟩ := List.mem_map.1 hmem
          obtain ⟨hfst, hsnd⟩ := hpair i (List.mem_range.1 hi)
          obtain ⟨m, n, hm, hn, a, hold, hnew⟩ := match_of_lt_run old new horigin
            (show 0 ≤ start - (x - y) by omega)
            (show equal - 1 - i < equal by have := List.mem_range.1 hi; omega)
          obtain rfl : m = (x - 1 - i).toNat := by omega
          obtain rfl : n = (y - 1 - i).toNat := by omega
          exact ⟨a, hold, hnew⟩
        · exact hearlier.same pair hmem
      · refine List.pairwise_append.2 ⟨?_, hearlier.decreasing, fun p hp q hq => ?_⟩
        · refine List.pairwise_map.2 (List.pairwise_lt_range.imp_of_mem fun {i j} hi hj hlt => ?_)
          have hi := hpair i (List.mem_range.1 hi)
          have hj' := hpair j (List.mem_range.1 hj)
          have hj := List.mem_range.1 hj
          omega
        · obtain ⟨i, hi, rfl⟩ := List.mem_map.1 hp
          have hi := hpair i (List.mem_range.1 hi)
          have hq := hearlier.before q hq
          omega
      · rcases List.mem_append.1 hmem with hmem | hmem
        · obtain ⟨i, hi, rfl⟩ := List.mem_map.1 hmem
          have hpos := hpair i (List.mem_range.1 hi)
          have hi := List.mem_range.1 hi
          omega
        · have hbefore := hearlier.before pair hmem
          omega
      · have hbefore := hearlier.cost
        simp only [List.length_append, List.length_map, List.length_range, List.length_cons]
        push_cast
        omega

end Traces

/-! ### The ranges -/

section Ranges

variable {α : Type} {old new : List α} {offset a b m n back : Nat} {pairs : List (Nat × Nat)}

/-- Positions at which both lists agree, from `(a, b)` up to `(m, n)`. -/
structure Between (old new : List α) (offset a b m n : Nat) (pairs : List (Nat × Nat)) : Prop where
  same : ∀ pair ∈ pairs, ∃ e, old[offset + pair.1]? = some e ∧ new[offset + pair.2]? = some e
  increasing : pairs.Pairwise fun p q => p.1 < q.1 ∧ p.2 < q.2
  from_ : ∀ pair ∈ pairs, a ≤ pair.1 ∧ b ≤ pair.2
  upto : ∀ pair ∈ pairs, pair.1 < m ∧ pair.2 < n
  start : a ≤ m ∧ b ≤ n

theorem Between.tail {pair : Nat × Nat} (h : Between old new offset a b m n (pair :: pairs)) :
    Between old new offset (pair.1 + 1) (pair.2 + 1) m n pairs where
  same other hother := h.same other (List.mem_cons_of_mem _ hother)
  increasing := h.increasing.of_cons
  from_ other hother := by
    have hlt := List.rel_of_pairwise_cons h.increasing hother
    omega
  upto other hother := h.upto other (List.mem_cons_of_mem _ hother)
  start := by
    have hlt := h.upto pair List.mem_cons_self
    omega

/-- A pair of equal elements. -/
theorem Between.block {pair : Nat × Nat} (h : Between old new offset a b m n (pair :: pairs)) :
    Block old new (offset + pair.1) (offset + pair.2) 1 := by
  obtain ⟨e, hold, hnew⟩ := h.same pair List.mem_cons_self
  have hiold := (List.getElem?_eq_some_iff.1 hold).1
  have hinew := (List.getElem?_eq_some_iff.1 hnew).1
  refine ⟨hiold, hinew, fun i hi => ?_⟩
  obtain rfl : i = 0 := by omega
  exact hold.trans hnew.symm

/-- Outside of the ranges between equal elements, the lists are equal. -/
theorem rangesBetween_differs (h : Between old new offset a b m n pairs)
    (hback : Block old new (offset + m) (offset + n) back) (hold : offset + m + back = old.length)
    (hnew : offset + n + back = new.length) :
    Differs old new (offset + a) (offset + b) (rangesBetween offset a b (pairs ++ [(m, n)])) := by
  induction pairs generalizing a b with
  | nil =>
      have hstart := h.start
      have hrest : Differs old new (offset + m) (offset + n) [] := .done hback hold hnew
      simp only [List.nil_append, rangesBetween]
      split
      · refine .span (block_zero (by omega) (by omega)) rfl rfl (by simp; omega) (by simp; omega)
          (by simp; omega) (by simp; omega) hrest
      · obtain ⟨rfl, rfl⟩ : a = m ∧ b = n := by omega
        exact hrest
  | cons pair pairs ih =>
      obtain ⟨x, y⟩ := pair
      have hfrom : a ≤ x ∧ b ≤ y := h.from_ (x, y) List.mem_cons_self
      have hupto : x < m ∧ y < n := h.upto (x, y) List.mem_cons_self
      have hrest : Differs old new (offset + x) (offset + y)
          (rangesBetween offset (x + 1) (y + 1) (pairs ++ [(m, n)])) :=
        h.block.differs (ih h.tail)
      simp only [List.cons_append, rangesBetween]
      split
      · refine .span (block_zero (by omega) (by omega)) rfl rfl (by simp; omega) (by simp; omega)
          (by simp; omega) (by simp; omega) hrest
      · obtain ⟨rfl, rfl⟩ : a = x ∧ b = y := by omega
        exact hrest

theorem rangesBetween_cost (h : Between old new offset a b m n pairs) :
    ((rangesBetween offset a b (pairs ++ [(m, n)])).map Span.cost).sum + 2 * pairs.length =
      (m - a) + (n - b) := by
  induction pairs generalizing a b with
  | nil =>
      have hstart := h.start
      simp only [List.nil_append, rangesBetween]
      split
      · simp only [List.map_cons, List.map_nil, List.sum_cons, List.sum_nil, Span.cost, List.length_nil]
        omega
      · simp only [List.map_nil, List.sum_nil, List.length_nil]
        omega
  | cons pair pairs ih =>
      obtain ⟨x, y⟩ := pair
      have hfrom : a ≤ x ∧ b ≤ y := h.from_ (x, y) List.mem_cons_self
      have hupto : x < m ∧ y < n := h.upto (x, y) List.mem_cons_self
      have hrest : ((rangesBetween offset (x + 1) (y + 1) (pairs ++ [(m, n)])).map Span.cost).sum +
          2 * pairs.length = (m - (x + 1)) + (n - (y + 1)) := ih h.tail
      simp only [List.cons_append, rangesBetween, List.length_cons]
      split
      · simp only [List.map_cons, List.sum_cons, Span.cost]
        omega
      · omega

/-- One range ends before the next one begins, in both lists. -/
def Apart (s t : Span) : Prop := s.oldEnd < t.oldStart ∧ s.newEnd < t.newStart

theorem rangesBetween_apart (h : Between old new offset a b m n pairs) :
    (rangesBetween offset a b (pairs ++ [(m, n)])).Pairwise Apart ∧
      ∀ range ∈ rangesBetween offset a b (pairs ++ [(m, n)]),
        offset + a ≤ range.oldStart ∧ offset + b ≤ range.newStart := by
  induction pairs generalizing a b with
  | nil =>
      simp only [List.nil_append, rangesBetween]
      split <;> simp
  | cons pair pairs ih =>
      obtain ⟨x, y⟩ := pair
      have hfrom : a ≤ x ∧ b ≤ y := h.from_ (x, y) List.mem_cons_self
      obtain ⟨hapart, hafter⟩ := ih h.tail
      have hlater : ∀ range ∈ rangesBetween offset (x + 1) (y + 1) (pairs ++ [(m, n)]),
          offset + a ≤ range.oldStart ∧ offset + b ≤ range.newStart := by
        intro range hrange
        have hstart := hafter range hrange
        omega
      simp only [List.cons_append, rangesBetween]
      split
      · refine ⟨List.pairwise_cons.2 ⟨fun range hrange => ?_, hapart⟩, fun range hrange => ?_⟩
        · have hstart := hafter range hrange
          unfold Apart
          dsimp only
          omega
        · rcases List.mem_cons.1 hrange with rfl | hrange
          · exact ⟨le_rfl, le_rfl⟩
          · exact hlater range hrange
      · exact ⟨hapart, hlater⟩

end Ranges

section Trimmed

variable {α : Type} [DecidableEq α] {old new : List α}

theorem agreement_block (old new : List α) : Block old new 0 0 (agreement old new) where
  oldBound := by simpa using agreement_le_left old new
  newBound := by simpa using agreement_le_right old new
  same i hi := by
    obtain ⟨a, hold, hnew⟩ := getElem?_of_lt_agreement hi
    simp [hold, hnew]

/-- What the lists have in common at their ends. -/
theorem suffix_block (old new : List α) (front : Nat) :
    let back := agreement (old.drop front).reverse (new.drop front).reverse
    back ≤ old.length - front ∧ back ≤ new.length - front ∧
      Block old new (old.length - back) (new.length - back) back := by
  intro back
  have hold : back ≤ old.length - front := by
    simpa using agreement_le_left (old.drop front).reverse (new.drop front).reverse
  have hnew : back ≤ new.length - front := by
    simpa using agreement_le_right (old.drop front).reverse (new.drop front).reverse
  refine ⟨hold, hnew, by omega, by omega, fun i hi => ?_⟩
  have hlt : back - 1 - i < back := by omega
  obtain ⟨a, ha, ha'⟩ := getElem?_of_lt_agreement hlt
  have hread : ∀ l : List α, back ≤ l.length - front →
      (l.drop front).reverse[back - 1 - i]? = l[l.length - back + i]? := by
    intro l hl
    rw [List.getElem?_reverse (by rw [List.length_drop]; omega), List.getElem?_drop, List.length_drop]
    congr 1
    omega
  rw [hread old hold] at ha
  rw [hread new hnew] at ha'
  exact ha.trans ha'.symm

/-- What the ranges of a difference have to be. -/
structure Shortest (old new : List α) (found : List Span) : Prop where
  differs : Differs old new 0 0 found
  apart : found.Pairwise Apart
  least : ∀ common : List α, common.Sublist old → common.Sublist new →
    (found.map Span.cost).sum + 2 * common.length ≤ old.length + new.length

theorem search_between {trace : List (Int → Int)} {width rounds : Nat}
    (h : search old new width rounds [] ⟨fun _ => 0, 0⟩ = some trace) :
    let pairs := (backtrack trace.reverse old.length new.length).reverse
    Between old new 0 0 0 old.length new.length pairs ∧
      ∀ common : List α, common.Sublist old → common.Sublist new → common.length ≤ pairs.length := by
  intro pairs
  have hstart : Searching old new [] fun _ => 0 :=
    ⟨by simp, fun _ => rfl, by simp, by simp⟩
  obtain ⟨htraced, d, hlength, hshorter⟩ := search_spec hstart h
  have hpairs := backtrack_spec htraced
  have hmem : ∀ pair ∈ pairs, pair ∈ backtrack trace.reverse old.length new.length :=
    fun pair hpair => List.mem_reverse.1 hpair
  refine ⟨⟨fun pair hpair => ?_, List.pairwise_reverse.2 hpairs.decreasing, by simp,
    fun pair hpair => ?_, by simp⟩, fun common hold hnew => ?_⟩
  · simpa using hpairs.same pair (hmem pair hpair)
  · have hbefore := hpairs.before pair (hmem pair hpair)
    omega
  · obtain ⟨d', hpath, hcost⟩ := reaches_of_sublist hold hnew
    have hle : d ≤ d' := by
      by_contra hlt
      exact hshorter d' (by omega) hpath
    have hrounds := hpairs.cost
    simp only [List.length_reverse, hlength] at hrounds
    have hcount : pairs.length = (backtrack trace.reverse old.length new.length).length :=
      List.length_reverse
    push_cast at hrounds
    omega

theorem ranges_spec {found : List Span} (h : ranges old new = some found) :
    Shortest old new found := by
  have hfront := agreement_block old new
  obtain ⟨hbackold, hbacknew, hback⟩ := suffix_block old new (agreement old new)
  have hfrontold := agreement_le_left old new
  have hfrontnew := agreement_le_right old new
  simp only [ranges] at h
  set front := agreement old new
  set back := agreement (old.drop front).reverse (new.drop front).reverse
  -- The inner lists, and the bound on their common sublists that makes the cost least.
  have hleast : ∀ count : Nat, (found.map Span.cost).sum + 2 * count =
        (old.length - back - front) + (new.length - back - front) →
      (∀ inner : List α, inner.Sublist (slice old front (old.length - back)) →
        inner.Sublist (slice new front (new.length - back)) → inner.length ≤ count) →
      ∀ common : List α, common.Sublist old → common.Sublist new →
        (found.map Span.cost).sum + 2 * common.length ≤ old.length + new.length := by
    intro count hcost hinner common hold hnew
    obtain ⟨inner, hsubold, hsubnew, hlength⟩ :=
      exists_sublist_slice hold hnew
    have hle := hinner inner hsubold hsubnew
    omega
  have hslice : ∀ l : List α, (slice l front (l.length - back)).length = l.length - back - front := by
    intro l
    rw [slice, List.length_take, List.length_drop]
    omega
  split at h
  · rename_i hempty
    cases h
    refine ⟨?_, by simp, hleast 0 (by simp [Span.cost]) fun inner hsubold hsubnew => ?_⟩
    · refine .span hfront (by simp) (by simp) (by simp; omega) (by simp; omega)
        (by simp) (by simp) (.done hback (by simp; omega) (by simp; omega))
    · have hold := hsubold.length_le
      have hnew := hsubnew.length_le
      rw [hslice] at hold hnew
      omega
  · simp only [changes, Option.map_eq_some_iff] at h
    obtain ⟨trace, htrace, rfl⟩ := h
    obtain ⟨hbetween, hmost⟩ := search_between htrace
    rw [hslice old, hslice new] at hbetween hmost
    unfold reconstruct at hleast ⊢
    rw [hslice old, hslice new] at hleast ⊢
    set pairs := (backtrack trace.reverse (old.length - back - front : Nat)
      (new.length - back - front : Nat)).reverse
    have hshifted : Between old new front 0 0 (old.length - back - front) (new.length - back - front)
        pairs := by
      refine { hbetween with same := fun pair hpair => ?_ }
      obtain ⟨e, hold, hnew⟩ := hbetween.same pair hpair
      rw [Nat.zero_add] at hold hnew
      exact ⟨e, getElem?_slice hold, getElem?_slice hnew⟩
    have hend : Block old new (front + (old.length - back - front))
        (front + (new.length - back - front)) back := by
      rwa [show front + (old.length - back - front) = old.length - back by omega,
        show front + (new.length - back - front) = new.length - back by omega]
    have hdiffers := rangesBetween_differs hshifted hend (by omega) (by omega)
    refine ⟨?_, (rangesBetween_apart hshifted).1, hleast pairs.length ?_ hmost⟩
    · exact hfront.differs (by simpa using hdiffers)
    · simpa using rangesBetween_cost hshifted

end Trimmed

end Diff

end AgentKnowledge
