import Mathlib

/-!
The edit graph of two lists.

A point `(x, y)` stands for the first `x` elements of the old list and the first `y` of
the new one. A path deletes, inserts, or keeps an element both lists have; `Reaches d x y`
says that some path with `d` deletions and insertions ends there. Paths may leave the
lists on either side, as the paths of a furthest-reaching search do.

* `reaches_of_sublist`: a common sublist gives a path, so `d` is at least the edit
  distance once the end is reached.
* `Reaches.clip`: a path that leaves the lists has come past their end two edits earlier.
* `Furthest.next`: the recurrence of Myers' greedy search. On every diagonal, the better
  of the two neighbours of the last round, followed along equal elements, is furthest.
-/

namespace EditGraph

variable {α : Type}

/-- How far two lists agree. -/
def agreement [DecidableEq α] : List α → List α → Nat
  | a :: old, b :: new => if a = b then agreement old new + 1 else 0
  | _, _ => 0

/-- Both lists have an element at this point, and it is the same. -/
def Match (old new : List α) (x y : Int) : Prop :=
  ∃ i j : Nat, x = i ∧ y = j ∧ ∃ a, old[i]? = some a ∧ new[j]? = some a

/-- A path with `d` deletions and insertions ends at `(x, y)`. -/
inductive Reaches (old new : List α) : Nat → Int → Int → Prop
  | start : Reaches old new 0 0 0
  | delete {d x y} : Reaches old new d x y → Reaches old new (d + 1) (x + 1) y
  | insert {d x y} : Reaches old new d x y → Reaches old new (d + 1) x (y + 1)
  | keep {d x y} : Reaches old new d x y → Match old new x y → Reaches old new d (x + 1) (y + 1)

/-- The diagonals the paths with `d` edits end on. -/
def OnDiagonal (d : Nat) (k : Int) : Prop := -(d : Int) ≤ k ∧ k ≤ d ∧ (k + d) % 2 = 0

section Agreement

variable [DecidableEq α] {old new : List α}

theorem agreement_le_left (old new : List α) : agreement old new ≤ old.length := by
  induction old, new using agreement.induct with
  | case1 a old new ih => simpa [agreement] using ih
  | case2 a old b new hne => simp [agreement, hne]
  | case3 old new h => simp [agreement]

theorem agreement_le_right (old new : List α) : agreement old new ≤ new.length := by
  induction old, new using agreement.induct with
  | case1 a old new ih => simpa [agreement] using ih
  | case2 a old b new hne => simp [agreement, hne]
  | case3 old new h => simp [agreement]

theorem take_agreement (old new : List α) :
    old.take (agreement old new) = new.take (agreement old new) := by
  induction old, new using agreement.induct with
  | case1 a old new ih => simpa [agreement] using ih
  | case2 a old b new hne => simp [agreement, hne]
  | case3 old new h => simp [agreement]

/-- Two lists agree up to their agreement. -/
theorem getElem?_of_lt_agreement {i : Nat} (h : i < agreement old new) :
    ∃ a, old[i]? = some a ∧ new[i]? = some a := by
  have hold : i < old.length := h.trans_le (agreement_le_left old new)
  refine ⟨old[i], List.getElem?_eq_getElem hold, ?_⟩
  have htake := congrArg (·[i]?) (take_agreement old new)
  simp only [List.getElem?_take, h, if_true] at htake
  rw [← htake, List.getElem?_eq_getElem hold]

/-- They do not agree there. -/
theorem getElem?_agreement {a : α} (hold : old[agreement old new]? = some a) :
    new[agreement old new]? ≠ some a := by
  induction old, new using agreement.induct with
  | case1 b old new ih =>
      simp only [agreement, if_true, List.getElem?_cons_succ] at hold ⊢
      exact ih hold
  | case2 b old c new hne =>
      simp only [agreement, hne, if_false, List.getElem?_cons_zero, Option.some.injEq] at hold ⊢
      subst hold
      exact fun h => hne (Option.some.inj h).symm
  | case3 old new h =>
      cases old with
      | nil => simp at hold
      | cons b old =>
          cases new with
          | nil => simp
          | cons c new => exact absurd rfl (h b old c new rfl)

end Agreement

section Paths

variable {old new : List α} {d : Nat} {x y : Int}

theorem Reaches.nonneg (h : Reaches old new d x y) : 0 ≤ x ∧ 0 ≤ y := by
  induction h with
  | start => simp
  | delete _ ih => omega
  | insert _ ih => omega
  | keep _ _ ih => omega

theorem Reaches.onDiagonal (h : Reaches old new d x y) : OnDiagonal d (x - y) := by
  unfold OnDiagonal
  induction h with
  | start => simp
  | delete _ ih => push_cast; omega
  | insert _ ih => push_cast; omega
  | keep _ _ ih => omega

/-- A path that has left the lists was within them with as many edits less as it is
outside. -/
theorem Reaches.clip (h : Reaches old new d x y) :
    ∃ d', Reaches old new d' (min x old.length) (min y new.length) ∧
      d' + (x - old.length).toNat + (y - new.length).toNat ≤ d := by
  induction h with
  | start =>
      refine ⟨0, ?_, by simp⟩
      rw [min_eq_left (Int.natCast_nonneg _), min_eq_left (Int.natCast_nonneg _)]
      exact .start
  | @delete d x y _ ih =>
      obtain ⟨d', hpath, hcost⟩ := ih
      by_cases hx : x < old.length
      · refine ⟨d' + 1, ?_, by omega⟩
        rw [min_eq_left (by omega : x + 1 ≤ old.length)]
        rw [min_eq_left hx.le] at hpath
        exact hpath.delete
      · refine ⟨d', ?_, by omega⟩
        rw [min_eq_right (by omega : (old.length : Int) ≤ x + 1)]
        rwa [min_eq_right (by omega : (old.length : Int) ≤ x)] at hpath
  | @insert d x y _ ih =>
      obtain ⟨d', hpath, hcost⟩ := ih
      by_cases hy : y < new.length
      · refine ⟨d' + 1, ?_, by omega⟩
        rw [min_eq_left (by omega : y + 1 ≤ new.length)]
        rw [min_eq_left hy.le] at hpath
        exact hpath.insert
      · refine ⟨d', ?_, by omega⟩
        rw [min_eq_right (by omega : (new.length : Int) ≤ y + 1)]
        rwa [min_eq_right (by omega : (new.length : Int) ≤ y)] at hpath
  | @keep d x y _ hmatch ih =>
      obtain ⟨d', hpath, hcost⟩ := ih
      have hin : x + 1 ≤ old.length ∧ y + 1 ≤ new.length := by
        obtain ⟨i, j, rfl, rfl, a, hi, hj⟩ := hmatch
        have hiold := (List.getElem?_eq_some_iff.1 hi).1
        have hjnew := (List.getElem?_eq_some_iff.1 hj).1
        omega
      refine ⟨d', ?_, by omega⟩
      rw [min_eq_left hin.1, min_eq_left hin.2]
      rw [min_eq_left (by omega), min_eq_left (by omega)] at hpath
      exact hpath.keep hmatch

/-- A path beyond the end has come past it before. -/
theorem Reaches.earlier (h : Reaches old new d x y) (hx : (old.length : Int) < x)
    (hy : (new.length : Int) < y) : ∃ d' < d, Reaches old new d' old.length new.length := by
  obtain ⟨d', hpath, hcost⟩ := h.clip
  rw [min_eq_right hx.le, min_eq_right hy.le] at hpath
  exact ⟨d', by omega, hpath⟩

/-- A path follows equal elements without further edits. -/
theorem Reaches.follow (h : Reaches old new d x y) {count : Nat}
    (hmatch : ∀ i : Nat, i < count → Match old new (x + i) (y + i)) :
    Reaches old new d (x + count) (y + count) := by
  induction count with
  | zero => simpa using h
  | succ count ih =>
      have hnext := (ih fun i hi => hmatch i (by omega)).keep (hmatch count (Nat.lt_succ_self _))
      push_cast
      rw [← Int.add_assoc, ← Int.add_assoc]
      exact hnext

theorem sublist_concat_cases {c l : List α} {a : α} (h : c.Sublist (l ++ [a])) :
    c.Sublist l ∨ ∃ front, c = front ++ [a] ∧ front.Sublist l := by
  obtain ⟨front, back, rfl, hfront, hback⟩ := List.sublist_append_iff.1 h
  rcases List.sublist_singleton.1 hback with rfl | rfl
  · exact .inl (by simpa using hfront)
  · exact .inr ⟨front, rfl, hfront⟩

/-- A common sublist of the first elements gives a path. -/
theorem reaches_of_sublist_take {c : List α} {i j : Nat} (hi : i ≤ old.length) (hj : j ≤ new.length)
    (hold : c.Sublist (old.take i)) (hnew : c.Sublist (new.take j)) :
    ∃ d, Reaches old new d i j ∧ d + 2 * c.length = i + j := by
  induction hsum : i + j using Nat.strong_induction_on generalizing i j c with
  | _ total ih =>
    -- The last step of the path: a deletion, an insertion, or the last common element.
    have hdelete : ∀ i', i = i' + 1 → c.Sublist (old.take i') →
        ∃ d, Reaches old new d i j ∧ d + 2 * c.length = i + j := by
      rintro i' rfl hsub
      obtain ⟨d, hpath, hcost⟩ := ih (i' + j) (by omega) (by omega) hj hsub hnew rfl
      exact ⟨d + 1, by push_cast; exact hpath.delete, by omega⟩
    have hinsert : ∀ j', j = j' + 1 → c.Sublist (new.take j') →
        ∃ d, Reaches old new d i j ∧ d + 2 * c.length = i + j := by
      rintro j' rfl hsub
      obtain ⟨d, hpath, hcost⟩ := ih (i + j') (by omega) hi (by omega) hold hsub rfl
      exact ⟨d + 1, by push_cast; exact hpath.insert, by omega⟩
    rw [← hsum]
    cases i with
    | zero =>
        have hnil : c = [] := by simpa using hold
        subst hnil
        cases j with
        | zero => exact ⟨0, .start, rfl⟩
        | succ j => exact hinsert j rfl (List.nil_sublist _)
    | succ i =>
        rw [List.take_add_one, List.getElem?_eq_getElem hi] at hold
        rcases sublist_concat_cases hold with hsub | ⟨front, rfl, hfront⟩
        · exact hdelete i rfl hsub
        · cases j with
          | zero => simp at hnew
          | succ j =>
              rw [List.take_add_one, List.getElem?_eq_getElem hj] at hnew
              rcases sublist_concat_cases hnew with hsub | ⟨front', heq, hfront'⟩
              · exact hinsert j rfl hsub
              · obtain ⟨rfl, helem⟩ := List.append_inj' heq rfl
                obtain ⟨d, hpath, hcost⟩ :=
                  ih (i + j) (by omega) (by omega) (by omega) hfront hfront' rfl
                refine ⟨d, ?_, by simp only [List.length_append, List.length_singleton]; omega⟩
                push_cast
                refine hpath.keep ⟨i, j, rfl, rfl, _, List.getElem?_eq_getElem hi, ?_⟩
                rw [List.getElem?_eq_getElem hj]
                exact congrArg some (List.singleton_inj.1 helem).symm

theorem reaches_of_sublist {c : List α} (hold : c.Sublist old) (hnew : c.Sublist new) :
    ∃ d, Reaches old new d old.length new.length ∧ d + 2 * c.length = old.length + new.length :=
  reaches_of_sublist_take le_rfl le_rfl (by simpa using hold) (by simpa using hnew)

end Paths

/-! ### Furthest points -/

/-- On each diagonal of round `d` the frontier is the furthest point of a path. -/
structure Furthest (old new : List α) (d : Nat) (frontier : Int → Int) : Prop where
  reaches : ∀ k, OnDiagonal d k → Reaches old new d (frontier k) (frontier k - k)
  furthest : ∀ x y, Reaches old new d x y → x ≤ frontier (x - y)

section Origins

variable {old new : List α} {d : Nat} {k : Int} {frontier : Int → Int}

/-- Whether round `d` comes to diagonal `k` by an insertion. -/
def inserts (frontier : Int → Int) (d : Nat) (k : Int) : Bool :=
  k = -(d : Int) || (k ≠ d && frontier (k - 1) < frontier (k + 1))

/-- The diagonal of the last round from which round `d` comes to diagonal `k`. -/
def parent (frontier : Int → Int) (d : Nat) (k : Int) : Int :=
  if inserts frontier d k then k + 1 else k - 1

/-- The point round `d` comes to, before it follows equal elements. -/
def origin (frontier : Int → Int) (d : Nat) (k : Int) : Int :=
  if inserts frontier d k then frontier (k + 1) else frontier (k - 1) + 1

theorem parent_onDiagonal (frontier : Int → Int) (hk : OnDiagonal (d + 1) k) :
    OnDiagonal d (parent frontier (d + 1) k) := by
  unfold OnDiagonal at hk ⊢
  unfold parent
  push_cast at hk
  by_cases hfirst : k = -((d : Int) + 1)
  · have hinserts : inserts frontier (d + 1) k := by simp [inserts, hfirst]
    rw [if_pos hinserts]
    omega
  · by_cases hlast : k = (d : Int) + 1
    · have hdeletes : inserts frontier (d + 1) k = false := by
        have hne : ¬ k = -((d : Int) + 1) := hfirst
        simp [inserts, hlast]
        omega
      rw [hdeletes, if_neg (by simp)]
      omega
    · split <;> omega

/-- One round's step: from the parent by a deletion or an insertion. -/
theorem origin_cases (frontier : Int → Int) (d : Nat) (k : Int) :
    (parent frontier d k = k + 1 ∧ origin frontier d k = frontier (parent frontier d k)) ∨
      (parent frontier d k = k - 1 ∧ origin frontier d k = frontier (parent frontier d k) + 1) := by
  unfold parent origin
  split
  · exact .inl ⟨rfl, rfl⟩
  · exact .inr ⟨rfl, rfl⟩

theorem Furthest.origin_reaches (h : Furthest old new d frontier) (hk : OnDiagonal (d + 1) k) :
    Reaches old new (d + 1) (origin frontier (d + 1) k) (origin frontier (d + 1) k - k) := by
  have hparent := h.reaches _ (parent_onDiagonal frontier hk)
  rcases origin_cases frontier (d + 1) k with ⟨hbelow, horigin⟩ | ⟨hbelow, horigin⟩
  · rw [horigin]
    have hy : frontier (parent frontier (d + 1) k) - k =
        frontier (parent frontier (d + 1) k) - parent frontier (d + 1) k + 1 := by omega
    rw [hy]
    exact hparent.insert
  · rw [horigin]
    have hy : frontier (parent frontier (d + 1) k) + 1 - k =
        frontier (parent frontier (d + 1) k) - parent frontier (d + 1) k := by omega
    rw [hy]
    exact hparent.delete

theorem le_origin_of_insert (frontier : Int → Int) (hk : OnDiagonal d (k + 1)) :
    frontier (k + 1) ≤ origin frontier (d + 1) k := by
  unfold OnDiagonal at hk
  unfold origin
  split
  · exact le_rfl
  · rename_i hdeletes
    simp only [inserts, Bool.or_eq_true, decide_eq_true_eq, Bool.and_eq_true, not_or, not_and,
      not_lt] at hdeletes
    have hle := hdeletes.2 (by simp; omega)
    omega

theorem le_origin_of_delete (frontier : Int → Int) (hk : OnDiagonal d (k - 1)) :
    frontier (k - 1) + 1 ≤ origin frontier (d + 1) k := by
  unfold OnDiagonal at hk
  unfold origin
  split
  · rename_i hinserts
    simp only [inserts, Bool.or_eq_true, decide_eq_true_eq, Bool.and_eq_true] at hinserts
    rcases hinserts with hfirst | ⟨-, hlt⟩
    · push_cast at hfirst
      omega
    · omega
  · exact le_rfl

/-- If the furthest point on the last diagonal is not the end, no path of this round
leads there, unless one of an earlier round did. -/
theorem Furthest.not_reaches (h : Furthest old new d frontier)
    (hne : frontier (old.length - new.length) ≠ old.length)
    (hearlier : ∀ d' < d, ¬ Reaches old new d' old.length new.length) :
    ¬ Reaches old new d old.length new.length := by
  intro hend
  have hle := h.furthest _ _ hend
  have hbeyond := h.reaches _ hend.onDiagonal
  obtain ⟨d', hd', hpath⟩ := hbeyond.earlier (by omega) (by omega)
  exact hearlier d' hd' hpath

end Origins

section Furthest

variable [DecidableEq α] {old new : List α} {d : Nat} {x y k : Int} {frontier frontier' : Int → Int}

/-- How many equal elements follow a point. -/
def run (old new : List α) (x y : Int) : Nat := agreement (old.drop x.toNat) (new.drop y.toNat)

/-- Where round `d` ends on diagonal `k`. -/
def advance (old new : List α) (frontier : Int → Int) (d : Nat) (k : Int) : Int :=
  origin frontier d k + run old new (origin frontier d k) (origin frontier d k - k)

theorem match_of_lt_run (old new : List α) (hx : 0 ≤ x) (hy : 0 ≤ y) {i : Nat} (h : i < run old new x y) :
    Match old new (x + i) (y + i) := by
  obtain ⟨a, hold, hnew⟩ := getElem?_of_lt_agreement h
  rw [List.getElem?_drop] at hold hnew
  exact ⟨x.toNat + i, y.toNat + i, by omega, by omega, a, hold, hnew⟩

/-- The equal elements end there. -/
theorem not_match_run (old new : List α) (hx : 0 ≤ x) (hy : 0 ≤ y) :
    ¬ Match old new (x + run old new x y) (y + run old new x y) := by
  rintro ⟨i, j, hi, hj, a, hold, hnew⟩
  obtain rfl : i = x.toNat + run old new x y := by omega
  obtain rfl : j = y.toNat + run old new x y := by omega
  rw [← List.getElem?_drop] at hold hnew
  exact getElem?_agreement hold hnew

/-- A point follows its origin along equal elements. -/
theorem Reaches.advance_reaches (h : Reaches old new d (origin frontier d k) (origin frontier d k - k)) :
    Reaches old new d (advance old new frontier d k) (advance old new frontier d k - k) := by
  have hnonneg := h.nonneg
  have hfollow := h.follow fun i hi => match_of_lt_run old new hnonneg.1 hnonneg.2 hi
  have hy : advance old new frontier d k - k =
      origin frontier d k - k + run old new (origin frontier d k) (origin frontier d k - k) := by
    unfold advance
    omega
  rw [hy]
  exact hfollow

/-- Points that start furthest end furthest. -/
theorem Furthest.of_origins (frontier : Int → Int)
    (hstart : ∀ k, OnDiagonal d k → Reaches old new d (origin frontier d k) (origin frontier d k - k))
    (hmoves : ∀ k, OnDiagonal d k → frontier' k = advance old new frontier d k)
    (hzero : d = 0 → 0 ≤ origin frontier d 0)
    (hdelete : ∀ d' x y, d = d' + 1 → Reaches old new d' x y →
      x + 1 ≤ origin frontier d (x + 1 - y))
    (hinsert : ∀ d' x y, d = d' + 1 → Reaches old new d' x y →
      x ≤ origin frontier d (x - (y + 1))) :
    Furthest old new d frontier' := by
  have horigin : ∀ k, OnDiagonal d k → origin frontier d k ≤ frontier' k := by
    intro k hk
    rw [hmoves k hk, advance]
    omega
  refine ⟨fun k hk => ?_, fun x y hpath => ?_⟩
  · rw [hmoves k hk]
    exact (hstart k hk).advance_reaches
  · -- On the path: its last edit leads to a point that is no further than the origin, and
    -- from there the frontier stops only where no equal elements follow.
    induction hpath with
    | start => exact (hzero rfl).trans (horigin 0 (by simp [OnDiagonal]))
    | @delete d' x y hpath =>
        exact (hdelete d' x y rfl hpath).trans (horigin _ hpath.delete.onDiagonal)
    | @insert d' x y hpath =>
        exact (hinsert d' x y rfl hpath).trans (horigin _ hpath.insert.onDiagonal)
    | @keep d x y hpath hmatch ih =>
        have hle := ih hstart hmoves hzero hdelete hinsert horigin
        have hk := hpath.onDiagonal
        have hdiagonal : x + 1 - (y + 1) = x - y := by omega
        rw [hdiagonal]
        rcases hle.lt_or_eq with hlt | heq
        · exact hlt
        · have hnonneg := (hstart _ hk).nonneg
          have hstop := not_match_run old new hnonneg.1 hnonneg.2
          have hx : x = origin frontier d (x - y) + run old new (origin frontier d (x - y))
              (origin frontier d (x - y) - (x - y)) := heq.trans (hmoves _ hk)
          rw [← hx] at hstop
          have hy : origin frontier d (x - y) - (x - y) + run old new (origin frontier d (x - y))
              (origin frontier d (x - y) - (x - y)) = y := by omega
          rw [hy] at hstop
          exact absurd hmatch hstop

theorem furthest_zero (h : frontier' 0 = advance old new (fun _ => 0) 0 0) :
    Furthest old new 0 frontier' := by
  have horigin : ∀ k, OnDiagonal 0 k → k = 0 ∧ origin (fun _ => 0) 0 k = 0 := by
    intro k hk
    unfold OnDiagonal at hk
    obtain rfl : k = 0 := by omega
    exact ⟨rfl, rfl⟩
  refine .of_origins (fun _ => 0) (fun k hk => ?_) (fun k hk => ?_) (fun _ => le_rfl)
    (by rintro d' x y ⟨⟩) (by rintro d' x y ⟨⟩)
  · obtain ⟨rfl, hzero⟩ := horigin k hk
    rw [hzero]
    exact .start
  · obtain ⟨rfl, -⟩ := horigin k hk
    exact h

/-- Myers' recurrence. -/
theorem Furthest.next (h : Furthest old new d frontier)
    (hmoves : ∀ k, OnDiagonal (d + 1) k → frontier' k = advance old new frontier (d + 1) k) :
    Furthest old new (d + 1) frontier' := by
  refine .of_origins frontier (fun k hk => h.origin_reaches hk) hmoves (by rintro ⟨⟩) ?_ ?_
  · rintro d' x y ⟨⟩ hpath
    have hk : OnDiagonal d (x + 1 - y - 1) := by
      have hdiagonal := hpath.onDiagonal
      rwa [show x + 1 - y - 1 = x - y by omega]
    have hle := h.furthest x y hpath
    have horigin := le_origin_of_delete frontier hk
    rw [show x + 1 - y - 1 = x - y by omega] at horigin
    omega
  · rintro d' x y ⟨⟩ hpath
    have hk : OnDiagonal d (x - (y + 1) + 1) := by
      have hdiagonal := hpath.onDiagonal
      rwa [show x - (y + 1) + 1 = x - y by omega]
    have hle := h.furthest x y hpath
    have horigin := le_origin_of_insert frontier hk
    rw [show x - (y + 1) + 1 = x - y by omega] at horigin
    exact hle.trans horigin

/-- A round depends on the two neighbours only. -/
theorem advance_congr (hbelow : frontier (k - 1) = frontier' (k - 1))
    (habove : frontier (k + 1) = frontier' (k + 1)) :
    advance old new frontier d k = advance old new frontier' d k := by
  unfold advance origin inserts
  rw [hbelow, habove]

end Furthest

end EditGraph
