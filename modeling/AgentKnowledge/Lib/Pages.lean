import AgentKnowledge.Lib.Results

/-!
Reading a list in pages.

A page function answers a cursor with some items and the cursor of the next page. A cursor
is the element the next page starts at. `follow_exact` is the rule: if every page covers a
nonempty stretch from its cursor and names the element after it, then following the cursors
gives each element once, in order, in at most as many pages as there are elements.
-/

namespace Pages

open Results

variable {ε κ α : Type}

/-- Follow the cursors for at most so many pages; nothing if the last page was not reached. -/
def follow (page : Option κ → Except ε (List α × Option κ)) :
    Nat → Option κ → Except ε (Option (List α))
  | 0, _ => pure none
  | fuel + 1, cursor => do
      let (items, next) ← page cursor
      match next with
      | none => pure (some items)
      | some next => do
          let rest ← follow page fuel (some next)
          pure (rest.map fun more => items ++ more)

/-- The part of a list that is left at a cursor. Without a cursor it is the whole list. -/
structure LeftAt (source : List κ) (cursor : Option κ) (left : List κ) : Prop where
  suffix : left <:+ source
  nonempty : left ≠ []
  start : cursor = none ∧ left = source ∨ cursor = left.head?

/-- A page at a cursor, or an error of an expected kind. -/
def Serves (page : Option κ → Except ε (List α × Option κ)) (source : List κ)
    (output : κ → Option α) (expected : ε → Prop) : Prop :=
  ∀ cursor left, LeftAt source cursor left →
    (∃ e, expected e ∧ page cursor = .error e) ∨
      ∃ count, 0 < count ∧
        page cursor = .ok ((left.take count).filterMap output, (left.drop count).head?)

theorem follow_from {page : Option κ → Except ε (List α × Option κ)} {source : List κ}
    {output : κ → Option α} {expected : ε → Prop} (hserves : Serves page source output expected)
    {fuel : Nat} {cursor : Option κ} {left : List κ} (hleft : LeftAt source cursor left)
    (hfuel : left.length ≤ fuel) :
    (∃ e, expected e ∧ follow page fuel cursor = .error e) ∨
      follow page fuel cursor = .ok (some (left.filterMap output)) := by
  induction fuel generalizing cursor left with
  | zero => exact absurd (List.length_eq_zero_iff.1 (Nat.le_zero.1 hfuel)) hleft.nonempty
  | succ fuel ih =>
      rcases hserves cursor left hleft with ⟨e, he, hpage⟩ | ⟨count, hcount, hpage⟩
      · exact .inl ⟨e, he, by simp [follow, hpage]⟩
      have hsplit := List.take_append_drop count left
      cases hnext : (left.drop count).head? with
      | none =>
          have hdone : left.drop count = [] := List.head?_eq_none_iff.1 hnext
          rw [hdone, List.append_nil] at hsplit
          exact .inr (by simp [follow, hpage, hnext, hsplit])
      | some next =>
          have hrest : LeftAt source (some next) (left.drop count) :=
            ⟨(List.drop_suffix count left).trans hleft.suffix,
              fun hnil => by simp [hnil] at hnext, .inr hnext.symm⟩
          have hshort : (left.drop count).length ≤ fuel := by
            rw [List.length_drop]
            omega
          rcases ih hrest hshort with ⟨e, he, hfollow⟩ | hfollow
          · exact .inl ⟨e, he, by simp [follow, hpage, hnext, hfollow]⟩
          · refine .inr ?_
            simp only [follow, hpage, hnext, hfollow, ok_bind, pure_eq_ok, Option.map_some]
            rw [← List.filterMap_append, hsplit]

/-- Following the cursors from the start gives every item once and in order. -/
theorem follow_exact {page : Option κ → Except ε (List α × Option κ)} {source : List κ}
    {output : κ → Option α} {expected : ε → Prop} (hserves : Serves page source output expected)
    (hsource : source ≠ []) {fuel : Nat} (hfuel : source.length ≤ fuel) :
    (∃ e, expected e ∧ follow page fuel none = .error e) ∨
      follow page fuel none = .ok (some (source.filterMap output)) :=
  follow_from hserves ⟨List.suffix_rfl, hsource, .inl ⟨rfl, rfl⟩⟩ hfuel

end Pages
