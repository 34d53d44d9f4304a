import Mathlib

/-!
Versions written by compare and swap.

Each version of a value names the version it replaces (`expected`) and carries a
time stamp. `Linked last versions` says that the versions follow one another from
`last` on: every one expects the key of the one before and has a later stamp. If a
key determines the stamp, keys never come back (`Linked.nodup_keys`), and so no key
is expected twice (`Linked.count_expected_le_one`): there is no lost update and no
ABA.
-/

namespace Lineage

variable {κ τ β : Type}

structure Version (κ τ β : Type) where
  key : κ
  stamp : τ
  content : β
  expected : Option κ

/-- The versions follow one another, starting after `last`. -/
def Linked [LT τ] : Option (Version κ τ β) → List (Version κ τ β) → Prop
  | _, [] => True
  | none, v :: rest => v.expected = none ∧ Linked (some v) rest
  | some u, v :: rest => v.expected = some u.key ∧ u.stamp < v.stamp ∧ Linked (some v) rest

/-- The newest version after some more. -/
def newest (last : Option (Version κ τ β)) (versions : List (Version κ τ β)) :
    Option (Version κ τ β) :=
  versions.getLast?.or last

@[simp] theorem newest_nil (last : Option (Version κ τ β)) : newest last [] = last := rfl

theorem newest_cons (last : Option (Version κ τ β)) (v : Version κ τ β)
    (rest : List (Version κ τ β)) : newest last (v :: rest) = newest (some v) rest := by
  cases h : rest.getLast? with
  | none =>
      rw [List.getLast?_eq_none_iff] at h
      subst h
      rfl
  | some w => simp [newest, List.getLast?_cons, h]

theorem newest_append (last : Option (Version κ τ β)) (versions more : List (Version κ τ β)) :
    newest last (versions ++ more) = newest (newest last versions) more := by
  induction versions generalizing last with
  | nil => rfl
  | cons v rest ih => rw [List.cons_append, newest_cons, newest_cons, ih]

section Linked

variable [LT τ]

theorem linked_append {last : Option (Version κ τ β)} {versions more : List (Version κ τ β)} :
    Linked last (versions ++ more) ↔
      Linked last versions ∧ Linked (newest last versions) more := by
  induction versions generalizing last with
  | nil => cases last <;> simp [Linked]
  | cons v rest ih =>
      rw [newest_cons]
      cases last with
      | none => simp [Linked, ih, and_assoc]
      | some u => simp [Linked, ih, and_assoc]

theorem linked_singleton {last : Option (Version κ τ β)} {v : Version κ τ β}
    (hexpected : v.expected = last.map Version.key) (hstamp : ∀ u ∈ last, u.stamp < v.stamp) :
    Linked last [v] := by
  cases last with
  | none => exact ⟨hexpected, trivial⟩
  | some u => exact ⟨hexpected, hstamp u rfl, trivial⟩

end Linked

section Order

variable [Preorder τ]

theorem Linked.stamp_lt {u : Version κ τ β} {versions : List (Version κ τ β)}
    (h : Linked (some u) versions) : ∀ v ∈ versions, u.stamp < v.stamp := by
  induction versions generalizing u with
  | nil => simp
  | cons v rest ih =>
      obtain ⟨-, hlt, hrest⟩ := h
      intro w hw
      rcases List.mem_cons.1 hw with rfl | hw
      · exact hlt
      · exact hlt.trans (ih hrest w hw)

/-- Stamps strictly increase. -/
theorem Linked.pairwise_stamp {last : Option (Version κ τ β)} {versions : List (Version κ τ β)}
    (h : Linked last versions) : versions.Pairwise fun u v => u.stamp < v.stamp := by
  induction versions generalizing last with
  | nil => exact List.Pairwise.nil
  | cons v rest ih =>
      have hrest : Linked (some v) rest := by
        cases last with
        | none => exact h.2
        | some u => exact h.2.2
      exact List.Pairwise.cons hrest.stamp_lt (ih hrest)

/-- Keys never come back, if a key tells its stamp. -/
theorem Linked.nodup_keys {last : Option (Version κ τ β)} {versions : List (Version κ τ β)}
    (h : Linked last versions)
    (hkey : ∀ u ∈ versions, ∀ v ∈ versions, u.key = v.key → u.stamp = v.stamp) :
    (versions.map Version.key).Nodup := by
  refine List.pairwise_map.2 (h.pairwise_stamp.imp_of_mem ?_)
  intro u v hu hv hlt heq
  exact absurd (hkey u hu v hv heq) hlt.ne

/-- What is expected after the first version is the key of the version before. -/
theorem Linked.expected_eq {u : Version κ τ β} {versions : List (Version κ τ β)}
    (h : Linked (some u) versions) :
    versions.map Version.expected = ((u :: versions).map fun v => some v.key).dropLast := by
  induction versions generalizing u with
  | nil => rfl
  | cons v rest ih =>
      obtain ⟨hexpected, -, hrest⟩ := h
      rw [List.map_cons, hexpected, ih hrest]
      rfl

/-- No key is expected twice. -/
theorem Linked.count_expected_le_one [DecidableEq κ] {versions : List (Version κ τ β)}
    (h : Linked none versions)
    (hkey : ∀ u ∈ versions, ∀ v ∈ versions, u.key = v.key → u.stamp = v.stamp) (key : κ) :
    (versions.map Version.expected).count (some key) ≤ 1 := by
  cases versions with
  | nil => simp
  | cons v rest =>
      have hnodup : ((v :: rest).map fun w => some w.key).Nodup := by
        have := (h.nodup_keys hkey).map (Option.some_injective κ)
        rwa [List.map_map] at this
      obtain ⟨hnone, hrest⟩ := h
      rw [List.map_cons, hnone, List.count_cons_of_ne (by simp), hrest.expected_eq]
      exact List.nodup_iff_count_le_one.1 (hnodup.sublist (List.dropLast_sublist _)) _

end Order

end Lineage
