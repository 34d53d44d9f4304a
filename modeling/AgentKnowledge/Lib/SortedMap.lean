import Mathlib

/-!
Finite maps as strictly sorted association lists.

The sorting makes the representation canonical: two maps with the same lookups
are equal (`SortedMap.ext`), enumeration follows the order of the keys, and
everything evaluates in the kernel. Maps are built by `tabulate`, from a list of
candidate keys and a function, or entry by entry with `insert`; `get_tabulate` and
`get_insert` are what later proofs use.
-/

/-- A finite map: an association list with strictly increasing keys. -/
structure SortedMap (κ ν : Type) [LinearOrder κ] where
  entries : List (κ × ν)
  sorted : (entries.map Prod.fst).Pairwise (· < ·)

namespace SortedMap

variable {κ ν : Type} [LinearOrder κ]

instance [DecidableEq ν] : DecidableEq (SortedMap κ ν) := fun a b =>
  decidable_of_iff (a.entries = b.entries)
    ⟨fun h => by cases a; cases b; simp_all, fun h => by rw [h]⟩

/-- The keys in increasing order. -/
def keys (m : SortedMap κ ν) : List κ := m.entries.map Prod.fst

def get (m : SortedMap κ ν) (k : κ) : Option ν :=
  (m.entries.find? fun entry => entry.1 = k).map Prod.snd

def size (m : SortedMap κ ν) : Nat := m.entries.length

omit [LinearOrder κ] in
theorem map_fst_filterMap (ks : List κ) (f : κ → Option ν) :
    (ks.filterMap fun k => (f k).map fun v => (k, v)).map Prod.fst =
      ks.filter fun k => (f k).isSome := by
  induction ks with
  | nil => rfl
  | cons k ks ih => cases h : f k <;> simp [h, ih]

/-- The map of the keys in a list at which a function has a value. -/
def tabulate (ks : List κ) (f : κ → Option ν) : SortedMap κ ν where
  entries := (ks.dedup.insertionSort (· ≤ ·)).filterMap fun k => (f k).map fun v => (k, v)
  sorted := by
    rw [map_fst_filterMap]
    have hle := (List.pairwise_insertionSort (· ≤ ·) ks.dedup)
    have hne : (ks.dedup.insertionSort (· ≤ ·)).Nodup :=
      (List.perm_insertionSort (· ≤ ·) ks.dedup).nodup_iff.2 ks.nodup_dedup
    exact (List.Pairwise.and hle hne).filter _ |>.imp fun h => lt_of_le_of_ne h.1 h.2

theorem nodup_keys (m : SortedMap κ ν) : m.keys.Nodup :=
  m.sorted.imp fun h => h.ne

theorem get_eq_some_iff {m : SortedMap κ ν} {k : κ} {v : ν} :
    m.get k = some v ↔ (k, v) ∈ m.entries := by
  obtain ⟨entries, sorted⟩ := m
  have hnodup : (entries.map Prod.fst).Nodup := sorted.imp fun h => h.ne
  simp only [get]
  clear sorted
  induction entries with
  | nil => simp
  | cons entry rest ih =>
      simp only [List.map_cons, List.nodup_cons] at hnodup
      by_cases hk : entry.1 = k
      · subst hk
        have hrest : ∀ v, (entry.1, v) ∉ rest := fun v hv =>
          hnodup.1 (List.mem_map.2 ⟨_, hv, rfl⟩)
        simp [hrest, Prod.ext_iff, eq_comm]
      · have hne : (k, v) ≠ entry := fun e => hk (by rw [← e])
        simpa [hk, hne] using ih hnodup.2

theorem isSome_get_iff {m : SortedMap κ ν} {k : κ} : (m.get k).isSome ↔ k ∈ m.keys := by
  rw [Option.isSome_iff_exists]
  simp [get_eq_some_iff, keys]

theorem get_tabulate (ks : List κ) (f : κ → Option ν) (k : κ) :
    (tabulate ks f).get k = if k ∈ ks then f k else none := by
  ext v
  rw [get_eq_some_iff]
  split
  · rename_i hk
    simp [tabulate, hk]
  · rename_i hk
    simp [tabulate, hk]

@[ext] theorem ext {m m' : SortedMap κ ν} (h : ∀ k, m.get k = m'.get k) : m = m' := by
  have entries_eq : m.entries = m'.entries := by
    refine (List.pairwise_map.1 m.sorted).eq_of_mem_iff (List.pairwise_map.1 m'.sorted) ?_
    rintro ⟨k, v⟩
    rw [← get_eq_some_iff, ← get_eq_some_iff, h]
  cases m; cases m'; simp_all

/-- The map with one more entry, in place of any other one at its key. -/
def insert (m : SortedMap κ ν) (k : κ) (v : ν) : SortedMap κ ν :=
  tabulate (k :: m.keys) fun k' => if k' = k then some v else m.get k'

theorem get_insert (m : SortedMap κ ν) (k k' : κ) (v : ν) :
    (m.insert k v).get k' = if k' = k then some v else m.get k' := by
  have habsent : k' ∉ m.keys → m.get k' = none := fun h => by
    rwa [← isSome_get_iff, Option.not_isSome_iff_eq_none] at h
  rw [insert, get_tabulate]
  by_cases hk : k' = k
  · simp [hk]
  · by_cases hmem : k' ∈ m.keys
    · simp [hmem, hk]
    · simp [hmem, hk, habsent hmem]

/-- The map without entries. -/
def empty : SortedMap κ ν := ⟨[], List.Pairwise.nil⟩

@[simp] theorem get_empty (k : κ) : (empty : SortedMap κ ν).get k = none := rfl

/-- Replace the entry at a key, if there is a key, by a function of what stands there. -/
def upsert (m : SortedMap κ ν) (k : Option κ) (f : Option ν → ν) : SortedMap κ ν :=
  match k with
  | none => m
  | some k => m.insert k (f (m.get k))

/-- Grouping a list by keys: the entry at a key is made from the elements with that key. -/
theorem get_foldl_upsert {α : Type} (key : α → Option κ) (f : α → Option ν → ν) (l : List α)
    (m : SortedMap κ ν) (k : κ) [DecidablePred fun a => key a = some k] :
    (l.foldl (fun m a => m.upsert (key a) (f a)) m).get k =
      (l.filter fun a => key a = some k).foldl (fun v a => some (f a v)) (m.get k) := by
  induction l generalizing m with
  | nil => rfl
  | cons a l ih =>
      rw [List.foldl_cons, ih]
      cases hkey : key a with
      | none => simp [upsert, hkey]
      | some k' =>
          by_cases hk : k' = k
          · simp [upsert, hkey, hk, get_insert]
          · simp [upsert, hkey, hk, get_insert, Ne.symm hk]

end SortedMap
