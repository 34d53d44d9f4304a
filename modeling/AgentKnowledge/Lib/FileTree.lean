import AgentKnowledge.Lib.SortedMap
import Mathlib

/-!
Finite file trees and the POSIX calls on them.

A tree maps paths below a root directory to nodes. The parent of every entry is
a directory, by a field of the structure, so no call can build a tree with a file
inside a file or an entry inside a missing directory. Trees are compared by their
nodes (`FileTree.ext`), and every call is described by the nodes of its result:

* `node_createDirAll`, `node_setFile`, `node_moveTree` say what each mutation
  leaves at every path;
* `createNew_eq_ok_iff`, `write_eq_ok_iff`, `createDirAll_eq_ok_iff` and
  `rename_eq_ok_of_free` say when the calls succeed.
-/

/-- A path below the root, as its components. The root itself is `[]`. -/
abbrev RelPath := List String

namespace FileTree

/-- An entry: a directory, or something without children. -/
inductive Node (α : Type) where
  | dir
  | file (content : α)
deriving DecidableEq, Repr

end FileTree

/-- A finite tree of files and directories. The root is not stored. -/
structure FileTree (α : Type) where
  map : SortedMap RelPath (FileTree.Node α)
  root_absent : map.get [] = none
  parent_dir : ∀ p name, (map.get (p ++ [name])).isSome → p ≠ [] → map.get p = some .dir

namespace FileTree

variable {α : Type}

instance [DecidableEq α] : DecidableEq (FileTree α) := fun a b =>
  decidable_of_iff (a.map = b.map) ⟨fun h => by cases a; cases b; simp_all, fun h => by rw [h]⟩

/-- The entry at a path, if there is one. -/
def node (t : FileTree α) (p : RelPath) : Option (Node α) :=
  if p = [] then some .dir else t.map.get p

def isDir (t : FileTree α) (p : RelPath) : Bool :=
  match t.node p with
  | some .dir => true
  | _ => false

def isFile (t : FileTree α) (p : RelPath) : Bool :=
  match t.node p with
  | some (.file _) => true
  | _ => false

/-- The content of the file at a path, if the entry is a file. -/
def fileAt (t : FileTree α) (p : RelPath) : Option α :=
  match t.node p with
  | some (.file content) => some content
  | _ => none

@[simp] theorem node_root (t : FileTree α) : t.node [] = some .dir := rfl

theorem node_of_ne_root {t : FileTree α} {p : RelPath} (h : p ≠ []) : t.node p = t.map.get p := by
  simp [node, h]

theorem node_parent {t : FileTree α} {p : RelPath} {name : String}
    (h : (t.node (p ++ [name])).isSome) : t.node p = some .dir := by
  rw [node_of_ne_root (by simp)] at h
  by_cases hp : p = []
  · simp [hp]
  · rw [node_of_ne_root hp]
    exact t.parent_dir p name h hp

theorem node_of_isPrefix {t : FileTree α} {p q : RelPath} (hpq : p <+: q) (hne : p ≠ q)
    (hq : (t.node q).isSome) : t.node p = some .dir := by
  obtain ⟨rest, rfl⟩ := hpq
  induction rest using List.reverseRecOn with
  | nil => simp at hne
  | append_singleton rest name ih =>
      rw [← List.append_assoc] at hq
      have hparent := node_parent hq
      by_cases hrest : rest = []
      · simpa [hrest] using hparent
      · exact ih (by simp [hrest]) (by simp [hparent])

@[ext] theorem ext {t t' : FileTree α} (h : ∀ p, t.node p = t'.node p) : t = t' := by
  have map_eq : t.map = t'.map := by
    ext p : 1
    by_cases hp : p = []
    · rw [hp, t.root_absent, t'.root_absent]
    · rw [← node_of_ne_root hp, ← node_of_ne_root hp, h]
  cases t; cases t'; simp_all

theorem fileAt_eq_some_iff {t : FileTree α} {p : RelPath} {a : α} :
    t.fileAt p = some a ↔ t.node p = some (.file a) := by
  unfold fileAt
  split <;> simp_all

theorem isFile_iff {t : FileTree α} {p : RelPath} :
    t.isFile p ↔ ∃ a, t.node p = some (.file a) := by
  unfold isFile
  split <;> simp_all

theorem isDir_iff {t : FileTree α} {p : RelPath} : t.isDir p ↔ t.node p = some .dir := by
  unfold isDir
  split <;> simp_all

instance (t : FileTree α) (p : RelPath) : Decidable (t.node p = some .dir) :=
  decidable_of_iff (t.isDir p) isDir_iff

/-! ### Building trees -/

/-- The tree of a node function, from a list holding every path it is defined at. -/
def ofNodes (keys : List RelPath) (nodes : RelPath → Option (Node α))
    (_hroot : nodes [] = some .dir)
    (hparent : ∀ p name, (nodes (p ++ [name])).isSome → nodes p = some .dir)
    (hkeys : ∀ p, p ≠ [] → (nodes p).isSome → p ∈ keys) : FileTree α where
  map := SortedMap.tabulate (keys.filter (· ≠ [])) nodes
  root_absent := by simp [SortedMap.get_tabulate]
  parent_dir := by
    intro p name h hp
    rw [SortedMap.get_tabulate] at h ⊢
    split at h
    · have hdir := hparent p name h
      have hmem := hkeys p hp (by simp [hdir])
      simp [hmem, hp, hdir]
    · simp at h

theorem node_ofNodes {keys : List RelPath} {nodes : RelPath → Option (Node α)}
    {hroot : nodes [] = some .dir}
    {hparent : ∀ p name, (nodes (p ++ [name])).isSome → nodes p = some .dir}
    {hkeys : ∀ p, p ≠ [] → (nodes p).isSome → p ∈ keys} (p : RelPath) :
    (ofNodes keys nodes hroot hparent hkeys).node p = nodes p := by
  by_cases hp : p = []
  · simp [hp, hroot]
  · rw [node_of_ne_root hp, ofNodes, SortedMap.get_tabulate]
    by_cases hnode : (nodes p).isSome
    · simp [hkeys p hp hnode, hp]
    · simp only [Option.not_isSome_iff_eq_none] at hnode
      simp [hnode]

theorem mem_keys_of_isSome {t : FileTree α} {p : RelPath} (hp : p ≠ []) (h : (t.node p).isSome) :
    p ∈ t.map.keys := by
  rw [node_of_ne_root hp] at h
  exact SortedMap.isSome_get_iff.1 h

/-! ### Mutations -/

/-- Why a call on the tree fails. -/
inductive IoError where
  | notFound
  | notADirectory
  | isADirectory
  | alreadyExists
  | directoryNotEmpty
  | invalidInput
deriving DecidableEq, Repr

/-- Whether some entry from the root down to the path is a file. -/
def fileOnPath (t : FileTree α) (p : RelPath) : Bool := p.inits.any t.isFile

theorem fileOnPath_eq_false_iff {t : FileTree α} {p : RelPath} :
    t.fileOnPath p = false ↔ ∀ q, q <+: p → t.isFile q = false := by
  simp [fileOnPath, List.mem_inits]

/-- The entry at a path, with the error of a failing lookup (`symlink_metadata`). -/
def lookup (t : FileTree α) (p : RelPath) : Except IoError (Node α) :=
  match t.node p with
  | some n => .ok n
  | none => .error (if t.fileOnPath p then .notADirectory else .notFound)

/-- Put a file where its parent is a directory and no directory stands. -/
def setFile (t : FileTree α) (p : RelPath) (a : α) (hparent : t.node p.dropLast = some .dir)
    (hdir : t.node p ≠ some .dir) : FileTree α :=
  ofNodes (p :: t.map.keys) (fun q => if q = p then some (.file a) else t.node q)
    (by
      have hp : p ≠ [] := fun e => hdir (by simp [e])
      simp [Ne.symm hp])
    (by
      intro q name h
      have hq : q ≠ p := by
        rintro rfl
        split at h
        · rename_i e
          simpa using congrArg List.length e
        · exact hdir (node_parent h)
      rw [if_neg hq]
      split at h
      · rename_i e
        simpa [← e] using hparent
      · exact node_parent h)
    (by
      intro q hq h
      by_cases e : q = p
      · simp [e]
      · rw [if_neg e] at h
        exact List.mem_cons_of_mem _ (mem_keys_of_isSome hq h))

theorem node_setFile {t : FileTree α} {p : RelPath} {a : α}
    {hparent : t.node p.dropLast = some .dir} {hdir : t.node p ≠ some .dir} (q : RelPath) :
    (t.setFile p a hparent hdir).node q = if q = p then some (.file a) else t.node q :=
  node_ofNodes q

/-- Create a directory and the missing directories above it (`create_dir_all`). A
file in the way fails the call before anything is created. -/
def createDirAll (t : FileTree α) (p : RelPath) : Except IoError (FileTree α) :=
  if h : t.fileOnPath p = false then
    .ok (ofNodes (p.inits ++ t.map.keys) (fun q => if q <+: p then some .dir else t.node q)
      (by simp)
      (by
        intro q name hq
        by_cases e : q <+: p
        · simp [e]
        · have : ¬ q ++ [name] <+: p := fun e' => e ((List.prefix_append _ _).trans e')
          rw [if_neg this] at hq
          simp [e, node_parent hq])
      (by
        intro q hq hnode
        by_cases e : q <+: p
        · simp [List.mem_inits, e]
        · rw [if_neg e] at hnode
          exact List.mem_append_right _ (mem_keys_of_isSome hq hnode)))
  else .error .notADirectory

theorem createDirAll_eq_ok_iff {t : FileTree α} {p : RelPath} :
    (∃ t', t.createDirAll p = .ok t') ↔ ∀ q, q <+: p → t.isFile q = false := by
  rw [← fileOnPath_eq_false_iff, createDirAll]
  split <;> simp_all

theorem node_createDirAll {t t' : FileTree α} {p : RelPath} (h : t.createDirAll p = .ok t')
    (q : RelPath) : t'.node q = if q <+: p then some .dir else t.node q := by
  unfold createDirAll at h
  split at h
  · cases h
    exact node_ofNodes q
  · cases h

/-- Create a file that must not exist (`O_CREAT | O_EXCL`). -/
def createNew (t : FileTree α) (p : RelPath) (a : α) : Except IoError (FileTree α) :=
  if habsent : t.node p = none then
    if hparent : t.node p.dropLast = some .dir then
      .ok (t.setFile p a hparent (by simp [habsent]))
    else .error (if t.fileOnPath p then .notADirectory else .notFound)
  else .error .alreadyExists

theorem createNew_eq_ok_iff {t t' : FileTree α} {p : RelPath} {a : α} :
    t.createNew p a = .ok t' ↔
      t.node p = none ∧ t.node p.dropLast = some .dir ∧
        ∀ q, t'.node q = if q = p then some (.file a) else t.node q := by
  unfold createNew
  split
  · rename_i habsent
    split
    · rename_i hparent
      constructor
      · intro h
        cases h
        exact ⟨habsent, hparent, node_setFile⟩
      · rintro ⟨-, -, h⟩
        congr 1
        ext q : 1
        rw [node_setFile, h]
    · rename_i hparent
      simp [hparent]
  · rename_i hpresent
    simp [hpresent]

/-- Write a whole file (`fs::write`): an existing file gets new content, a missing
one is created. The content may keep attributes of the old file. -/
def write (t : FileTree α) (p : RelPath) (content : Option α → α) :
    Except IoError (FileTree α) :=
  if hdir : t.node p = some .dir then .error .isADirectory
  else if hparent : t.node p.dropLast = some .dir then
    .ok (t.setFile p (content (t.fileAt p)) hparent hdir)
  else .error (if t.fileOnPath p then .notADirectory else .notFound)

theorem node_write {t t' : FileTree α} {p : RelPath} {content : Option α → α}
    (h : t.write p content = .ok t') (q : RelPath) :
    t'.node q = if q = p then some (.file (content (t.fileAt p))) else t.node q := by
  unfold write at h
  split at h
  · cases h
  · split at h
    · cases h
      exact node_setFile q
    · cases h

theorem write_eq_ok_of_file {t : FileTree α} {p : RelPath} {content : Option α → α} {a : α}
    (h : t.node p = some (.file a)) : ∃ t', t.write p content = .ok t' := by
  have hp : p ≠ [] := by rintro rfl; simp at h
  have hparent : t.node p.dropLast = some .dir := by
    refine node_of_isPrefix (List.dropLast_prefix p) ?_ (q := p) (by simp [h])
    intro e
    have := congrArg List.length e
    have := List.length_pos_iff.2 hp
    simp at *
    omega
  exact ⟨_, by rw [write, dif_neg (by simp [h]), dif_pos hparent]⟩

/-! ### Moving a subtree -/

/-- Where a path goes when the entry at `src` is moved to `dst`. -/
def movePath (src dst p : RelPath) : RelPath :=
  if src <+: p then dst ++ p.drop src.length else p

/-- The nodes after the entry at `src`, with everything below it, has replaced
whatever stood at `dst`. -/
def movedNodes (t : FileTree α) (src dst : RelPath) (q : RelPath) : Option (Node α) :=
  if dst <+: q then t.node (src ++ q.drop dst.length)
  else if src <+: q then none
  else t.node q

/-- The conditions under which moving a subtree gives a tree. -/
structure Movable (t : FileTree α) (src dst : RelPath) : Prop where
  src_ne_root : src ≠ []
  dst_ne_root : dst ≠ []
  not_inside : ¬ src <+: dst
  parent : t.node dst.dropLast = some .dir

theorem movedNodes_parent {t : FileTree α} {src dst : RelPath} (h : t.Movable src dst)
    (q : RelPath) (name : String) (hq : (t.movedNodes src dst (q ++ [name])).isSome) :
    t.movedNodes src dst q = some .dir := by
  by_cases hdst : dst <+: q
  · -- Inside the moved subtree the parent relation is that of the old place.
    obtain ⟨rest, rfl⟩ := hdst
    simp only [movedNodes, List.prefix_append, if_true, List.append_assoc,
      List.drop_left] at hq ⊢
    rw [← List.append_assoc] at hq
    exact node_parent hq
  · by_cases hself : dst <+: q ++ [name]
    · -- `q` is the directory that received the subtree.
      have heq : q = dst.dropLast := by
        have : dst = q ++ [name] := by
          rcases List.prefix_concat_iff.1 hself with e | e
          · exact e
          · exact absurd e hdst
        simp [this]
      have hsrc : ¬ src <+: q := fun e => h.not_inside
        (e.trans (heq ▸ List.dropLast_prefix dst))
      simp only [movedNodes, hdst, hsrc, if_false]
      rw [heq]
      exact h.parent
    · simp only [movedNodes, hself, if_false] at hq
      split at hq
      · simp at hq
      · rename_i hsrc
        have hsrc' : ¬ src <+: q := fun e => hsrc (e.trans (List.prefix_append _ _))
        simp only [movedNodes, hdst, hsrc', if_false]
        exact node_parent hq

theorem movedNodes_root {t : FileTree α} {src dst : RelPath} (h : t.Movable src dst) :
    t.movedNodes src dst [] = some .dir := by
  simp [movedNodes, h.src_ne_root, h.dst_ne_root]

def moveTree (t : FileTree α) (src dst : RelPath) (h : t.Movable src dst) : FileTree α :=
  ofNodes (t.map.keys.map (movePath src dst) ++ t.map.keys) (t.movedNodes src dst)
    (movedNodes_root h) (movedNodes_parent h)
    (by
      intro q hq hnode
      unfold movedNodes at hnode
      split at hnode
      · rename_i hdst
        obtain ⟨rest, rfl⟩ := hdst
        rw [List.drop_left] at hnode
        refine List.mem_append_left _ (List.mem_map.2 ⟨src ++ rest, ?_, ?_⟩)
        · exact mem_keys_of_isSome (by simp [h.src_ne_root]) hnode
        · simp [movePath]
      · split at hnode
        · simp at hnode
        · exact List.mem_append_right _ (mem_keys_of_isSome hq hnode))

theorem node_moveTree {t : FileTree α} {src dst : RelPath} {h : t.Movable src dst} (q : RelPath) :
    (t.moveTree src dst h).node q = t.movedNodes src dst q :=
  node_ofNodes q

instance (t : FileTree α) (src dst : RelPath) : Decidable (t.Movable src dst) :=
  decidable_of_iff
    (src ≠ [] ∧ dst ≠ [] ∧ ¬ src <+: dst ∧ t.node dst.dropLast = some .dir)
    ⟨fun ⟨a, b, c, d⟩ => ⟨a, b, c, d⟩, fun ⟨a, b, c, d⟩ => ⟨a, b, c, d⟩⟩

/-- Whether a directory has an entry. -/
def hasChild (t : FileTree α) (p : RelPath) : Bool :=
  t.map.keys.any fun k => k ≠ [] && k.dropLast == p

/-- Why the entry at `src` may not replace what stands at `dst`, if anything does. -/
def replaceError (t : FileTree α) (src dst : RelPath) : Option IoError :=
  match t.node src, t.node dst with
  | none, _ => some (if t.fileOnPath src then .notADirectory else .notFound)
  | some _, none => none
  | some .dir, some (.file _) => some .notADirectory
  | some (.file _), some .dir => some .isADirectory
  | some .dir, some .dir => if t.hasChild dst then some .directoryNotEmpty else none
  | some (.file _), some (.file _) => none

/-- Move an entry (`rename`): a file may replace a file and a directory an empty
directory; moving an entry onto itself changes nothing. -/
def rename (t : FileTree α) (src dst : RelPath) : Except IoError (FileTree α) :=
  if src = dst ∧ (t.node src).isSome then .ok t
  else if h : t.Movable src dst then
    match t.replaceError src dst with
    | some error => .error error
    | none => .ok (t.moveTree src dst h)
  else if src = [] ∨ dst = [] ∨ src <+: dst then .error .invalidInput
  else .error (if t.fileOnPath dst then .notADirectory else .notFound)

/-- A rename to a free place in an existing directory succeeds. -/
theorem rename_eq_ok_of_free {t : FileTree α} {src dst : RelPath} (h : t.Movable src dst)
    (hsrc : (t.node src).isSome) (hdst : t.node dst = none) :
    t.rename src dst = .ok (t.moveTree src dst h) := by
  have hne : src ≠ dst := by
    rintro rfl
    simp [hdst] at hsrc
  have hfree : t.replaceError src dst = none := by
    obtain ⟨n, hn⟩ := Option.isSome_iff_exists.1 hsrc
    simp [replaceError, hn, hdst]
  simp [rename, hne, h, hfree]

/-! ### Enumeration -/

/-- The names in a directory, in increasing order. -/
def childNames (t : FileTree α) (d : RelPath) : List String :=
  (t.map.keys.filter fun k => k ≠ [] && k.dropLast == d).map fun k => k.getLastD ""

/-- All directories, each before the ones inside it, siblings in name order: the
order of a depth-first traversal. -/
def directories (t : FileTree α) : List RelPath := [] :: t.map.keys.filter t.isDir

def childPaths (t : FileTree α) (d : RelPath) : List RelPath :=
  (t.childNames d).map fun name => d ++ [name]

/-- Every entry, directory by directory. -/
def walk (t : FileTree α) : List RelPath := t.directories.flatMap t.childPaths

/-- The files with their contents, in path order. -/
def files (t : FileTree α) : List (RelPath × α) :=
  t.map.entries.filterMap fun
    | (p, .file content) => some (p, content)
    | (_, .dir) => none

theorem mem_keys_iff {t : FileTree α} {p : RelPath} :
    p ∈ t.map.keys ↔ p ≠ [] ∧ (t.node p).isSome := by
  constructor
  · intro h
    have hp : p ≠ [] := by
      rintro rfl
      simpa [t.root_absent] using SortedMap.isSome_get_iff.2 h
    rw [node_of_ne_root hp]
    exact ⟨hp, SortedMap.isSome_get_iff.2 h⟩
  · rintro ⟨hp, h⟩
    exact mem_keys_of_isSome hp h

theorem childPaths_eq (t : FileTree α) (d : RelPath) :
    t.childPaths d = t.map.keys.filter fun k => k ≠ [] && k.dropLast == d := by
  rw [childPaths, childNames, List.map_map]
  refine (List.map_congr_left ?_).trans (List.map_id _)
  intro k hk
  simp only [List.mem_filter, Bool.and_eq_true, decide_eq_true_eq, beq_iff_eq] at hk
  obtain ⟨-, hne, rfl⟩ := hk
  simp only [Function.comp_apply, id_eq]
  rw [List.getLastD_eq_getLast?, List.getLast?_eq_some_getLast hne]
  exact List.dropLast_append_getLast hne

theorem mem_childPaths {t : FileTree α} {d p : RelPath} :
    p ∈ t.childPaths d ↔ p ≠ [] ∧ p.dropLast = d ∧ (t.node p).isSome := by
  simp only [childPaths_eq, List.mem_filter, mem_keys_iff, Bool.and_eq_true, decide_eq_true_eq,
    beq_iff_eq]
  exact ⟨fun ⟨⟨hp, hnode⟩, _, hd⟩ => ⟨hp, hd, hnode⟩, fun ⟨hp, hd, hnode⟩ => ⟨⟨hp, hnode⟩, hp, hd⟩⟩

theorem mem_childNames {t : FileTree α} {d : RelPath} {name : String} :
    name ∈ t.childNames d ↔ (t.node (d ++ [name])).isSome := by
  have hmem : d ++ [name] ∈ t.childPaths d ↔ name ∈ t.childNames d := by
    simp [childPaths]
  rw [← hmem, mem_childPaths]
  simp

theorem nodup_childNames (t : FileTree α) (d : RelPath) : (t.childNames d).Nodup := by
  refine List.Nodup.of_map (fun name => d ++ [name]) ?_
  rw [← childPaths, childPaths_eq]
  exact t.map.nodup_keys.filter _

/-- No path of the tree has as many components. -/
def height (t : FileTree α) : Nat := (t.map.keys.map List.length).sum + 1

theorem mem_directories {t : FileTree α} {d : RelPath} :
    d ∈ t.directories ↔ t.node d = some .dir := by
  simp only [directories, List.mem_cons, List.mem_filter, mem_keys_iff, isDir_iff]
  constructor
  · rintro (rfl | ⟨-, h⟩)
    · rfl
    · exact h
  · intro h
    by_cases hd : d = []
    · exact .inl hd
    · exact .inr ⟨⟨hd, by simp [h]⟩, h⟩

theorem mem_walk {t : FileTree α} {p : RelPath} :
    p ∈ t.walk ↔ p ≠ [] ∧ (t.node p).isSome := by
  simp only [walk, List.mem_flatMap, mem_directories, mem_childPaths]
  constructor
  · rintro ⟨d, -, hp, -, hnode⟩
    exact ⟨hp, hnode⟩
  · rintro ⟨hp, hnode⟩
    refine ⟨p.dropLast, ?_, hp, rfl, hnode⟩
    rw [← List.dropLast_append_getLast hp] at hnode
    exact node_parent hnode

theorem nodup_directories (t : FileTree α) : t.directories.Nodup := by
  rw [directories, List.nodup_cons]
  refine ⟨?_, t.map.nodup_keys.filter _⟩
  intro h
  exact (mem_keys_iff.1 (List.mem_filter.1 h).1).1 rfl

theorem nodup_walk (t : FileTree α) : t.walk.Nodup := by
  rw [walk, List.nodup_flatMap]
  constructor
  · intro d _
    rw [childPaths_eq]
    exact t.map.nodup_keys.filter _
  · -- An entry is listed under its parent only.
    refine t.nodup_directories.imp fun hne p hp hq => hne ?_
    rw [← (mem_childPaths.1 hp).2.1, (mem_childPaths.1 hq).2.1]

/-- A traversal meets every entry once. -/
theorem walk_perm_keys (t : FileTree α) : t.walk.Perm t.map.keys := by
  rw [List.perm_ext_iff_of_nodup t.nodup_walk t.map.nodup_keys]
  intro p
  rw [mem_walk, mem_keys_iff]

/-- The number of entries below the root. -/
def entryCount (t : FileTree α) : Nat := t.map.size

theorem length_walk (t : FileTree α) : t.walk.length = t.entryCount := by
  rw [t.walk_perm_keys.length_eq]
  simp [SortedMap.keys, SortedMap.size, entryCount]

theorem mem_files {t : FileTree α} {p : RelPath} {a : α} :
    (p, a) ∈ t.files ↔ t.node p = some (.file a) := by
  by_cases hp : p = []
  · subst hp
    simp only [files, List.mem_filterMap, node_root, Option.some.injEq, reduceCtorEq, iff_false]
    rintro ⟨⟨q, n⟩, hmem, hq⟩
    cases n with
    | dir => simp at hq
    | file content =>
        simp only [Option.some.injEq, Prod.mk.injEq] at hq
        obtain ⟨rfl, rfl⟩ := hq
        have := SortedMap.get_eq_some_iff.2 hmem
        simp [t.root_absent] at this
  · rw [node_of_ne_root hp, SortedMap.get_eq_some_iff]
    simp only [files, List.mem_filterMap]
    constructor
    · rintro ⟨⟨q, n⟩, hmem, hq⟩
      cases n with
      | dir => simp at hq
      | file content =>
          simp only [Option.some.injEq, Prod.mk.injEq] at hq
          obtain ⟨rfl, rfl⟩ := hq
          exact hmem
    · intro h
      exact ⟨_, h, rfl⟩

theorem pairwise_files (t : FileTree α) : t.files.Pairwise fun a b => a.1 < b.1 := by
  refine (List.pairwise_map.1 t.map.sorted).filterMap _ ?_
  rintro ⟨p, n⟩ ⟨q, m⟩ hlt ⟨p', a⟩ hp ⟨q', b⟩ hq
  cases n <;> cases m <;> simp at hp hq
  simpa [hp.1, hq.1] using hlt

theorem nodup_files (t : FileTree α) : t.files.Nodup :=
  t.pairwise_files.imp fun hlt e => absurd (congrArg Prod.fst e) hlt.ne

/-- Trees with the same files list them alike. -/
theorem files_eq_of_fileAt {t t' : FileTree α} (h : ∀ p, t.fileAt p = t'.fileAt p) :
    t.files = t'.files := by
  refine t.pairwise_files.eq_of_mem_iff t'.pairwise_files ?_
  rintro ⟨p, a⟩
  rw [mem_files, mem_files, ← fileAt_eq_some_iff, ← fileAt_eq_some_iff, h]

/-! ### The tree of some files -/

/-- The nodes a list of files calls for: the files, and the directories above them. -/
def impliedNodes (files : List (RelPath × α)) (p : RelPath) : Option (Node α) :=
  if p = [] ∨ ∃ file ∈ files, p <+: file.1 ∧ p ≠ file.1 then some .dir
  else (files.find? fun file => file.1 = p).map fun file => .file file.2

/-- The tree of some files without further directories. -/
def ofFiles (files : List (RelPath × α)) : FileTree α :=
  ofNodes (files.flatMap fun file => file.1.inits) (impliedNodes files)
    (by simp [impliedNodes])
    (by
      intro p name h
      unfold impliedNodes at h ⊢
      rw [if_pos]
      split at h
      · rename_i hdir
        rcases hdir with e | ⟨file, hfile, hpre, hne⟩
        · simp at e
        · refine .inr ⟨file, hfile, (List.prefix_append _ _).trans hpre, ?_⟩
          rintro rfl
          have := hpre.length_le
          simp at this
      · obtain ⟨node, hnode⟩ := Option.isSome_iff_exists.1 h
        obtain ⟨file, hfind, -⟩ := Option.map_eq_some_iff.1 hnode
        have hpath : file.1 = p ++ [name] := by simpa using List.find?_some hfind
        refine .inr ⟨file, List.mem_of_find?_eq_some hfind, hpath ▸ List.prefix_append _ _, ?_⟩
        rw [hpath]
        simp)
    (by
      intro p hp h
      unfold impliedNodes at h
      rw [List.mem_flatMap]
      split at h
      · rename_i hdir
        rcases hdir with e | ⟨file, hfile, hpre, -⟩
        · exact absurd e hp
        · exact ⟨file, hfile, (List.mem_inits _ _).2 hpre⟩
      · obtain ⟨node, hnode⟩ := Option.isSome_iff_exists.1 h
        obtain ⟨file, hfind, -⟩ := Option.map_eq_some_iff.1 hnode
        have hpath : file.1 = p := by simpa using List.find?_some hfind
        exact ⟨file, List.mem_of_find?_eq_some hfind,
          (List.mem_inits _ _).2 (hpath ▸ List.prefix_rfl)⟩)

theorem node_ofFiles (files : List (RelPath × α)) (p : RelPath) :
    (ofFiles files).node p = impliedNodes files p :=
  node_ofNodes p

/-- The proper prefixes of a path are the prefixes of its parent. -/
theorem prefix_dropLast_iff {α : Type} {l d : List α} (hl : l ≠ []) :
    d <+: l.dropLast ↔ d <+: l ∧ d ≠ l := by
  obtain ⟨front, last, rfl⟩ := List.eq_nil_or_concat l |>.resolve_left hl
  rw [List.concat_eq_append, List.dropLast_concat, List.prefix_concat_iff]
  constructor
  · intro h
    refine ⟨.inr h, ?_⟩
    rintro rfl
    simpa using h.length_le
  · rintro ⟨h, hne⟩
    exact h.resolve_left hne

end FileTree
