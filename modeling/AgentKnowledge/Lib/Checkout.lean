import AgentKnowledge.Lib.Edits

/-!
Trees as a version control system records them: files without empty directories.

`prune` is what is left of a tree after it was recorded and checked out again. A
tree agrees with its pruned form wherever its directories hold files (`Settled`).
The last part counts the entries an edit can add.
-/

namespace FileTree

variable {α : Type}

/-! ### Recorded trees -/

/-- The tree of the files only. -/
def prune (t : FileTree α) : FileTree α := ofFiles t.files

theorem node_prune_eq_file {t : FileTree α} {p : RelPath} {a : α} :
    t.prune.node p = some (.file a) ↔ t.node p = some (.file a) := by
  rw [prune, node_ofFiles, impliedNodes]
  constructor
  · intro h
    split at h
    · cases h
    · obtain ⟨⟨q, b⟩, hfind, hnode⟩ := Option.map_eq_some_iff.1 h
      have hpath : q = p := by simpa using List.find?_some hfind
      cases hnode
      subst hpath
      exact mem_files.1 (List.mem_of_find?_eq_some hfind)
  · intro h
    rw [if_neg]
    · obtain ⟨⟨q, b⟩, hfind⟩ : ∃ file, (t.files.find? fun file => file.1 = p) = some file :=
        Option.isSome_iff_exists.1
          (List.find?_isSome.2 ⟨(p, a), mem_files.2 h, by simp⟩)
      have hpath : q = p := by simpa using List.find?_some hfind
      subst hpath
      have hfile := mem_files.1 (List.mem_of_find?_eq_some hfind)
      rw [hfind, ← h, hfile]
      rfl
    · rintro (rfl | ⟨⟨q, b⟩, hq, hpre, hne⟩)
      · simp at h
      · -- A file has nothing below it.
        have hsome : (t.node q).isSome := by simp [mem_files.1 hq]
        have hdir := node_of_isPrefix hpre hne hsome
        rw [h] at hdir
        cases hdir

theorem node_prune_eq_dir {t : FileTree α} {p : RelPath} :
    t.prune.node p = some .dir ↔
      p = [] ∨ ∃ q a, t.node q = some (.file a) ∧ p <+: q ∧ p ≠ q := by
  rw [prune, node_ofFiles, impliedNodes]
  constructor
  · intro h
    split at h
    · rename_i hdir
      rcases hdir with rfl | ⟨⟨q, a⟩, hq, hpre, hne⟩
      · exact .inl rfl
      · exact .inr ⟨q, a, mem_files.1 hq, hpre, hne⟩
    · obtain ⟨file, -, hnode⟩ := Option.map_eq_some_iff.1 h
      cases hnode
  · intro h
    rw [if_pos]
    rcases h with rfl | ⟨q, a, hq, hpre, hne⟩
    · exact .inl rfl
    · exact .inr ⟨(q, a), mem_files.2 hq, hpre, hne⟩

theorem fileAt_prune (t : FileTree α) (p : RelPath) : t.prune.fileAt p = t.fileAt p :=
  Option.ext fun a => by
    rw [fileAt_eq_some_iff, fileAt_eq_some_iff, node_prune_eq_file]

@[simp] theorem files_prune (t : FileTree α) : t.prune.files = t.files :=
  files_eq_of_fileAt t.fileAt_prune

@[simp] theorem prune_prune (t : FileTree α) : t.prune.prune = t.prune := by
  rw [prune, files_prune, prune]

/-- Every recorded entry is in the tree. -/
theorem node_of_node_prune {t : FileTree α} {p : RelPath} {n : Node α}
    (h : t.prune.node p = some n) : t.node p = some n := by
  cases n with
  | file a => exact node_prune_eq_file.1 h
  | dir =>
      rcases node_prune_eq_dir.1 h with rfl | ⟨q, a, hq, hpre, hne⟩
      · rfl
      · exact node_of_isPrefix hpre hne (by simp [hq])

/-! ### Where a tree and its record agree -/

/-- Directories of the kind `Q` hold files. -/
def Settled (Q : RelPath → Prop) (t : FileTree α) : Prop :=
  ∀ p, Q p → t.node p = some .dir → p ≠ [] → ∃ q a, t.node q = some (.file a) ∧ p <+: q

variable {Q : RelPath → Prop}

theorem settled_prune (Q : RelPath → Prop) (t : FileTree α) : t.prune.Settled Q := by
  intro p _ hdir hne
  rcases node_prune_eq_dir.1 hdir with rfl | ⟨q, a, hq, hpre, -⟩
  · exact absurd rfl hne
  · exact ⟨q, a, node_prune_eq_file.2 hq, hpre⟩

theorem Settled.node_prune {t : FileTree α} (h : t.Settled Q) {p : RelPath} (hp : Q p) :
    t.prune.node p = t.node p := by
  cases hnode : t.node p with
  | none =>
      cases hprune : t.prune.node p with
      | none => rfl
      | some n => exact absurd (hnode.symm.trans (node_of_node_prune hprune)) (by simp)
  | some n =>
      cases n with
      | file a => exact node_prune_eq_file.2 hnode
      | dir =>
          refine node_prune_eq_dir.2 ?_
          by_cases hroot : p = []
          · exact .inl hroot
          · obtain ⟨q, a, hq, hpre⟩ := h p hp hnode hroot
            refine .inr ⟨q, a, hq, hpre, ?_⟩
            rintro rfl
            rw [hnode] at hq
            cases hq

theorem move_source_ne_nil {t t' : FileTree α} {source destination : RelPath}
    (hclear : (Edit.move source destination : Edit α).Clear t)
    (h : (Edit.move source destination).run t = .ok t') : source ≠ [] := by
  rintro rfl
  have hroot := node_run_move hclear h []
  have hd := ne_nil_of_node_eq_none hclear.2
  simp [hd] at hroot

/-- Edits that keep directories settled: a move takes a settled directory along and
leaves no settled directory behind. -/
def Edit.Tame (Q : RelPath → Prop) : Edit α → Prop
  | .create _ _ => True
  | .rewrite _ _ => True
  | .move source _ => (∀ rest, Q (source ++ rest)) ∧ ∀ p, Q p → p <+: source → p = source

theorem Settled.run {t t' : FileTree α} {edit : Edit α} (h : t.Settled Q) (htame : edit.Tame Q)
    (hclear : edit.Clear t) (hrun : edit.run t = .ok t') : t'.Settled Q := by
  intro p hp hdir hne
  cases edit with
  | create path content =>
      have hnode := node_run_create hrun
      rw [hnode] at hdir
      by_cases hpath : p = path
      · simp [hpath] at hdir
      rw [if_neg hpath] at hdir
      by_cases habove : p <+: path
      · exact ⟨path, content, by simp [hnode], habove⟩
      · rw [if_neg habove] at hdir
        obtain ⟨q, a, hq, hpre⟩ := h p hp hdir hne
        have hother : q ≠ path := fun e => by
          rw [e, node_eq_none_of_create hrun] at hq
          cases hq
        have hbelow : ¬ q <+: path := fun e => habove (hpre.trans e)
        exact ⟨q, a, by rw [hnode, if_neg hother, if_neg hbelow, hq], hpre⟩
  | rewrite path content =>
      have hnode := node_run_rewrite hrun
      rw [hnode] at hdir
      by_cases hpath : p = path
      · simp [hpath] at hdir
      rw [if_neg hpath] at hdir
      obtain ⟨q, a, hq, hpre⟩ := h p hp hdir hne
      by_cases hq' : q = path
      · exact ⟨path, _, by rw [hnode, if_pos rfl], hq' ▸ hpre⟩
      · exact ⟨q, a, by rw [hnode, if_neg hq', hq], hpre⟩
  | move source destination =>
      obtain ⟨hinside, habove⟩ := htame
      have hnode := node_run_move hclear hrun
      -- What is in a settled directory has its new place below the destination.
      have hmoved : ∀ rest, t.node (source ++ rest) = some .dir →
          ∃ q a, t'.node q = some (.file a) ∧ destination ++ rest <+: q := by
        intro rest hrest
        have hroot : source ++ rest ≠ [] := fun e =>
          move_source_ne_nil hclear hrun (List.append_eq_nil_iff.1 e).1
        obtain ⟨q, a, hq, more, rfl⟩ := h _ (hinside rest) hrest hroot
        refine ⟨destination ++ (rest ++ more), a, ?_, ⟨more, by simp⟩⟩
        rw [hnode, if_pos (List.prefix_append _ _), List.drop_left, ← hq, List.append_assoc]
      rw [hnode] at hdir
      by_cases hdestination : destination <+: p
      · obtain ⟨rest, rfl⟩ := hdestination
        rw [if_pos (List.prefix_append _ _), List.drop_left] at hdir
        exact hmoved rest hdir
      rw [if_neg hdestination] at hdir
      by_cases hsource : source <+: p
      · simp [hsource] at hdir
      rw [if_neg hsource] at hdir
      by_cases hway : p <+: destination
      · obtain ⟨n, hn⟩ := Option.isSome_iff_exists.1 hclear.1
        cases n with
        | dir =>
            obtain ⟨q, a, hq, hpre⟩ := hmoved [] (by rwa [List.append_nil])
            rw [List.append_nil] at hpre
            exact ⟨q, a, hq, hway.trans hpre⟩
        | file a => exact ⟨destination, a, by simp [hnode, hn], hway⟩
      · rw [if_neg hway] at hdir
        obtain ⟨q, a, hq, hpre⟩ := h p hp hdir hne
        have hother : ¬ source <+: q := fun e => by
          rcases List.prefix_or_prefix_of_prefix hpre e with e' | e'
          · exact hsource (habove p hp e' ▸ List.prefix_rfl)
          · exact hsource e'
        have hfree := not_prefix_of_free hclear.2 (q := q) (by simp [hq])
        have hbelow : ¬ q <+: destination := fun e => hway (hpre.trans e)
        exact ⟨q, a, by rw [hnode, if_neg hfree, if_neg hother, if_neg hbelow, hq], hpre⟩

/-- A whole run of tame edits. -/
theorem Settled.runsClear {t t' : FileTree α} {edits : List (Edit α)} (h : t.Settled Q)
    (htame : ∀ edit ∈ edits, edit.Tame Q) (hruns : RunsClear t edits t') : t'.Settled Q := by
  induction edits generalizing t with
  | nil => exact hruns ▸ h
  | cons edit edits ih =>
      obtain ⟨hclear, next, hrun, hrest⟩ := hruns
      obtain ⟨hedit, hedits⟩ := List.forall_mem_cons.1 htame
      exact ih (h.run hedit hclear hrun) hedits hrest

/-! ### Counting entries -/

theorem entryCount_le_of_walk {t : FileTree α} {paths : List RelPath}
    (h : ∀ p, p ≠ [] → (t.node p).isSome → p ∈ paths) : t.entryCount ≤ paths.length := by
  rw [← length_walk]
  refine (List.subperm_of_subset t.nodup_walk ?_).length_le
  intro p hp
  obtain ⟨hne, hnode⟩ := mem_walk.1 hp
  exact h p hne hnode

theorem entryCount_prune_le (t : FileTree α) : t.prune.entryCount ≤ t.entryCount := by
  rw [← length_walk t]
  refine entryCount_le_of_walk fun p hne hsome => mem_walk.2 ⟨hne, ?_⟩
  obtain ⟨n, hn⟩ := Option.isSome_iff_exists.1 hsome
  simp [node_of_node_prune hn]

/-- The most entries an edit adds: its target and the directories above it. -/
def Edit.cost : Edit α → Nat
  | .create path _ => path.length
  | .rewrite _ _ => 0
  | .move _ destination => destination.length

/-- The entries on the way to a path. -/
theorem mem_tail_inits {p q : RelPath} (hne : q ≠ []) (h : q <+: p) : q ∈ p.inits.tail := by
  have hmem := (List.mem_inits q p).2 h
  cases p with
  | nil => exact absurd (List.prefix_nil.1 h) hne
  | cons name rest =>
      rw [List.inits_cons] at hmem ⊢
      simpa [hne] using hmem

theorem length_tail_inits (p : RelPath) : p.inits.tail.length = p.length := by
  simp

theorem entryCount_run_le {t t' : FileTree α} {edit : Edit α} (hclear : edit.Clear t)
    (hrun : edit.run t = .ok t') : t'.entryCount ≤ t.entryCount + edit.cost := by
  cases edit with
  | create path content =>
      rw [Edit.cost, ← length_tail_inits, ← length_walk t, ← List.length_append]
      refine entryCount_le_of_walk fun p hne hsome => List.mem_append.2 ?_
      rw [node_run_create hrun] at hsome
      by_cases hpath : p <+: path
      · exact .inr (mem_tail_inits hne hpath)
      · have hother : p ≠ path := fun e => hpath (e ▸ List.prefix_rfl)
        rw [if_neg hother, if_neg hpath] at hsome
        exact .inl (mem_walk.2 ⟨hne, hsome⟩)
  | rewrite path content =>
      rw [Edit.cost, Nat.add_zero, ← length_walk t]
      refine entryCount_le_of_walk fun p hne hsome => mem_walk.2 ⟨hne, ?_⟩
      rw [node_run_rewrite hrun] at hsome
      by_cases hpath : p = path
      · obtain ⟨a, ha⟩ := hclear
        simp [hpath, ha]
      · rwa [if_neg hpath] at hsome
  | move source destination =>
      rw [Edit.cost, ← length_tail_inits, ← length_walk t,
        ← List.length_map (movePath source destination), ← List.length_append]
      refine entryCount_le_of_walk fun p hne hsome => List.mem_append.2 ?_
      rw [node_run_move hclear hrun] at hsome
      by_cases hdestination : destination <+: p
      · obtain ⟨rest, rfl⟩ := hdestination
        rw [if_pos (List.prefix_append _ _), List.drop_left] at hsome
        have hroot : source ++ rest ≠ [] := fun e =>
          move_source_ne_nil hclear hrun (List.append_eq_nil_iff.1 e).1
        exact .inl (List.mem_map.2 ⟨source ++ rest, mem_walk.2 ⟨hroot, hsome⟩,
          movePath_of_within⟩)
      · rw [if_neg hdestination] at hsome
        by_cases hsource : source <+: p
        · simp [hsource] at hsome
        rw [if_neg hsource] at hsome
        by_cases hway : p <+: destination
        · exact .inr (mem_tail_inits hne hway)
        · rw [if_neg hway] at hsome
          exact .inl (List.mem_map.2 ⟨p, mem_walk.2 ⟨hne, hsome⟩,
            movePath_of_outside hsource⟩)

theorem entryCount_runsClear_le {t t' : FileTree α} {edits : List (Edit α)}
    (hruns : RunsClear t edits t') :
    t'.entryCount ≤ t.entryCount + (edits.map Edit.cost).sum := by
  induction edits generalizing t with
  | nil =>
      cases hruns
      simp
  | cons edit edits ih =>
      obtain ⟨hclear, next, hrun, hrest⟩ := hruns
      have hstep := entryCount_run_le hclear hrun
      have hmore := ih hrest
      simp only [List.map_cons, List.sum_cons]
      omega

end FileTree
