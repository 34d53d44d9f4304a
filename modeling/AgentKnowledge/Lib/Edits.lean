import AgentKnowledge.Lib.FileTree
import AgentKnowledge.Lib.Results

/-!
Sequences of edits of a file tree.

An edit creates a file, rewrites one or moves an entry. It is clear when it meets
what it expects: a new file finds its place free and only directories above it, a
rewrite finds a file, a move finds its source and a free destination. A clear run
loses nothing and invents nothing: every file of the result is a file of the
start, followed through the edits (`Edit.replay`), or one an edit created
(`files_perm_of_runsClear`).
-/

namespace FileTree

variable {α : Type}

/-- A change of a tree. A rewrite may keep attributes of the file it replaces. -/
inductive Edit (α : Type) where
  | create (path : RelPath) (content : α)
  | rewrite (path : RelPath) (content : Option α → α)
  | move (source destination : RelPath)

namespace Edit

/-- Carry out an edit. Missing directories above a target are created first. -/
def run (t : FileTree α) : Edit α → Except IoError (FileTree α)
  | create path content => do
      let t ← t.createDirAll path.dropLast
      t.createNew path content
  | rewrite path content => t.write path content
  | move source destination => do
      let t ← t.createDirAll destination.dropLast
      t.rename source destination

/-- The edit meets no conflict in the tree. -/
def Clear (t : FileTree α) : Edit α → Prop
  | create path _ =>
      t.node path = none ∧ ∀ q, q <+: path → q ≠ path → t.node q = none ∨ t.node q = some .dir
  | rewrite path _ => ∃ content, t.node path = some (.file content)
  | move source destination => (t.node source).isSome ∧ t.node destination = none

end Edit

/-- A run of edits, each of them clear when its turn comes. -/
def RunsClear (t : FileTree α) : List (Edit α) → FileTree α → Prop
  | [], t' => t = t'
  | edit :: edits, t' => edit.Clear t ∧ ∃ next, edit.run t = .ok next ∧ RunsClear next edits t'

theorem runsClear_append {t t' : FileTree α} {edits more : List (Edit α)} :
    RunsClear t (edits ++ more) t' ↔ ∃ s, RunsClear t edits s ∧ RunsClear s more t' := by
  induction edits generalizing t with
  | nil => simp [RunsClear]
  | cons edit edits ih =>
      simp only [List.cons_append, RunsClear, ih]
      constructor
      · rintro ⟨hclear, next, hrun, s, hs, hmore⟩
        exact ⟨s, ⟨hclear, next, hrun, hs⟩, hmore⟩
      · rintro ⟨s, ⟨hclear, next, hrun, hs⟩, hmore⟩
        exact ⟨hclear, next, hrun, s, hs, hmore⟩

theorem runsClear_singleton {t t' : FileTree α} {edit : Edit α} :
    RunsClear t [edit] t' ↔ edit.Clear t ∧ edit.run t = .ok t' := by
  simp [RunsClear]

/-- A clear run is a run. -/
theorem foldlM_run_of_runsClear {t t' : FileTree α} {edits : List (Edit α)}
    (h : RunsClear t edits t') : edits.foldlM Edit.run t = .ok t' := by
  induction edits generalizing t with
  | nil =>
      cases h
      rfl
  | cons edit edits ih =>
      obtain ⟨-, next, hrun, hrest⟩ := h
      rw [List.foldlM_cons, hrun]
      exact ih hrest

/-! ### The nodes after an edit -/

theorem ne_nil_of_node_eq_none {t : FileTree α} {p : RelPath} (h : t.node p = none) : p ≠ [] := by
  rintro rfl
  simp at h

theorem createDirAll_dropLast {t : FileTree α} {p : RelPath} (hp : p ≠ [])
    (h : ∀ q, q <+: p → q ≠ p → t.node q = none ∨ t.node q = some .dir) :
    ∃ t', t.createDirAll p.dropLast = .ok t' := by
  rw [createDirAll_eq_ok_iff]
  intro q hq
  obtain ⟨hpre, hne⟩ := (prefix_dropLast_iff hp).1 hq
  rcases h q hpre hne with h | h <;> simp [isFile, h]

theorem create_eq_ok {t : FileTree α} {p : RelPath} {a : α}
    (h : (Edit.create p a).Clear t) : ∃ t', (Edit.create p a).run t = .ok t' := by
  obtain ⟨habsent, hancestors⟩ := h
  have hp := ne_nil_of_node_eq_none habsent
  obtain ⟨s, hs⟩ := createDirAll_dropLast hp hancestors
  have hnode := node_createDirAll hs
  have habsent' : s.node p = none := by
    rw [hnode, if_neg (fun e => ((prefix_dropLast_iff hp).1 e).2 rfl), habsent]
  have hparent : s.node p.dropLast = some .dir := by simp [hnode]
  refine ⟨s.setFile p a hparent (by simp [habsent']), ?_⟩
  simp only [Edit.run, hs, Results.ok_bind]
  exact createNew_eq_ok_iff.2 ⟨habsent', hparent, node_setFile⟩

theorem node_run_create {t t' : FileTree α} {p : RelPath} {a : α}
    (h : (Edit.create p a).run t = .ok t') (q : RelPath) :
    t'.node q = if q = p then some (.file a) else if q <+: p then some .dir else t.node q := by
  obtain ⟨s, hs, hnew⟩ := Results.bind_eq_ok.1 h
  obtain ⟨habsent, -, hnode⟩ := createNew_eq_ok_iff.1 hnew
  have hp := ne_nil_of_node_eq_none habsent
  rw [hnode, node_createDirAll hs]
  by_cases hq : q = p
  · simp [hq]
  · simp only [prefix_dropLast_iff hp, ne_eq, hq, not_false_eq_true, and_true]

/-- A file is only created at a free place. -/
theorem node_eq_none_of_create {t t' : FileTree α} {p : RelPath} {a : α}
    (h : (Edit.create p a).run t = .ok t') : t.node p = none := by
  obtain ⟨s, hs, hnew⟩ := Results.bind_eq_ok.1 h
  obtain ⟨habsent, -, -⟩ := createNew_eq_ok_iff.1 hnew
  rw [node_createDirAll hs] at habsent
  split at habsent
  · cases habsent
  · exact habsent

theorem node_run_rewrite {t t' : FileTree α} {p : RelPath} {content : Option α → α}
    (h : (Edit.rewrite p content).run t = .ok t') (q : RelPath) :
    t'.node q = if q = p then some (.file (content (t.fileAt p))) else t.node q :=
  node_write h q

theorem rewrite_eq_ok {t : FileTree α} {p : RelPath} {content : Option α → α}
    (h : (Edit.rewrite p content).Clear t) : ∃ t', (Edit.rewrite p content).run t = .ok t' := by
  obtain ⟨a, ha⟩ := h
  exact write_eq_ok_of_file ha

theorem move_eq_ok {t : FileTree α} {source destination : RelPath}
    (h : (Edit.move source destination : Edit α).Clear t) (hinside : ¬ source <+: destination)
    (hancestors : ∀ q, q <+: destination → q ≠ destination →
      t.node q = none ∨ t.node q = some .dir) :
    ∃ t', (Edit.move source destination).run t = .ok t' := by
  obtain ⟨hsource, hfree⟩ := h
  have hd := ne_nil_of_node_eq_none hfree
  have hs : source ≠ [] := by
    rintro rfl
    exact hinside (List.nil_prefix)
  obtain ⟨s, hmk⟩ := createDirAll_dropLast hd hancestors
  have hnode := node_createDirAll hmk
  have hmovable : s.Movable source destination :=
    ⟨hs, hd, hinside, by simp [hnode]⟩
  refine ⟨s.moveTree source destination hmovable, ?_⟩
  simp only [Edit.run, hmk, Results.ok_bind]
  refine rename_eq_ok_of_free hmovable ?_ ?_
  · rw [hnode]
    split
    · rfl
    · exact hsource
  · rw [hnode, if_neg (fun e => ((prefix_dropLast_iff hd).1 e).2 rfl), hfree]

theorem node_run_move {t t' : FileTree α} {source destination : RelPath}
    (hclear : (Edit.move source destination : Edit α).Clear t)
    (h : (Edit.move source destination).run t = .ok t') (q : RelPath) :
    t'.node q =
      if destination <+: q then t.node (source ++ q.drop destination.length)
      else if source <+: q then none
      else if q <+: destination then some .dir
      else t.node q := by
  obtain ⟨hsource, hfree⟩ := hclear
  have hd := ne_nil_of_node_eq_none hfree
  obtain ⟨s, hmk, hrename⟩ := Results.bind_eq_ok.1 h
  have hnode := node_createDirAll hmk
  have hne : source ≠ destination := by
    rintro rfl
    simp [hfree] at hsource
  have hfree' : s.node destination = none := by
    rw [hnode, if_neg (fun e => ((prefix_dropLast_iff hd).1 e).2 rfl), hfree]
  have hmovable : s.Movable source destination := by
    by_contra hnot
    simp only [rename, hne, false_and, if_false, dif_neg hnot] at hrename
    split at hrename <;> cases hrename
  have hsource' : (s.node source).isSome := by
    rw [hnode]
    split
    · rfl
    · exact hsource
  rw [rename_eq_ok_of_free hmovable hsource' hfree'] at hrename
  cases hrename
  rw [node_moveTree, movedNodes]
  by_cases hdq : destination <+: q
  · rw [if_pos hdq, if_pos hdq, hnode, if_neg]
    intro e
    exact hmovable.not_inside
      (((List.prefix_append _ _).trans e).trans (List.dropLast_prefix _))
  · have hqd : q <+: destination.dropLast ↔ q <+: destination := by
      rw [prefix_dropLast_iff hd]
      exact ⟨fun e => e.1, fun e => ⟨e, fun e' => hdq (e' ▸ List.prefix_rfl)⟩⟩
    simp only [if_neg hdq, hnode, hqd]

/-! ### Following files through edits -/

namespace Edit

/-- Where a file is after an edit, and with which content. -/
def replay : Edit α → RelPath × α → RelPath × α
  | create _ _, file => file
  | rewrite path content, file =>
      if file.1 = path then (file.1, content (some file.2)) else file
  | move source destination, file => (movePath source destination file.1, file.2)

/-- The files an edit adds. -/
def created : Edit α → List (RelPath × α)
  | create path content => [(path, content)]
  | rewrite _ _ | move _ _ => []

end Edit

def replayAll (edits : List (Edit α)) (file : RelPath × α) : RelPath × α :=
  edits.foldl (fun file edit => edit.replay file) file

/-- The files a run of edits adds, where they are at its end. -/
def createdBy : List (Edit α) → List (RelPath × α)
  | [] => []
  | edit :: edits => edit.created.map (replayAll edits) ++ createdBy edits

theorem replayAll_append (edits more : List (Edit α)) (file : RelPath × α) :
    replayAll (edits ++ more) file = replayAll more (replayAll edits file) := by
  simp [replayAll]

theorem createdBy_append (edits more : List (Edit α)) :
    createdBy (edits ++ more) = (createdBy edits).map (replayAll more) ++ createdBy more := by
  induction edits with
  | nil => rfl
  | cons edit edits ih =>
      simp only [List.cons_append, createdBy, ih, List.map_append, List.map_map,
        List.append_assoc]
      congr 1
      refine List.map_congr_left fun file _ => ?_
      exact replayAll_append edits more file

theorem movePath_of_within {source destination rest : RelPath} :
    movePath source destination (source ++ rest) = destination ++ rest := by
  simp [movePath]

theorem movePath_of_outside {source destination p : RelPath} (h : ¬ source <+: p) :
    movePath source destination p = p := by
  simp [movePath, h]

/-- Below a free place there is nothing. -/
theorem not_prefix_of_free {t : FileTree α} {p q : RelPath} (hfree : t.node p = none)
    (hq : (t.node q).isSome) : ¬ p <+: q := by
  intro h
  by_cases e : p = q
  · simp [← e, hfree] at hq
  · simp [node_of_isPrefix h e hq] at hfree

theorem movePath_inj {t : FileTree α} {source destination p q : RelPath}
    (hfree : t.node destination = none) (hp : (t.node p).isSome) (hq : (t.node q).isSome)
    (h : movePath source destination p = movePath source destination q) : p = q := by
  have hnp := not_prefix_of_free hfree hp
  have hnq := not_prefix_of_free hfree hq
  by_cases hsp : source <+: p <;> by_cases hsq : source <+: q
  · obtain ⟨rest, rfl⟩ := hsp
    obtain ⟨rest', rfl⟩ := hsq
    simpa [movePath_of_within] using h
  · obtain ⟨rest, rfl⟩ := hsp
    rw [movePath_of_within, movePath_of_outside hsq] at h
    exact absurd ⟨rest, h⟩ hnq
  · obtain ⟨rest, rfl⟩ := hsq
    rw [movePath_of_within, movePath_of_outside hsp] at h
    exact absurd ⟨rest, h.symm⟩ hnp
  · rwa [movePath_of_outside hsp, movePath_of_outside hsq] at h

theorem not_isFile_above_destination {t t' : FileTree α} {source destination q : RelPath}
    (hclear : (Edit.move source destination : Edit α).Clear t)
    (h : (Edit.move source destination).run t = .ok t') (hq : q <+: destination) :
    t.isFile q = false := by
  have hd := ne_nil_of_node_eq_none hclear.2
  obtain ⟨s, hmk, -⟩ := Results.bind_eq_ok.1 h
  by_cases e : q = destination
  · simp [isFile, e, hclear.2]
  · exact createDirAll_eq_ok_iff.1 ⟨s, hmk⟩ q ((prefix_dropLast_iff hd).2 ⟨hq, e⟩)

theorem file_run_move_iff {t t' : FileTree α} {source destination : RelPath}
    (hclear : (Edit.move source destination : Edit α).Clear t)
    (h : (Edit.move source destination).run t = .ok t') {q : RelPath} {a : α} :
    t'.node q = some (.file a) ↔
      ∃ p, t.node p = some (.file a) ∧ movePath source destination p = q := by
  rw [node_run_move hclear h]
  constructor
  · intro hq
    split at hq
    · rename_i hd
      obtain ⟨rest, rfl⟩ := hd
      rw [List.drop_left] at hq
      exact ⟨source ++ rest, hq, movePath_of_within⟩
    · split at hq
      · cases hq
      · rename_i hs
        split at hq
        · simp at hq
        · exact ⟨q, hq, movePath_of_outside hs⟩
  · rintro ⟨p, hp, rfl⟩
    by_cases hs : source <+: p
    · obtain ⟨rest, rfl⟩ := hs
      simpa [movePath_of_within] using hp
    · rw [movePath_of_outside hs, if_neg (not_prefix_of_free hclear.2 (by simp [hp])),
        if_neg hs, if_neg, hp]
      intro hd
      have := not_isFile_above_destination hclear h hd
      simp [isFile, hp] at this

theorem mem_files_run {t t' : FileTree α} {edit : Edit α} (hclear : edit.Clear t)
    (h : edit.run t = .ok t') {file : RelPath × α} :
    file ∈ t'.files ↔ file ∈ t.files.map edit.replay ∨ file ∈ edit.created := by
  obtain ⟨q, a⟩ := file
  simp only [List.mem_map, Prod.exists, mem_files]
  cases edit with
  | create path content =>
      obtain ⟨habsent, hancestors⟩ := hclear
      rw [node_run_create h]
      simp only [Edit.replay, Edit.created, List.mem_singleton, Prod.mk.injEq]
      by_cases hq : q = path
      · subst hq
        simp [habsent, eq_comm]
      · by_cases hpre : q <+: path
        · rcases hancestors q hpre hq with e | e <;> simp [hq, hpre, e]
        · simp [hq, hpre]
  | rewrite path content =>
      obtain ⟨old, hold⟩ := hclear
      rw [node_run_rewrite h, fileAt_eq_some_iff.2 hold]
      simp only [Edit.replay, Edit.created, List.not_mem_nil, or_false]
      by_cases hq : q = path
      · subst hq
        simp only [if_true, Option.some.injEq, Node.file.injEq]
        constructor
        · rintro rfl
          exact ⟨q, old, hold, by simp⟩
        · rintro ⟨p, b, hp, e⟩
          by_cases hpq : p = q
          · subst hpq
            rw [hold] at hp
            simp only [Option.some.injEq, Node.file.injEq] at hp
            subst hp
            simpa using e
          · simp [hpq] at e
      · simp only [if_neg hq]
        constructor
        · intro hfile
          exact ⟨q, a, hfile, by simp [hq]⟩
        · rintro ⟨p, b, hp, e⟩
          by_cases hpp : p = path
          · simp only [hpp, if_true, Prod.mk.injEq] at e
            exact absurd e.1.symm hq
          · simp only [if_neg hpp, Prod.mk.injEq] at e
            rw [← e.1, ← e.2, hp]
  | move source destination =>
      rw [file_run_move_iff hclear h]
      simp [Edit.replay, Edit.created]

theorem replay_inj {t : FileTree α} {edit : Edit α} (hclear : edit.Clear t)
    {file file' : RelPath × α} (hfile : file ∈ t.files) (hfile' : file' ∈ t.files)
    (h : (edit.replay file).1 = (edit.replay file').1) : file = file' := by
  obtain ⟨p, a⟩ := file
  obtain ⟨q, b⟩ := file'
  rw [mem_files] at hfile hfile'
  have hpq : p = q := by
    cases edit with
    | create path content => exact h
    | rewrite path content =>
        simp only [Edit.replay] at h
        split at h <;> split at h <;> exact h
    | move source destination =>
        exact movePath_inj hclear.2 (by simp [hfile]) (by simp [hfile']) h
  subst hpq
  rw [hfile] at hfile'
  simpa using hfile'

/-- After a clear edit the files are those from before, followed through it, and
the one it created. -/
theorem files_perm_run {t t' : FileTree α} {edit : Edit α} (hclear : edit.Clear t)
    (h : edit.run t = .ok t') : t'.files.Perm (t.files.map edit.replay ++ edit.created) := by
  have hmap : (t.files.map edit.replay).Nodup :=
    List.Nodup.map_on (fun file hfile file' hfile' e =>
      replay_inj hclear hfile hfile' (congrArg Prod.fst e)) t.nodup_files
  rw [List.perm_ext_iff_of_nodup t'.nodup_files]
  · intro file
    rw [mem_files_run hclear h, List.mem_append]
  · cases edit with
    | create path content =>
        refine hmap.append (by simp [Edit.created]) ?_
        intro file hfile hnew
        simp only [Edit.created, List.mem_singleton] at hnew
        subst hnew
        simp only [Edit.replay, List.mem_map, mem_files, Prod.exists] at hfile
        obtain ⟨p, a, hp, e⟩ := hfile
        cases e
        simp [hclear.1] at hp
    | rewrite path content => simpa [Edit.created] using hmap
    | move source destination => simpa [Edit.created] using hmap

theorem files_perm_of_runsClear {t t' : FileTree α} {edits : List (Edit α)}
    (h : RunsClear t edits t') :
    t'.files.Perm (t.files.map (replayAll edits) ++ createdBy edits) := by
  induction edits generalizing t with
  | nil =>
      cases h
      rw [show replayAll ([] : List (Edit α)) = id from rfl]
      simp [createdBy]
  | cons edit edits ih =>
      obtain ⟨hclear, next, hrun, hrest⟩ := h
      refine (ih hrest).trans ?_
      have hstep := ((files_perm_run hclear hrun).map (replayAll edits)).append_right
        (createdBy edits)
      refine hstep.trans (List.Perm.of_eq ?_)
      simp only [List.map_append, List.map_map, createdBy, List.append_assoc]
      rfl

end FileTree
