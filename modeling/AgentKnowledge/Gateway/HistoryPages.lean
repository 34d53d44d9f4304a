import AgentKnowledge.Gateway.Inspect
import AgentKnowledge.Lib.Pages
import AgentKnowledge.Repository.Conflict

/-!
Pages of a document's history.

`history` stops after a hundred commits or when it has enough entries. Both ways the next
page starts at the first commit that was not looked at (`scanCommits_spec`), so along a
linear ancestry the pages are those of `Pages.follow_exact`.
-/

namespace AgentKnowledge

open HistoryReader Pages Results

/-- A linear ancestry, newest commit first: what Git says about it. -/
structure GitObjects.Linear (git : GitObjects) (anchor : String) (chain : List String) : Prop where
  head : chain.head? = some anchor
  names : ∀ commit ∈ chain,
    commit.utf8ByteSize = anchor.utf8ByteSize ∧ commit.toList.all isLowercaseHex
  ancestor : ∀ commit ∈ chain, git.isAncestor commit anchor
  firstParents : ∀ commit earlier, commit :: earlier <:+ chain →
    git.firstParents commit = commit :: earlier

section Entries

variable (x : Externals) (policy : ContentPolicy) (git : GitObjects) (id : DocumentId)

/-- The document at a commit. -/
def documentAt (commit : String) : Option HistoricalDocument :=
  historicalIn x policy id (git.tree commit)

/-- The entry of a commit: the document exists there, and differs in revision or path from
the one at the first parent or has none there. -/
def entryAt (commit : String) : Option HistoryEntry :=
  changeAt commit (documentAt x policy git id commit)
    ((git.firstParents commit).tail.head?.bind (documentAt x policy git id))

end Entries

section Scan

variable {x : Externals} {reader : HistoryReader} {git : GitObjects} {anchor : String}
  {policy : ContentPolicy} {chain : List String} {id : DocumentId}

/-- A reader of a linear ancestry whose trees are in order. -/
structure Reads (x : Externals) (git : GitObjects) (anchor : String) (policy : ContentPolicy)
    (chain : List String) (id : DocumentId) (reader : HistoryReader) : Prop where
  linear : git.Linear anchor chain
  orderly : ∀ commit ∈ chain, OrderlyMarkdown x policy id (git.tree commit).files
  alike : Alike { git, anchor, policy } reader

theorem Reads.next {reader' : HistoryReader} (h : Reads x git anchor policy chain id reader)
    (halike : Alike reader reader') : Reads x git anchor policy chain id reader' :=
  ⟨h.linear, h.orderly, h.alike.trans halike⟩

theorem Reads.validateCommit (h : Reads x git anchor policy chain id reader) {commit : String}
    (hcommit : commit ∈ chain) : reader.validateCommit commit = .ok () := by
  rw [validateCommit_eq_ok, h.alike.git, h.alike.anchor]
  exact ⟨(h.linear.names commit hcommit).1, (h.linear.names commit hcommit).2,
    h.linear.ancestor commit hcommit⟩

/-- The errors of a page that ran out of budget. -/
def OutOfBudget (error : GatewayError) : Prop :=
  ∃ e : CommittedReadError, e.IsBudget ∧ error = committed e

theorem Reads.document (h : Reads x git anchor policy chain id reader) {commit : String}
    (hcommit : commit ∈ chain) :
    (∃ e, OutOfBudget e ∧ (reader.document x commit id).mapError committed = .error e) ∨
      ∃ reader', Reads x git anchor policy chain id reader' ∧
        (reader.document x commit id).mapError committed =
          .ok (reader', documentAt x policy git id commit) := by
  cases hread : reader.document x commit id with
  | error e =>
      have hbudget := document_eq_error (h.validateCommit hcommit)
        (by rw [h.alike.policy, h.alike.git]; exact h.orderly commit hcommit) hread
      exact .inl ⟨committed e, ⟨e, hbudget, rfl⟩, rfl⟩
  | ok found =>
      obtain ⟨reader', document⟩ := found
      obtain ⟨halike, hdocument⟩ := document_eq_ok hread
      rw [h.alike.policy, h.alike.git] at hdocument
      exact .inr ⟨reader', h.next halike, by rw [hdocument]; rfl⟩

theorem Reads.documentBefore (h : Reads x git anchor policy chain id reader)
    {commit : Option String} (hcommit : ∀ c ∈ commit, c ∈ chain) :
    (∃ e, OutOfBudget e ∧ reader.documentBefore x id commit = .error e) ∨
      ∃ reader', Reads x git anchor policy chain id reader' ∧
        reader.documentBefore x id commit =
          .ok (reader', commit.bind (documentAt x policy git id)) := by
  cases commit with
  | none => exact .inr ⟨reader, h, rfl⟩
  | some commit => exact h.document (hcommit commit rfl)

theorem entryAt_cons (hlinear : git.Linear anchor chain) {commit : String} {earlier : List String}
    (hsuffix : commit :: earlier <:+ chain) :
    entryAt x policy git id commit =
      changeAt commit (documentAt x policy git id commit)
        (earlier.head?.bind (documentAt x policy git id)) := by
  rw [entryAt, hlinear.firstParents commit earlier hsuffix, List.tail_cons]

/-- The loop covers a stretch of the ancestry, and stops before the commit it names. -/
theorem scanCommits_spec (maximum rounds : Nat) {left : List String} (entries : List HistoryEntry)
    (h : Reads x git anchor policy chain id reader) (hleft : left <:+ chain) :
    (∃ e, OutOfBudget e ∧
      scanCommits x id maximum rounds (left.take (rounds + 1)) reader
        (left.head?.bind (documentAt x policy git id)) entries = .error e) ∨
    ∃ count, (0 < rounds → left ≠ [] → 0 < count) ∧
      scanCommits x id maximum rounds (left.take (rounds + 1)) reader
        (left.head?.bind (documentAt x policy git id)) entries =
          .ok (entries ++ (left.take count).filterMap (entryAt x policy git id),
            (left.drop count).head?) := by
  induction rounds generalizing left entries reader with
  | zero =>
      refine .inr ⟨0, by simp, ?_⟩
      cases left <;> simp [scanCommits]
  | succ rounds ih =>
      cases left with
      | nil => exact .inr ⟨0, by simp, by simp [scanCommits]⟩
      | cons commit earlier =>
          have hearlier : earlier <:+ chain := (List.suffix_cons commit earlier).trans hleft
          have hhead : (earlier.take (rounds + 1)).head? = earlier.head? := by
            cases earlier <;> rfl
          have hparent : ∀ c ∈ earlier.head?, c ∈ chain := fun c hc =>
            hearlier.subset (List.mem_of_mem_head? hc)
          simp only [List.take_succ_cons, scanCommits, hhead, List.head?_cons, Option.bind_some]
          rcases h.documentBefore hparent with ⟨e, he, hprevious⟩ | ⟨next, hnext, hprevious⟩
          · exact .inl ⟨e, he, by rw [hprevious]; rfl⟩
          rw [hprevious]
          simp only [ok_bind]
          rw [← entryAt_cons h.linear hleft]
          -- enough entries, or one more round
          split
          · refine .inr ⟨1, by simp, ?_⟩
            cases hentry : entryAt x policy git id commit <;> simp [hentry]
          · rcases ih _ hnext hearlier with ⟨e, he, hrest⟩ | ⟨count, -, hrest⟩
            · exact .inl ⟨e, he, hrest⟩
            · refine .inr ⟨count + 1, by simp, ?_⟩
              rw [hrest]
              cases hentry : entryAt x policy git id commit <;> simp [hentry]

end Scan

section Pagination

variable (x : Externals) (git : GitObjects) (anchor : String) (policy : ContentPolicy)
  (id : DocumentId)

/-- A page of the history under an anchor, read with a fresh budget. -/
def historyPage (maximum : Nat) (cursor : Option String) :
    Except GatewayError (List HistoryEntry × Option String) := do
  let page ← HistoryReader.history x { git, anchor, policy } id cursor maximum
  pure (page.entries, page.nextCursor)

end Pagination

section Exact

variable {x : Externals} {git : GitObjects} {anchor : String} {policy : ContentPolicy}
  {chain : List String} {id : DocumentId}

theorem historyPage_serves (hlinear : git.Linear anchor chain)
    (horderly : ∀ commit ∈ chain, OrderlyMarkdown x policy id (git.tree commit).files)
    (hpresent : (documentAt x policy git id anchor).isSome) (maximum : Nat) :
    Serves (historyPage x git anchor policy id maximum) chain (entryAt x policy git id)
      OutOfBudget := by
  intro cursor left hleft
  have hreads : Reads x git anchor policy chain id { git, anchor, policy } :=
    ⟨hlinear, horderly, .refl _⟩
  have hanchor : anchor ∈ chain := List.mem_of_mem_head? (by simp [hlinear.head])
  obtain ⟨document, hdocument⟩ := Option.isSome_iff_exists.1 hpresent
  obtain ⟨commit, earlier, rfl⟩ : ∃ commit earlier, left = commit :: earlier :=
    List.exists_cons_of_ne_nil hleft.nonempty
  have hcommit : commit ∈ chain := hleft.suffix.subset List.mem_cons_self
  have hstart : cursor.getD anchor = commit := by
    rcases hleft.start with ⟨rfl, hwhole⟩ | hcursor
    · have := hlinear.head
      rw [← hwhole] at this
      simpa using this.symm
    · simp [hcursor]
  unfold historyPage HistoryReader.history
  rcases hreads.document hanchor with ⟨e, he, hread⟩ | ⟨reader, hreader, hread⟩
  · exact .inl ⟨e, he, by rw [hread]; rfl⟩
  have hcommits : reader.commits cursor (historyScanCommits + 1) =
      .ok ((commit :: earlier).take (historyScanCommits + 1)) := by
    simp [commits, historyScanCommits, hreader.alike.anchor, hstart,
      hreader.validateCommit hcommit, hreader.alike.git,
      hlinear.firstParents commit earlier hleft.suffix]
  have hhead : ((commit :: earlier).take (historyScanCommits + 1)).head? = some commit := rfl
  rw [hread]
  simp only [ok_bind, hdocument, Option.isNone_some, Bool.false_eq_true, rejectIf_false, hcommits,
    Except.mapError, hhead]
  have hhere : ∀ c ∈ some commit, c ∈ chain := by simp [hcommit]
  rcases hreader.documentBefore hhere with ⟨e, he, hcurrent⟩ | ⟨next, hnext, hcurrent⟩
  · exact .inl ⟨e, he, by rw [hcurrent]; rfl⟩
  rw [hcurrent]
  rcases scanCommits_spec maximum historyScanCommits [] hnext hleft.suffix with
    ⟨e, he, hscan⟩ | ⟨count, hcount, hscan⟩
  · refine .inl ⟨e, he, ?_⟩
    simp only [List.head?_cons] at hscan
    simp only [ok_bind, hscan]
    rfl
  · refine .inr ⟨count, hcount (by decide) (by simp), ?_⟩
    simp only [List.head?_cons] at hscan
    simp only [ok_bind, hscan]
    rfl

/-- Following the cursors of a document's history under one anchor ends, and gives exactly
the entries of the ancestry from newest to oldest, unless a page runs out of budget. How many
entries a page may have makes no difference. -/
theorem history_pages_exact (hlinear : git.Linear anchor chain)
    (horderly : ∀ commit ∈ chain, OrderlyMarkdown x policy id (git.tree commit).files)
    (hpresent : (documentAt x policy git id anchor).isSome) (maximum fuel : Nat)
    (hfuel : chain.length ≤ fuel) :
    (∃ e, OutOfBudget e ∧
      follow (historyPage x git anchor policy id maximum) fuel none = .error e) ∨
    follow (historyPage x git anchor policy id maximum) fuel none =
      .ok (some (chain.filterMap (entryAt x policy git id))) := by
  have hchain : chain ≠ [] := by
    rintro rfl
    simpa using hlinear.head
  exact follow_exact (historyPage_serves hlinear horderly hpresent maximum) hchain hfuel

end Exact

namespace Sample

/-- Three commits: before the decision, with it, and with a picture beside it. -/
def ancestry : List String := ["c", "b", "a"]

def objects : GitObjects where
  isAncestor commit _ := commit ∈ ancestry
  firstParents commit := ancestry.dropWhile (· != commit)
  tree commit :=
    if commit = "c" then tree ["a.png"] else if commit = "b" then tree [] else .ofFiles []

theorem objects_linear : objects.Linear "c" ancestry where
  head := rfl
  names := by decide
  ancestor := by decide
  firstParents := by
    intro commit earlier hsuffix
    simp only [ancestry, List.suffix_cons_iff, List.cons.injEq, List.suffix_nil,
      reduceCtorEq, or_false] at hsuffix
    obtain ⟨rfl, rfl⟩ | ⟨rfl, rfl⟩ | ⟨rfl, rfl⟩ := hsuffix <;> decide

theorem objects_orderly : ∀ commit ∈ ancestry,
    OrderlyMarkdown (externals moveAndAttach) {} document (objects.tree commit).files := by
  have hvalid : ∀ pictures ∈ [[], ["a.png"]],
      OrderlyMarkdown (externals moveAndAttach) {} document (tree pictures).files :=
    fun pictures hpictures =>
      .of_filesValid document (build_eq_ok_iff.1 (tree_indexed pictures hpictures)).2.1
  intro commit hcommit
  simp only [ancestry, List.mem_cons, List.not_mem_nil, or_false] at hcommit
  obtain rfl | rfl | rfl := hcommit
  · exact hvalid ["a.png"] (by simp)
  · exact hvalid [] (by simp)
  · have hempty : (objects.tree "a").files = [] := by decide
    rw [hempty]
    exact ⟨by simp, by simp, by simp⟩

/-- One entry a page: the commit that added the decision is found once. -/
theorem history_pages_sample :
    follow (historyPage (externals moveAndAttach) objects "c" {} document 1) 3 none =
        .ok (some (ancestry.filterMap (entryAt (externals moveAndAttach) {} objects document))) ∧
      (ancestry.filterMap (entryAt (externals moveAndAttach) {} objects document)).map
        HistoryEntry.commit = ["b"] := by
  refine ⟨?_, by decide +kernel⟩
  rcases history_pages_exact objects_linear objects_orderly (by decide +kernel) 1 3
    (by decide) with ⟨e, -, herror⟩ | hok
  · have hrun : (follow (historyPage (externals moveAndAttach) objects "c" {} document 1) 3
        none).isOk := by decide +kernel
    simp [herror, Except.isOk, Except.toBool] at hrun
  · exact hok

end Sample

end AgentKnowledge
