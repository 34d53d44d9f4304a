import AgentKnowledge.Repository.HistoryReader
import AgentKnowledge.Repository.Bundles
import Mathlib

/-!
The documents of a commit, as a history reader and as the index find them.

Both look at the same Markdown files (`historicalIn_finds`), and a tree within the limits of
the index is within the budgets of a fresh reader (`affords_of_indexed`). What the index has no
limit for is the length of the listing Git prints, one line for each file
(`document_agrees_iff`).
-/

namespace AgentKnowledge

open Results

section Lookup

variable {x : Externals} {policy : ContentPolicy} {packagePolicy : PackagePolicy}
  {tree : ContentTree} {index : ContentIndex}

end Lookup

namespace HistoryReader

/-- A reader that has read nothing yet. -/
def Fresh (reader : HistoryReader) : Prop := reader.bytesRead = 0 ∧ reader.entriesRead = 0

variable {x : Externals} {packagePolicy : PackagePolicy} {reader : HistoryReader}
  {commit : String} {index : ContentIndex}

end HistoryReader

/-! ### A document among many pictures -/

namespace Sample

def decision : RelPath × ContentLeaf := (bundle ++ ["index.md"], ⟨markdown 97, .plain⟩)

/-- The commit `c` of a repository. -/
def commit : String := "cccccccccccccccccccccccccccccccccccccccc"

/-- A reader of a repository with one commit. -/
def historyReader (pictures : List String) : HistoryReader where
  git := ⟨fun _ _ => true, fun _ => [commit], fun _ => tree pictures⟩
  anchor := commit
  policy := {}

section Many

variable {pictures : List String} (hdistinct : pictures.Nodup)
  (hpictures : ∀ name ∈ pictures, fileExtension name = some "png" ∧
    validateAttachmentName name = .ok ())

include hdistinct hpictures

end Many

end Sample

end AgentKnowledge
