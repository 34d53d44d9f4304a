import AgentKnowledge.Lib.Alignment
import AgentKnowledge.Lib.EditGraph
import AgentKnowledge.Lib.Json
import AgentKnowledge.Lib.Results
import AgentKnowledge.Lib.Text

/-!
Line differences (`crates/gateway/src/read/inspect/diff.rs`).

`hunks` trims what two texts have in common at both ends, searches the edit graph of the
rest (`changes`), walks back through the saved frontiers (`reconstruct`), widens the
changed ranges by context lines and collects hunks while the limits allow it. The
frontier is a vector around `center` in the source; here it is indexed by the diagonal.
Deadlines are left out: an expired one turns the whole call into an error.
-/

namespace AgentKnowledge

open Alignment EditGraph Results

/-- One changed range of lines. -/
structure BodyDiff where
  fromLine : Nat
  toLine : Nat
  removed : List Char
  added : List Char
deriving DecidableEq

/-- Why a concise difference omits some changes. -/
inductive DiffTruncation where
  | inputLineLimit
  | computationLimit
  | hunkLimit
  | byteLimit
deriving DecidableEq

/-- Bounded, line-preserving changed ranges with local context. -/
structure BodyHunks where
  changed : Bool
  hunks : List BodyDiff
  truncated : Bool
  truncationReason : Option DiffTruncation
deriving DecidableEq

/-! ### JSON -/

def BodyDiff.json (diff : BodyDiff) : Json.Value :=
  Json.object [("from_line", Json.number diff.fromLine), ("to_line", Json.number diff.toLine),
    ("removed", Json.string diff.removed), ("added", Json.string diff.added)]

def DiffTruncation.name : DiffTruncation → String
  | .inputLineLimit => "input_line_limit"
  | .computationLimit => "computation_limit"
  | .hunkLimit => "hunk_limit"
  | .byteLimit => "byte_limit"

def DiffTruncation.json : Option DiffTruncation → Json.Value
  | none => Json.null
  | some reason => Json.string reason.name.toList

def BodyHunks.json (body : BodyHunks) : Json.Value :=
  Json.object [("changed", Json.bool body.changed), ("hunks", Json.array (body.hunks.map BodyDiff.json)),
    ("truncated", Json.bool body.truncated),
    ("truncation_reason", DiffTruncation.json body.truncationReason)]

namespace Diff

def maximumLines : Nat := 20000

def maximumTraceCells : Nat := 1000000

def maximumWork : Nat := 1000000

/-! ### The search -/

section Search

variable {α : Type} [DecidableEq α]

/-- The frontier and the work done so far. -/
structure Search where
  frontier : Int → Int
  work : Nat

/-- Why the search leaves its loops. -/
inductive SearchEnd where
  | limit
  | arrived
deriving DecidableEq

/-- The diagonals of a round, `(-depth..=depth).step_by(2)`. -/
def diagonals (depth : Nat) : List Int :=
  (List.range (depth + 1)).map fun i : Nat => -(depth : Int) + 2 * (i : Int)

/-- The body of the inner loop of `changes`. -/
def visit (old new : List α) (distance : Nat) (s : Search) (diagonal : Int) :
    Except SearchEnd Search := do
  rejectIf (maximumWork < s.work + 1) .limit
  let x := origin s.frontier distance diagonal
  let y := x - diagonal
  -- every equal element is one more unit of work
  let equal := run old new x y
  rejectIf (maximumWork < s.work + 1 + equal) .limit
  rejectIf (x + equal = old.length ∧ y + equal = new.length) .arrived
  pure ⟨Function.update s.frontier diagonal (x + equal), s.work + 1 + equal⟩

/-- The outer loop of `changes`, with the rounds that are left; the trace if the end is
found. -/
def search (old new : List α) (width : Nat) : Nat → List (Int → Int) → Search → Option (List (Int → Int))
  | 0, _, _ => none
  | rounds + 1, trace, s =>
      if maximumTraceCells < (trace.length + 1) * width then none
      else
        match (diagonals trace.length).foldlM (visit old new trace.length) s with
        | .error .limit => none
        | .error .arrived => some (trace ++ [s.frontier])
        | .ok s' => search old new width rounds (trace ++ [s.frontier]) s'

/-- The inner loop of `reconstruct`: the equal elements behind a point, last one first. -/
def retreat (x y previousX previousY : Int) : List (Nat × Nat) :=
  (List.range (min (x - previousX) (y - previousY)).toNat).map fun i : Nat =>
    ((x - 1 - (i : Int)).toNat, (y - 1 - (i : Int)).toNat)

/-- The outer loop of `reconstruct`, over the trace from its end. -/
def backtrack : List (Int → Int) → Int → Int → List (Nat × Nat)
  | [], _, _ => []
  | frontier :: earlier, x, y =>
      let previous := parent frontier earlier.length (x - y)
      let previousX := frontier previous
      let previousY := previousX - previous
      retreat x y previousX previousY ++ backtrack earlier previousX previousY

/-- The ranges between matches. -/
def rangesBetween (offset a b : Nat) : List (Nat × Nat) → List Span
  | [] => []
  | (x, y) :: rest =>
      if a < x ∨ b < y then
        ⟨offset + a, offset + x, offset + b, offset + y⟩ :: rangesBetween offset (x + 1) (y + 1) rest
      else rangesBetween offset (x + 1) (y + 1) rest

def reconstruct (oldLength newLength offset : Nat) (trace : List (Int → Int)) : List Span :=
  rangesBetween offset 0 0
    ((backtrack trace.reverse oldLength newLength).reverse ++ [(oldLength, newLength)])

def changes (old new : List α) (offset : Nat) : Option (List Span) :=
  let maximumDistance := min (old.length + new.length) 1024
  let width := 2 * maximumDistance + 3
  (search old new width (maximumDistance + 1) [] ⟨fun _ => 0, 0⟩).map
    (reconstruct old.length new.length offset)

/-- The changed ranges, before context is added. -/
def ranges (old new : List α) : Option (List Span) :=
  let front := agreement old new
  let back := agreement (old.drop front).reverse (new.drop front).reverse
  let oldEnd := old.length - back
  let newEnd := new.length - back
  if oldEnd - front = 0 ∨ newEnd - front = 0 then some [⟨front, oldEnd, front, newEnd⟩]
  else changes (slice old front oldEnd) (slice new front newEnd) front

end Search

/-! ### Hunks -/

def expand (context oldLength newLength : Nat) (range : Span) : Span where
  oldStart := range.oldStart - context
  oldEnd := min (range.oldEnd + context) oldLength
  newStart := range.newStart - context
  newEnd := min (range.newEnd + context) newLength

/-- The loop over the expanded ranges; `last` is the last of `merged`. -/
def merge (last : Span) : List Span → List Span
  | [] => [last]
  | range :: rest =>
      if range.oldStart ≤ last.oldEnd ∨ range.newStart ≤ last.newEnd then
        merge { last with oldEnd := range.oldEnd, newEnd := range.newEnd } rest
      else last :: merge range rest

def mergeAll : List Span → List Span
  | [] => []
  | range :: rest => merge range rest

def truncate (result : BodyHunks) (reason : DiffTruncation) : BodyHunks :=
  { result with truncated := true, truncationReason := some reason }

def hunkOf (old new : List (List Char)) (range : Span) : BodyDiff where
  fromLine := range.oldStart + 1
  toLine := range.newStart + 1
  removed := (slice old range.oldStart range.oldEnd).flatten
  added := (slice new range.newStart range.newEnd).flatten

def push (result : BodyHunks) (hunk : BodyDiff) : BodyHunks :=
  { result with hunks := result.hunks ++ [hunk] }

/-- The loop over the merged ranges. -/
def collect (old new : List (List Char)) (maximumHunks maximumBytes : Nat) (result : BodyHunks) :
    List Span → BodyHunks
  | [] => result
  | range :: rest =>
      let hunk := hunkOf old new range
      let pushed := push result hunk
      if result.hunks.length = maximumHunks then truncate result .hunkLimit
      else if maximumBytes < Json.size hunk.removed + Json.size hunk.added then
        truncate result .byteLimit
      -- room for the longest truncation reason is kept
      else if maximumBytes < Json.size pushed.json + 32 then truncate result .byteLimit
      else collect old new maximumHunks maximumBytes pushed rest

def linesOf (text : List Char) : List (List Char) := Text.splitInclusive '\n' text

def hunks (before after : List Char) (context maximumHunks maximumBytes : Nat) : BodyHunks :=
  let result : BodyHunks := ⟨before ≠ after, [], false, none⟩
  if before = after then result
  else
    let old := (linesOf before).take (maximumLines + 1)
    let new := (linesOf after).take (maximumLines + 1)
    if maximumLines < old.length ∨ maximumLines < new.length then truncate result .inputLineLimit
    else
      match ranges old new with
      | none => truncate result .computationLimit
      | some found =>
          collect old new maximumHunks maximumBytes result
            (mergeAll (found.map (expand context old.length new.length)))

end Diff

end AgentKnowledge
