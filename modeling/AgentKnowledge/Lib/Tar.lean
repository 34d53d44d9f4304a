import AgentKnowledge.Lib.Bytes
import AgentKnowledge.Lib.Results
import Mathlib

/-!
Tar archives, as a program sees them through a library.

A `Format` writes records one after another and ends the archive (`build`), and reads an
archive back as entries. Three laws are asked of it: a record with a plain name and the
size of its bytes can be written, what was written so is read back, and an entry with fewer
bytes than its header says is cut off by the end of the archive.

Paths are compared as `std::path` compares them, by `components`: several spellings are one
path. A plain name is its own only component (`components_plain`).
-/

namespace Tar

open Results

/-- The components of a path. Empty parts do not count, nor does a dot after the first part;
a leading slash is a component of its own. -/
def components (path : String) : List String :=
  match (path.toList.splitOn '/').map String.ofList with
  | [] => []
  | first :: rest =>
      (if first ≠ "" then [first] else if path = "" then [] else ["/"]) ++
        rest.filter fun part => part ≠ "" && part ≠ "."

/-- A name that is stored as it is. -/
structure Plain (name : String) : Prop where
  nonempty : name ≠ ""
  slash : '/' ∉ name.toList
  nul : Char.ofNat 0 ∉ name.toList

theorem components_plain {name : String} (h : Plain name) : components name = [name] := by
  have hsplit : name.toList.splitOn '/' = [name.toList] :=
    List.splitOn_eq_singleton h.slash
  simp [components, hsplit, h.nonempty]

inductive EntryType where
  | regular
  | other
deriving DecidableEq

/-- The fields of a header that a writer sets. -/
structure Header where
  entryType : EntryType
  mode : Nat
  uid : Nat
  gid : Nat
  mtime : Nat
  size : Nat
deriving DecidableEq

/-- What a writer appends. -/
structure Record where
  header : Header
  name : String
  bytes : Bytes
deriving DecidableEq

/-- What a reader finds. A path that is not UTF-8 has no text. -/
structure Entry where
  entryType : EntryType
  path : Option String
  size : Nat
  bytes : Bytes
deriving DecidableEq

def Record.entry (record : Record) : Entry :=
  ⟨record.header.entryType, some record.name, record.header.size, record.bytes⟩

/-- The header tells the truth about the bytes, under a name that is stored as it is. -/
structure Record.Faithful (record : Record) : Prop where
  plain : Plain record.name
  size : record.header.size = record.bytes.length

inductive Failure where
  | io
deriving DecidableEq

/-- A tar library. -/
structure Format where
  append : Record → Except Failure Bytes
  finish : Bytes
  entries : Bytes → List (Except Failure Entry)
  append_faithful {record : Record} : record.Faithful → ∃ block, append record = .ok block
  entries_build {records : List Record} {blocks : List Bytes} :
    (∀ record ∈ records, record.Faithful) → records.mapM append = .ok blocks →
      entries (blocks.flatten ++ finish) = records.map fun record => .ok record.entry
  length_le {archive : Bytes} {entry : Entry} :
    .ok entry ∈ entries archive → entry.bytes.length ≤ entry.size
  cut {archive back block : Bytes} {before : List Record} {record : Record}
      {after : List (Except Failure Entry)} {blocks : List Bytes} :
    entries archive = (before.map fun record => .ok record.entry) ++ .ok record.entry :: after →
      before.mapM append = .ok blocks → append record = .ok block →
      archive = blocks.flatten ++ (block ++ back) → record.bytes.length < record.header.size →
      back = []
  finish_ne_nil : finish ≠ []

namespace Format

variable (format : Format)

/-- A whole archive. -/
def build (records : List Record) : Except Failure Bytes := do
  let blocks ← records.mapM format.append
  pure (blocks.flatten ++ format.finish)

variable {format}

theorem build_eq_ok {records : List Record} {archive : Bytes} :
    format.build records = .ok archive ↔
      ∃ blocks, records.mapM format.append = .ok blocks ∧
        archive = blocks.flatten ++ format.finish := by
  simp only [build, bind_eq_ok, pure_eq_ok, Except.ok.injEq, eq_comm (a := archive)]

/-- Faithful records can be written, and are read back. -/
theorem build_faithful (format : Format) {records : List Record} (h : ∀ record ∈ records, record.Faithful) :
    ∃ archive, format.build records = .ok archive ∧
      format.entries archive = records.map fun record => .ok record.entry := by
  obtain ⟨blocks, hblocks⟩ := exists_mapM_eq_ok fun record hrecord =>
    format.append_faithful (h record hrecord)
  exact ⟨_, build_eq_ok.2 ⟨blocks, hblocks, rfl⟩, format.entries_build h hblocks⟩

/-- No header of an archive that was built to its end says more than was written. -/
theorem size_of_build {records : List Record} {archive : Bytes}
    (hbuild : format.build records = .ok archive)
    (hentries : format.entries archive = records.map fun record => .ok record.entry)
    {record : Record} (hrecord : record ∈ records) :
    record.header.size = record.bytes.length := by
  have hle : record.bytes.length ≤ record.header.size :=
    format.length_le (hentries ▸ List.mem_map.2 ⟨record, hrecord, rfl⟩)
  refine hle.antisymm' (Nat.not_lt.1 fun hshort => ?_)
  obtain ⟨before, after, rfl⟩ := List.append_of_mem hrecord
  obtain ⟨blocks, hblocks, rfl⟩ := build_eq_ok.1 hbuild
  rw [List.mapM_append] at hblocks
  simp only [bind_eq_ok, pure_eq_ok, Except.ok.injEq, List.mapM_cons] at hblocks
  obtain ⟨front, hfront, back, ⟨block, hblock, rest, hrest, rfl⟩, rfl⟩ := hblocks
  rw [List.map_append, List.map_cons] at hentries
  have hcut : rest.flatten ++ format.finish = [] :=
    format.cut hentries hfront hblock (by simp) hshort
  exact format.finish_ne_nil (List.append_eq_nil_iff.1 hcut).2

end Format

end Tar
