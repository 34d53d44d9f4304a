import AgentKnowledge.Queue.Storage
import Mathlib

/-!
The limits a finished package is held to.

`scan_payload_directory` counts as it goes and stops at the first count beyond a limit. As counts
only grow, it succeeds iff every entry passes by itself and the counts of the whole directory are
within the limits (`scanPayloadDirectory_isOk_iff`).
-/

namespace AgentKnowledge

open Results

/-! ### Texts of paths -/

theorem joinPath_splitSlash (value : String) : joinPath (splitSlash value) = value := by
  have hpieces : (splitSlash value).map String.toList = value.toList.splitOn '/' := by
    simp [splitSlash, Function.comp_def]
  rw [joinPath, hpieces, List.intercalate_splitOn, String.ofList_toList]

/-- The components of a payload path. -/
def PayloadPath.components (path : PayloadPath) : List String := splitSlash path.value

/-! ### Entries in the order of the scan -/

/-- An entry as the scan meets it: the components of its directory, its name and what it is. -/
structure ScannedEntry where
  parents : List String
  name : Option String
  node : PayloadNode

def PayloadNodes.level (parents : List String) : PayloadNodes → List ScannedEntry
  | .nil => []
  | .cons name node rest => ⟨parents, name, node⟩ :: rest.level parents

def PayloadNodes.nested (parents : List String) : PayloadNodes → List ScannedEntry
  | .nil => []
  | .cons (some name) (.directory children) rest =>
      rest.nested parents ++
        (children.level (parents ++ [name]) ++ children.nested (parents ++ [name]))
  | .cons _ _ rest => rest.nested parents

namespace ScannedEntry

def isFile (entry : ScannedEntry) : Bool :=
  match entry.node with
  | .file _ => true
  | _ => false

def isDirectory (entry : ScannedEntry) : Bool :=
  match entry.node with
  | .directory _ => true
  | _ => false

def bytes (entry : ScannedEntry) : Nat :=
  match entry.node with
  | .file content => content.bytes.length
  | _ => 0

def components (entry : ScannedEntry) : List String := entry.parents ++ entry.name.toList

/-- The checks on one entry that need no count. -/
def Fits (limits : PackageLimits) (entry : ScannedEntry) : Prop :=
  (∃ name, entry.name = some name) ∧
    validateRelativePath (joinPath entry.components) = .ok () ∧
    (splitSlash (joinPath entry.components)).length ≤ limits.maximumPathComponents ∧
    match entry.node with
    | .directory _ => True
    | .file content =>
        content.hardLinked = false ∧ content.executable = false ∧
          content.bytes.length ≤ limits.maximumFileBytes
    | .other => False

end ScannedEntry

/-- The counts of some entries, with what a scan has counted already, are within the limits. The
entries of a directory are counted before they are looked at, so `counted` of them may be new. -/
structure PayloadScan.Room (limits : PackageLimits) (scan : PayloadScan)
    (entries : List ScannedEntry) (counted : Nat) : Prop where
  total : scan.totalBytes + (entries.map ScannedEntry.bytes).sum ≤ limits.maximumTotalBytes
  files : scan.fileCount + entries.countP ScannedEntry.isFile ≤ limits.maximumFileCount
  directories : scan.directories.length + entries.countP ScannedEntry.isDirectory ≤
    limits.maximumDirectoryCount
  entryCount : scan.entryCount + counted ≤ limits.maximumEntryCount

/-- A scan after some more entries. -/
structure PayloadScan.Adds (scan : PayloadScan) (entries : List ScannedEntry) (counted : Nat)
    (scan' : PayloadScan) : Prop where
  total : scan'.totalBytes = scan.totalBytes + (entries.map ScannedEntry.bytes).sum
  files : scan'.fileCount = scan.fileCount + entries.countP ScannedEntry.isFile
  directories : scan'.directories.map Prod.fst = scan.directories.map Prod.fst ++
    (entries.filter ScannedEntry.isDirectory).map ScannedEntry.components
  entryCount : scan'.entryCount = scan.entryCount + counted
  nonempty : ∀ d, d ∈ scan'.nonempty ↔ d ∈ scan.nonempty ∨
    ∃ entry ∈ entries, entry.isFile ∧ d <+: entry.parents

/-- A part of the scan looks at these entries: from a state within the limits it succeeds iff they
fit, and then has counted them. -/
structure ScanSpec (limits : PackageLimits) (entries : List ScannedEntry) (counted : Nat)
    (scan : PayloadScan) (result : Except PackageValidationError PayloadScan) : Prop where
  adds : ∀ scan', result = .ok scan' → scan.Adds entries counted scan'
  fits : scan.Room limits [] 0 → ∀ scan', result = .ok scan' →
    (∀ entry ∈ entries, entry.Fits limits) ∧ scan.Room limits entries counted
  succeeds : (∀ entry ∈ entries, entry.Fits limits) → scan.Room limits entries counted →
    ∃ scan', result = .ok scan'

section Scan

variable {limits : PackageLimits} {entries entries' : List ScannedEntry} {counted counted' : Nat}
  {scan scan' : PayloadScan}

theorem PayloadScan.Adds.length_directories (h : scan.Adds entries counted scan') :
    scan'.directories.length =
      scan.directories.length + entries.countP ScannedEntry.isDirectory := by
  have := congrArg List.length h.directories
  simpa [List.countP_eq_length_filter] using this

theorem PayloadScan.Adds.trans {scan'' : PayloadScan} (h : scan.Adds entries counted scan')
    (h' : scan'.Adds entries' counted' scan'') :
    scan.Adds (entries ++ entries') (counted + counted') scan'' where
  total := by simp [h'.total, h.total, Nat.add_assoc]
  files := by simp [h'.files, h.files, Nat.add_assoc]
  directories := by simp [h'.directories, h.directories]
  entryCount := by simp [h'.entryCount, h.entryCount, Nat.add_assoc]
  nonempty d := by
    simp only [h'.nonempty, h.nonempty, List.mem_append, or_and_right, exists_or, or_assoc]

/-- The room that is left after some entries. -/
theorem PayloadScan.Adds.room (h : scan.Adds entries counted scan') :
    scan'.Room limits entries' counted' ↔
      scan.Room limits (entries ++ entries') (counted + counted') := by
  have hdirectories := h.length_directories
  constructor
  · rintro ⟨htotal, hfiles, hdirs, hentries⟩
    rw [h.total] at htotal
    rw [h.files] at hfiles
    rw [hdirectories] at hdirs
    rw [h.entryCount] at hentries
    exact ⟨by simpa [Nat.add_assoc] using htotal, by simpa [Nat.add_assoc] using hfiles,
      by simpa [Nat.add_assoc] using hdirs, by omega⟩
  · rintro ⟨htotal, hfiles, hdirs, hentries⟩
    refine ⟨?_, ?_, ?_, ?_⟩
    · simpa [h.total, Nat.add_assoc] using htotal
    · simpa [h.files, Nat.add_assoc] using hfiles
    · simpa [hdirectories, Nat.add_assoc] using hdirs
    · rw [h.entryCount]
      omega

theorem PayloadScan.Room.left (h : scan.Room limits (entries ++ entries') (counted + counted')) :
    scan.Room limits entries counted := by
  obtain ⟨htotal, hfiles, hdirs, hentries⟩ := h
  simp only [List.map_append, List.sum_append, List.countP_append] at htotal hfiles hdirs
  exact ⟨by omega, by omega, by omega, by omega⟩

/-- One part of the scan after the other. -/
theorem ScanSpec.bind {result : Except PackageValidationError PayloadScan}
    {next : PayloadScan → Except PackageValidationError PayloadScan}
    (h : ScanSpec limits entries counted scan result)
    (hnext : ∀ scan', ScanSpec limits entries' counted' scan' (next scan')) :
    ScanSpec limits (entries ++ entries') (counted + counted') scan (result >>= next) where
  adds final hfinal := by
    obtain ⟨middle, hmiddle, hrest⟩ := bind_eq_ok.1 hfinal
    exact (h.adds middle hmiddle).trans ((hnext middle).adds final hrest)
  fits hstart final hfinal := by
    obtain ⟨middle, hmiddle, hrest⟩ := bind_eq_ok.1 hfinal
    obtain ⟨hhere, hroom⟩ := h.fits hstart middle hmiddle
    have hmiddleRoom : middle.Room limits [] 0 :=
      (h.adds middle hmiddle).room.2 (by rwa [List.append_nil])
    obtain ⟨hthere, hroom⟩ := (hnext middle).fits hmiddleRoom final hrest
    exact ⟨List.forall_mem_append.2 ⟨hhere, hthere⟩, (h.adds middle hmiddle).room.1 hroom⟩
  succeeds hfits hroom := by
    obtain ⟨hhere, hthere⟩ := List.forall_mem_append.1 hfits
    obtain ⟨middle, hmiddle⟩ := h.succeeds hhere hroom.left
    obtain ⟨final, hfinal⟩ :=
      (hnext middle).succeeds hthere ((h.adds middle hmiddle).room.2 hroom)
    exact ⟨final, bind_eq_ok.2 ⟨middle, hmiddle, hfinal⟩⟩

theorem ScanSpec.nil : ScanSpec limits [] 0 scan (.ok scan) where
  adds scan' h := by
    obtain rfl := Except.ok.inj h
    exact ⟨rfl, rfl, by simp, rfl, by simp⟩
  fits hstart scan' _ := ⟨by simp, hstart⟩
  succeeds _ _ := ⟨scan, rfl⟩

/-- Limits are machine words. -/
structure PackageLimits.InWords (limits : PackageLimits) : Prop where
  total : limits.maximumTotalBytes < 2 ^ 64
  files : limits.maximumFileCount < 2 ^ 64

theorem enforceTotals_eq_ok {totalBytes fileCount : Nat} :
    enforceTotals limits totalBytes fileCount = .ok () ↔
      totalBytes ≤ limits.maximumTotalBytes ∧ fileCount ≤ limits.maximumFileCount := by
  unfold enforceTotals
  split
  · simp only [reduceCtorEq, false_iff]
    omega
  · split
    · simp only [reduceCtorEq, false_iff]
      omega
    · simp only [true_iff]
      omega

theorem parsePayloadPath_eq_ok {text : String} {path : PayloadPath} :
    parsePayloadPath text = .ok path ↔ path.value = text := by
  unfold parsePayloadPath
  obtain ⟨value, hvalue⟩ := path
  split
  · simp [eq_comm]
  · rename_i hinvalid
    simp only [reduceCtorEq, false_iff]
    rintro rfl
    exact hinvalid hvalue

theorem scanRegularFile_eq_ok (hwords : limits.InWords) {parents : List String}
    {path : PayloadPath} {content : StoredFile} :
    scanRegularFile limits parents path (.file content) scan = .ok scan' ↔
      (content.hardLinked = false ∧ content.executable = false ∧
        content.bytes.length ≤ limits.maximumFileBytes) ∧
      (scan.totalBytes + content.bytes.length ≤ limits.maximumTotalBytes ∧
        scan.fileCount + 1 ≤ limits.maximumFileCount) ∧
      scan' = { scan with
        totalBytes := scan.totalBytes + content.bytes.length
        fileCount := scan.fileCount + 1
        nonempty := parents.inits ++ scan.nonempty
        files := scan.files ++ [⟨path, content.bytes⟩] } := by
  have htotal := hwords.total
  have hfiles := hwords.files
  simp only [scanRegularFile, bind_eq_ok, exists_unit, rejectIf_eq_ok, pure_eq_ok,
    validateRegularFile_eq_ok, Except.ok.injEq, enforceTotals_eq_ok, FileEntry.IsPlain,
    FileEntry.file.injEq, Nat.not_lt, Nat.not_le]
  constructor
  · rintro ⟨file, ⟨rfl, hlinked, hexecutable⟩, hsize, -, -, hroom, rfl⟩
    exact ⟨⟨hlinked, hexecutable, hsize⟩, hroom, rfl⟩
  · rintro ⟨⟨hlinked, hexecutable, hsize⟩, hroom, rfl⟩
    exact ⟨content, ⟨rfl, hlinked, hexecutable⟩, hsize, by omega, by omega, hroom, rfl⟩

theorem scanSubdirectory_eq_ok {components : List String} {path : PayloadPath} :
    scanSubdirectory limits components path scan = .ok scan' ↔
      scan.directories.length + 1 ≤ limits.maximumDirectoryCount ∧
        scan' = { scan with directories := scan.directories ++ [(components, path)] } := by
  simp only [scanSubdirectory, bind_eq_ok, exists_unit, rejectIf_eq_ok, pure_eq_ok,
    Except.ok.injEq, Nat.not_lt, eq_comm (a := scan')]

theorem scanPayloadEntry_eq_ok {parents : List String} {name : Option String} {node : PayloadNode} :
    (scanPayloadEntry limits parents name node scan).result = .ok scan' ↔
      ∃ text path, name = some text ∧ path.value = joinPath (parents ++ [text]) ∧
        (splitSlash path.value).length ≤ limits.maximumPathComponents ∧
        match node with
        | .directory _ => scanSubdirectory limits (parents ++ [text]) path scan = .ok scan'
        | .file content => scanRegularFile limits parents path (.file content) scan = .ok scan'
        | .other => False := by
  have hother : ∀ path, scanRegularFile limits parents path .other scan ≠ .ok scan' := by
    intro path h
    simp [scanRegularFile, bind_eq_ok, validateRegularFile_eq_ok, FileEntry.IsPlain] at h
  simp only [scanPayloadEntry, Reading.result_bind, Reading.result_call, Reading.result_lift,
    ok_bind, bind_eq_ok, exists_unit, ofOption_eq_ok, rejectIf_eq_ok, parsePayloadPath_eq_ok,
    Nat.not_lt]
  cases node with
  | directory children => simp only [Reading.result_lift, exists_and_left]
  | file content => simp only [Reading.result_lift, exists_and_left]
  | other => simp [hother]

/-- One entry. -/
theorem scanPayloadEntry_scans (hwords : limits.InWords) (entry : ScannedEntry)
    (scan : PayloadScan) :
    ScanSpec limits [entry] 0 scan
      (scanPayloadEntry limits entry.parents entry.name entry.node scan).result := by
  obtain ⟨parents, name, node⟩ := entry
  constructor
  · intro scan' h
    obtain ⟨text, path, rfl, hpath, -, h⟩ := scanPayloadEntry_eq_ok.1 h
    cases node with
    | directory children =>
        obtain ⟨-, rfl⟩ := scanSubdirectory_eq_ok.1 h
        constructor <;> simp [ScannedEntry.bytes, ScannedEntry.isFile, List.filter_cons,
          ScannedEntry.isDirectory, ScannedEntry.components]
    | file content =>
        obtain ⟨-, -, rfl⟩ := (scanRegularFile_eq_ok hwords).1 h
        constructor <;> simp [ScannedEntry.bytes, ScannedEntry.isFile, ScannedEntry.isDirectory,
          or_comm]
    | other => exact h.elim
  · intro hstart scan' h
    obtain ⟨text, path, rfl, hpath, hcomponents, h⟩ := scanPayloadEntry_eq_ok.1 h
    have hvalid := path.valid
    rw [hpath] at hvalid hcomponents
    obtain ⟨htotal, hfiles, hdirs, hentries⟩ := hstart
    simp only [List.map_nil, List.sum_nil, List.countP_nil, Nat.add_zero] at htotal hfiles hdirs
    cases node with
    | directory children =>
        obtain ⟨hroom, -⟩ := scanSubdirectory_eq_ok.1 h
        refine ⟨List.forall_mem_singleton.2 ⟨⟨text, rfl⟩, hvalid, hcomponents, trivial⟩,
          ?_, ?_, ?_, hentries⟩ <;>
          simpa [ScannedEntry.bytes, ScannedEntry.isFile, ScannedEntry.isDirectory]
    | file content =>
        obtain ⟨hfile, hroom, -⟩ := (scanRegularFile_eq_ok hwords).1 h
        refine ⟨List.forall_mem_singleton.2 ⟨⟨text, rfl⟩, hvalid, hcomponents, hfile⟩,
          ?_, ?_, ?_, hentries⟩
        · simpa [ScannedEntry.bytes] using hroom.1
        · simpa [ScannedEntry.isFile] using hroom.2
        · simpa [ScannedEntry.isDirectory]
    | other => exact h.elim
  · intro hfits hroom
    obtain ⟨⟨text, rfl⟩, hvalid, hcomponents, hnode⟩ := hfits _ (List.mem_singleton_self _)
    obtain ⟨htotal, hfiles, hdirs, -⟩ := hroom
    cases node with
    | directory children =>
        exact ⟨_, scanPayloadEntry_eq_ok.2 ⟨text, ⟨_, hvalid⟩, rfl, rfl, hcomponents,
          scanSubdirectory_eq_ok.2 ⟨by simpa [ScannedEntry.isDirectory] using hdirs, rfl⟩⟩⟩
    | file content =>
        exact ⟨_, scanPayloadEntry_eq_ok.2 ⟨text, ⟨_, hvalid⟩, rfl, rfl, hcomponents,
          (scanRegularFile_eq_ok hwords).2 ⟨hnode, ⟨by simpa [ScannedEntry.bytes] using htotal,
            by simpa [ScannedEntry.isFile] using hfiles⟩, rfl⟩⟩⟩
    | other => exact hnode.elim

theorem scanPayloadEntries_scans (hwords : limits.InWords) (parents : List String)
    (children : PayloadNodes) (scan : PayloadScan) :
    ScanSpec limits (children.level parents) 0 scan
      (scanPayloadEntries limits parents children scan).result := by
  match children with
  | .nil => exact .nil
  | .cons name node rest =>
      rw [scanPayloadEntries, Reading.result_bind]
      exact (scanPayloadEntry_scans hwords ⟨parents, name, node⟩ scan).bind fun scan' =>
        scanPayloadEntries_scans hwords parents rest scan'

theorem PayloadNodes.length_level (parents : List String) (children : PayloadNodes) :
    (children.level parents).length = children.length := by
  match children with
  | .nil => rfl
  | .cons name node rest =>
      rw [PayloadNodes.level, List.length_cons, length_level parents rest, PayloadNodes.length]

/-- The entries of one directory. -/
theorem scanLevel_scans (hwords : limits.InWords) (parents : List String) (children : PayloadNodes)
    (scan : PayloadScan) :
    ScanSpec limits (children.level parents) (children.level parents).length scan
      (scanLevel limits parents children scan).result := by
  have hlength := children.length_level parents
  have hentries := scanPayloadEntries_scans hwords parents children
    { scan with entryCount := scan.entryCount + children.length }
  have hiff : ∀ scan', (scanLevel limits parents children scan).result = .ok scan' ↔
      ¬ limits.maximumEntryCount - scan.entryCount < children.length ∧
        (scanPayloadEntries limits parents children
          { scan with entryCount := scan.entryCount + children.length }).result = .ok scan' := by
    intro scan'
    simp only [scanLevel, Reading.result_bind, Reading.result_call, Reading.result_lift, ok_bind,
      bind_eq_ok, exists_unit, rejectIf_eq_ok]
  constructor
  · intro scan' h
    obtain ⟨htotal, hfiles, hdirs, hcount, hnonempty⟩ := hentries.adds scan' ((hiff scan').1 h).2
    exact ⟨htotal, hfiles, hdirs, by rw [hcount, hlength, Nat.add_zero], hnonempty⟩
  · intro hstart scan' h
    obtain ⟨hroom, h⟩ := (hiff scan').1 h
    have hcount := hstart.entryCount
    obtain ⟨hfits, htotal, hfiles, hdirs, -⟩ := hentries.fits
      ⟨hstart.total, hstart.files, hstart.directories, by simp only; omega⟩ scan' h
    exact ⟨hfits, htotal, hfiles, hdirs, by omega⟩
  · rintro hfits ⟨htotal, hfiles, hdirs, hcount⟩
    obtain ⟨scan', h⟩ := hentries.succeeds hfits
      ⟨htotal, hfiles, hdirs, by simp only; omega⟩
    exact ⟨scan', (hiff scan').2 ⟨by omega, h⟩⟩

/-- All entries below one directory. -/
theorem scanBelow_scans (hwords : limits.InWords) (parents : List String) (children : PayloadNodes)
    (scan : PayloadScan) :
    ScanSpec limits (children.nested parents) (children.nested parents).length scan
      (scanBelow limits parents children scan).result := by
  fun_induction scanBelow limits parents children scan with
  | case1 parents scan => exact .nil
  | case2 parents name children rest scan ihRest ihChildren =>
      rw [PayloadNodes.nested, List.length_append, List.length_append]
      simp only [Reading.result_bind]
      exact ihRest.bind fun _ =>
        (scanLevel_scans hwords _ children _).bind fun scan' => ihChildren scan'
  | case3 parents name node rest scan hnode ih =>
      rw [PayloadNodes.nested]
      · exact ih
      · exact hnode

theorem emptyDirectory_eq_none :
    emptyDirectory scan = none ↔ ∀ d ∈ scan.directories.map Prod.fst, d ∈ scan.nonempty := by
  simp only [emptyDirectory, Option.map_eq_none_iff, List.find?_eq_none, List.mem_insertionSort,
    Bool.not_eq_true', Bool.not_eq_false, List.contains_iff_mem, List.forall_mem_map]

/-- The entries of a payload in the order of the scan. -/
def PayloadNodes.scanned (children : PayloadNodes) : List ScannedEntry :=
  children.level [] ++ children.nested []

/-- What the scan of a payload asks of its entries, in whatever order it meets them. -/
structure PayloadFits (limits : PackageLimits) (requestBytes : Nat) (entries : List ScannedEntry) :
    Prop where
  each : ∀ entry ∈ entries, entry.Fits limits
  total : requestBytes + (entries.map ScannedEntry.bytes).sum ≤ limits.maximumTotalBytes
  files : 1 + entries.countP ScannedEntry.isFile ≤ limits.maximumFileCount
  directories : entries.countP ScannedEntry.isDirectory ≤ limits.maximumDirectoryCount
  entryCount : 1 + entries.length ≤ limits.maximumEntryCount
  /-- There is a file below every directory. -/
  filled : ∀ directory ∈ entries, directory.isDirectory →
    ∃ entry ∈ entries, entry.isFile ∧ directory.components <+: entry.parents

theorem scanPayloadDirectory_isOk_iff (hwords : limits.InWords) {children : PayloadNodes}
    {requestBytes : Nat} (htotal : requestBytes ≤ limits.maximumTotalBytes)
    (hfiles : 1 ≤ limits.maximumFileCount) (hentries : 1 ≤ limits.maximumEntryCount) :
    (∃ payload, (scanPayloadDirectory limits children requestBytes).result = .ok payload) ↔
      PayloadFits limits requestBytes children.scanned := by
  let start : PayloadScan :=
    { totalBytes := requestBytes, fileCount := 1, entryCount := 1, directories := [],
      nonempty := [], files := [] }
  have hscan := (scanLevel_scans hwords [] children start).bind fun scan' =>
    scanBelow_scans hwords [] children scan'
  rw [← List.length_append, ← PayloadNodes.scanned] at hscan
  have hresult : (∃ payload, (scanPayloadDirectory limits children requestBytes).result =
      .ok payload) ↔ ∃ final, ((scanLevel limits [] children start).result >>= fun scan' =>
        (scanBelow limits [] children scan').result) = .ok final ∧ emptyDirectory final = none := by
    simp only [scanPayloadDirectory, Reading.result_bind, bind_eq_ok]
    constructor
    · rintro ⟨payload, middle, hmiddle, final, hfinal, h⟩
      refine ⟨final, ⟨middle, hmiddle, hfinal⟩, ?_⟩
      split at h
      · simp at h
      · assumption
    · rintro ⟨final, ⟨middle, hmiddle, hfinal⟩, hnone⟩
      exact ⟨_, middle, hmiddle, final, hfinal, by rw [hnone]; rfl⟩
  -- Every directory the scan has met is among those its files lie below.
  have hfilled : ∀ {final}, start.Adds children.scanned children.scanned.length final →
      (emptyDirectory final = none ↔ ∀ directory ∈ children.scanned, directory.isDirectory →
        ∃ entry ∈ children.scanned, entry.isFile ∧ directory.components <+: entry.parents) := by
    intro final hadds
    rw [emptyDirectory_eq_none, hadds.directories]
    simp only [start, hadds.nonempty, List.map_nil, List.nil_append, List.forall_mem_map,
      List.mem_filter, and_imp, List.not_mem_nil, false_or]
  rw [hresult]
  constructor
  · rintro ⟨final, hfinal, hnone⟩
    obtain ⟨hfits, hroom⟩ := hscan.fits ⟨htotal, hfiles, Nat.zero_le _, hentries⟩ final hfinal
    exact ⟨hfits, hroom.total, hroom.files, by simpa [start] using hroom.directories,
      hroom.entryCount, (hfilled (hscan.adds final hfinal)).1 hnone⟩
  · rintro ⟨heach, htotal, hfiles, hdirs, hentries, hbelow⟩
    obtain ⟨final, hfinal⟩ := hscan.succeeds heach ⟨htotal, hfiles, by simpa [start], hentries⟩
    exact ⟨final, hfinal, (hfilled (hscan.adds final hfinal)).2 hbelow⟩

end Scan

end AgentKnowledge
