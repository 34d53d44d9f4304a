import AgentKnowledge.Lib.Codec
import AgentKnowledge.Queue.Acceptance

/-!
The package digest says what a package is (`calculate_digest` in
`crates/queue/src/package.rs`).

The stream that is hashed consists of numbers of eight bytes and of strings with
their lengths in front, so it determines the request and the list of payload files
(`digestInput_injective`). The scan of `payload/` puts the files in path order,
whatever order it met them in (`scanPayloadDirectory_eq_ok`). With a digest that
tells the two streams apart, equal digests mean equal requests and equal files; and
what the queue writes beside a package later is in no stream.
-/

namespace AgentKnowledge

open Results Codec Durable

/-! ### The stream -/

theorem utf8Bytes_injective {a b : String} (h : utf8Bytes a = utf8Bytes b) : a = b :=
  String.toByteArray_inj.1 (Bytes.toList_injective h)

theorem length_utf8Bytes (text : String) : (utf8Bytes text).length = text.utf8ByteSize := by
  rw [utf8Bytes, Bytes.toList_eq]
  rfl

theorem PayloadPath.length_lt (path : PayloadPath) : (utf8Bytes path.value).length < 2 ^ 64 := by
  have hvalid := path.valid
  unfold validateRelativePath at hvalid
  split_ifs at hvalid with hempty hlong
  have hmaximum : maxPathLength < 2 ^ 64 := by decide
  rw [length_utf8Bytes]
  omega

theorem bigEndian64_injective {a b : Nat} (ha : a < 2 ^ 64) (hb : b < 2 ^ 64)
    (h : bigEndian64 a = bigEndian64 b) : a = b := by
  refine eq_of_digits 256 8 ha hb fun i hi => ?_
  have hbyte := congrArg (fun bytes : Bytes => bytes[7 - i]?) h
  simp only [bigEndian64, List.getElem?_map, List.getElem?_range (show 7 - i < 8 by omega),
    Option.map_some, Option.some.injEq] at hbyte
  rw [show 7 - (7 - i) = i by omega] at hbyte
  have hdigit := congrArg UInt8.toNat hbyte
  rwa [UInt8.toNat_ofNat_of_lt' (Nat.mod_lt _ (by decide)),
    UInt8.toNat_ofNat_of_lt' (Nat.mod_lt _ (by decide))] at hdigit

theorem selfDelimiting_bigEndian64 : SelfDelimiting (· < 2 ^ 64) bigEndian64 :=
  .of_length 8 (fun _ _ => by simp [bigEndian64]) fun _ _ => bigEndian64_injective

theorem selfDelimiting_lengthPrefixed :
    SelfDelimiting (fun bytes : Bytes => bytes.length < 2 ^ 64) lengthPrefixed :=
  selfDelimiting_bigEndian64.counted

/-- What one payload file adds to the stream. -/
def fileRecord (file : PayloadFile) : Bytes :=
  lengthPrefixed (utf8Bytes file.path.value) ++ lengthPrefixed file.bytes

theorem selfDelimiting_fileRecord :
    SelfDelimiting (fun file : PayloadFile => file.bytes.length < 2 ^ 64) fileRecord := by
  refine (selfDelimiting_lengthPrefixed.append selfDelimiting_lengthPrefixed).comap
    (fun file : PayloadFile => (utf8Bytes file.path.value, file.bytes))
    (fun file hfile => ⟨file.path.length_lt, hfile⟩) ?_
  rintro ⟨⟨path, _⟩, bytes⟩ ⟨⟨path', _⟩, bytes'⟩ h
  obtain ⟨hpath, rfl⟩ := Prod.mk.inj h
  cases utf8Bytes_injective hpath
  rfl

/-- Files whose number and lengths fit in eight bytes. -/
structure Countable (payload : List PayloadFile) : Prop where
  count : payload.length < 2 ^ 64
  lengths : ∀ file ∈ payload, file.bytes.length < 2 ^ 64

theorem digestInput_injective {canonical canonical' : Bytes} {payload payload' : List PayloadFile}
    (hcanonical : canonical.length < 2 ^ 64) (hcanonical' : canonical'.length < 2 ^ 64)
    (hpayload : Countable payload) (hpayload' : Countable payload')
    (h : digestInput canonical payload = digestInput canonical' payload') :
    canonical = canonical' ∧ payload = payload' := by
  have hstream := selfDelimiting_lengthPrefixed.append
    (selfDelimiting_fileRecord.countedList selfDelimiting_bigEndian64)
  simp only [digestInput, List.append_assoc, List.append_cancel_left_eq] at h
  exact Prod.mk.inj (hstream.injective (a := (canonical, payload)) (b := (canonical', payload'))
    ⟨hcanonical, hpayload.count, hpayload.lengths⟩
    ⟨hcanonical', hpayload'.count, hpayload'.lengths⟩ h)

/-! ### The files of a package -/

/-- The file an entry is, if its path is one of a payload. -/
def payloadFile (components : List String) (content : StoredFile) : List PayloadFile :=
  match parsePayloadPath (joinPath components) with
  | .ok path => [⟨path, content.bytes⟩]
  | .error _ => []

/-- The regular files of one directory. -/
def PayloadNodes.levelFiles (parents : List String) : PayloadNodes → List PayloadFile
  | .nil => []
  | .cons (some name) (.file content) rest =>
      payloadFile (parents ++ [name]) content ++ rest.levelFiles parents
  | .cons _ _ rest => rest.levelFiles parents

/-- The regular files of the directories below one, those of the last directory first. -/
def PayloadNodes.filesBelow (parents : List String) : PayloadNodes → List PayloadFile
  | .nil => []
  | .cons (some name) (.directory children) rest =>
      rest.filesBelow parents ++ (children.levelFiles (parents ++ [name]) ++
        children.filesBelow (parents ++ [name]))
  | .cons _ _ rest => rest.filesBelow parents

/-- The payload paths of a package with their bytes. -/
def StoredPackage.files (package : StoredPackage) : List PayloadFile :=
  match package.payload with
  | some (some children) => children.levelFiles [] ++ children.filesBelow []
  | _ => []

/-- What `scan_payload_directory` knows about the files it has collected. -/
structure PayloadScan.Counted (scan : PayloadScan) : Prop where
  fileCount : scan.files.length + 1 = scan.fileCount
  room : scan.fileCount < 2 ^ 64
  lengths : ∀ file ∈ scan.files, file.bytes.length < 2 ^ 64

/-- A part of the scan has collected these files. -/
def Collects (scan : PayloadScan) (files : List PayloadFile) (scan' : PayloadScan) : Prop :=
  scan'.files = scan.files ++ files ∧ (scan.Counted → scan'.Counted)

theorem Collects.refl (scan : PayloadScan) : Collects scan [] scan :=
  ⟨(List.append_nil _).symm, id⟩

theorem Collects.trans {scan scan' scan'' : PayloadScan} {files files' : List PayloadFile}
    (h : Collects scan files scan') (h' : Collects scan' files' scan'') :
    Collects scan (files ++ files') scan'' :=
  ⟨by rw [h'.1, h.1, List.append_assoc], fun hcounted => h'.2 (h.2 hcounted)⟩

variable {limits : PackageLimits} {parents : List String} {scan scan' : PayloadScan}

theorem scanRegularFile_collects {path : PayloadPath} {entry : FileEntry}
    (h : scanRegularFile limits parents path entry scan = .ok scan') :
    ∃ content, entry = .file content ∧ Collects scan [⟨path, content.bytes⟩] scan' := by
  simp only [scanRegularFile, bind_eq_ok, exists_unit, rejectIf_eq_ok, pure_eq_ok,
    validateRegularFile_eq_ok, Except.ok.injEq, not_le] at h
  obtain ⟨content, hplain, -, hroom, hcount, -, rfl⟩ := h
  refine ⟨content, hplain.1, rfl, fun hcounted => ⟨?_, hcount, ?_⟩⟩
  · simp only [List.length_append, List.length_singleton, hcounted.fileCount]
  · intro file hfile
    rcases List.mem_append.1 hfile with hfile | hfile
    · exact hcounted.lengths file hfile
    · rw [List.mem_singleton.1 hfile]
      exact lt_of_le_of_lt (Nat.le_add_left _ _) hroom

theorem scanSubdirectory_collects {components : List String} {path : PayloadPath}
    (h : scanSubdirectory limits components path scan = .ok scan') : Collects scan [] scan' := by
  simp only [scanSubdirectory, bind_eq_ok, exists_unit, rejectIf_eq_ok, pure_eq_ok,
    Except.ok.injEq] at h
  obtain ⟨-, rfl⟩ := h
  exact ⟨(List.append_nil _).symm, fun hcounted =>
    ⟨hcounted.fileCount, hcounted.room, hcounted.lengths⟩⟩

theorem scanPayloadEntry_collects {name : Option String} {node : PayloadNode} (rest : PayloadNodes)
    (h : (scanPayloadEntry limits parents name node scan).result = .ok scan') :
    ∃ files, (PayloadNodes.cons name node rest).levelFiles parents =
      files ++ rest.levelFiles parents ∧ Collects scan files scan' := by
  unfold scanPayloadEntry at h
  simp only [Reading.result_bind, Reading.result_call, Reading.result_lift, ok_bind, bind_eq_ok,
    exists_unit, ofOption_eq_ok, rejectIf_eq_ok] at h
  obtain ⟨name, rfl, path, hpath, -, h⟩ := h
  cases node with
  | directory children => exact ⟨[], rfl, scanSubdirectory_collects h⟩
  | file content =>
      obtain ⟨_, ⟨⟩, hcollects⟩ := scanRegularFile_collects h
      refine ⟨_, ?_, hcollects⟩
      rw [PayloadNodes.levelFiles, payloadFile, hpath]
  | other =>
      obtain ⟨_, ⟨⟩, -⟩ := scanRegularFile_collects h

theorem scanPayloadEntries_collects {children : PayloadNodes} {scan : PayloadScan}
    (h : (scanPayloadEntries limits parents children scan).result = .ok scan') :
    Collects scan (children.levelFiles parents) scan' := by
  match children with
  | .nil =>
      cases h
      exact .refl _
  | .cons name node rest =>
      simp only [scanPayloadEntries, Reading.result_bind, bind_eq_ok] at h
      obtain ⟨middle, hentry, hrest⟩ := h
      obtain ⟨files, hfiles, hcollects⟩ := scanPayloadEntry_collects rest hentry
      rw [hfiles]
      exact hcollects.trans (scanPayloadEntries_collects hrest)

theorem scanLevel_collects {children : PayloadNodes}
    (h : (scanLevel limits parents children scan).result = .ok scan') :
    Collects scan (children.levelFiles parents) scan' := by
  simp only [scanLevel, Reading.result_bind, Reading.result_call, Reading.result_lift, ok_bind,
    bind_eq_ok, exists_unit] at h
  obtain ⟨hfiles, hcounted⟩ := scanPayloadEntries_collects h.2
  exact ⟨hfiles, fun hscan => hcounted ⟨hscan.fileCount, hscan.room, hscan.lengths⟩⟩

theorem scanBelow_collects {children : PayloadNodes}
    (h : (scanBelow limits parents children scan).result = .ok scan') :
    Collects scan (children.filesBelow parents) scan' := by
  fun_induction scanBelow limits parents children scan generalizing scan' with
  | case1 parents scan =>
      cases h
      exact .refl scan
  | case2 parents name children rest scan ihRest ihChildren =>
      simp only [Reading.result_bind, bind_eq_ok] at h
      obtain ⟨afterRest, hrest, afterLevel, hlevel, hbelow⟩ := h
      rw [PayloadNodes.filesBelow]
      exact (ihRest hrest).trans ((scanLevel_collects hlevel).trans (ihChildren _ hbelow))
  | case3 parents name node rest scan hnode ih =>
      rw [PayloadNodes.filesBelow]
      · exact ih h
      · exact hnode

/-- The files of the scan in path order. -/
def sortFiles (files : List PayloadFile) : List PayloadFile :=
  files.insertionSort fun a b => a.path.value ≤ b.path.value

theorem scanPayloadDirectory_eq_ok {children : PayloadNodes} {requestBytes : Nat}
    {payload : List PayloadFile}
    (h : (scanPayloadDirectory limits children requestBytes).result = .ok payload) :
    payload = sortFiles (children.levelFiles [] ++ children.filesBelow []) ∧
      Countable (children.levelFiles [] ++ children.filesBelow []) := by
  simp only [scanPayloadDirectory, Reading.result_bind, bind_eq_ok] at h
  obtain ⟨level, hlevel, final, hbelow, h⟩ := h
  obtain ⟨hfiles, hcounted⟩ := (scanLevel_collects hlevel).trans (scanBelow_collects hbelow)
  rw [List.nil_append] at hfiles
  have hfinal := hcounted ⟨rfl, Nat.one_lt_two_pow (by decide), by simp⟩
  have hroom := hfinal.room
  rw [← hfinal.fileCount] at hroom
  refine ⟨?_, hfiles ▸ ⟨by omega, hfinal.lengths⟩⟩
  split at h
  · cases h
  · rw [Reading.result_pure, Except.ok.injEq] at h
    rw [← h, hfiles, sortFiles]

/-! ### The digest of a package -/

/-- The JSON of a request tells which one it is, and fits in memory. -/
structure Externals.RequestsInjective (x : Externals) : Prop where
  injective : ∀ request request' bytes, x.encodeRequest request = some bytes →
    x.encodeRequest request' = some bytes → request = request'
  length : ∀ request bytes, x.encodeRequest request = some bytes → bytes.length < 2 ^ 64

theorem Externals.ofTables_requests (documents : List (Bytes × DocumentMetadata))
    (requests : List (Bytes × ChangeRequest))
    (h : ∀ entry ∈ requests, entry.1.length < 2 ^ 64 ∧
      ∀ other ∈ requests, entry.1 = other.1 → entry.2 = other.2) :
    (Externals.ofTables documents requests).RequestsInjective := by
  have hentry : ∀ request bytes,
      (Externals.ofTables documents requests).encodeRequest request = some bytes →
      (bytes, request) ∈ requests := by
    intro request bytes hencode
    obtain ⟨⟨text, decoded⟩, hfind, rfl⟩ := Option.map_eq_some_iff.1 hencode
    have hdecoded : decoded = request := by simpa using List.find?_some hfind
    exact hdecoded ▸ List.mem_of_find?_eq_some hfind
  exact {
    injective := fun _ _ _ hencode hencode' =>
      (h _ (hentry _ _ hencode)).2 _ (hentry _ _ hencode') rfl
    length := fun _ _ hencode => (h _ (hentry _ _ hencode)).1 }

/-- No two files of a package have one path. -/
def StoredPackage.PathsDistinct (package : StoredPackage) : Prop :=
  (package.files.map PayloadFile.path).Nodup

def StoredPackage.requestBytes (package : StoredPackage) : Bytes :=
  match package.request with
  | some (.file content) => content.bytes
  | _ => []

/-- The bytes that are hashed for a package. -/
def StoredPackage.digestStream (x : Externals) (package : StoredPackage) : Bytes :=
  digestInput (((x.decodeRequest package.requestBytes).bind x.encodeRequest).getD [])
    (sortFiles package.files)

theorem perm_sortFiles (files : List PayloadFile) : (sortFiles files).Perm files :=
  List.perm_insertionSort _ _

theorem mem_sortFiles {file : PayloadFile} {files : List PayloadFile} :
    file ∈ sortFiles files ↔ file ∈ files :=
  (perm_sortFiles files).mem_iff

theorem PayloadPath.eq_of_value {path path' : PayloadPath} (h : path.value = path'.value) :
    path = path' := by
  cases path
  cases path'
  cases h
  rfl

/-- Files at distinct paths have one order. -/
theorem sortFiles_congr {files files' : List PayloadFile}
    (hdistinct : (files.map PayloadFile.path).Nodup)
    (hdistinct' : (files'.map PayloadFile.path).Nodup)
    (h : ∀ file, file ∈ files ↔ file ∈ files') : sortFiles files = sortFiles files' := by
  have hperm : files.Perm files' :=
    (List.perm_ext_iff_of_nodup hdistinct.of_map hdistinct'.of_map).2 h
  refine List.Perm.eq_of_pairwise ?_ (List.pairwise_insertionSort _ _)
    (List.pairwise_insertionSort _ _)
    ((perm_sortFiles files).trans (hperm.trans (perm_sortFiles files').symm))
  intro a b ha hb hle hge
  have hpath : a.path = b.path := PayloadPath.eq_of_value (String.le_antisymm hle hge)
  exact List.inj_on_of_nodup_map hdistinct (mem_sortFiles.1 ha) ((h b).2 (mem_sortFiles.1 hb)) hpath

variable {x : QueueExternals} {policy : PackagePolicy}

/-- What a validation hashed, read off the entries of the package. -/
structure StoredPackage.Hashed (x : QueueExternals) (package : StoredPackage)
    (validated : ValidatedPackage) (canonical : Bytes) : Prop where
  request : x.decodeRequest package.requestBytes = some validated.request
  encoded : x.encodeRequest validated.request = some canonical
  countable : Countable package.files
  digest : validated.digest = ⟨x.digest (digestInput canonical (sortFiles package.files))⟩

theorem readPackageContents_hashed {package : StoredPackage} {entry : FileEntry}
    {request : StoredFile} {children : PayloadNodes} {validated : ValidatedPackage}
    {payload : List PayloadFile} (hentry : package.request = some entry)
    (hplain : entry.IsPlain request) (hchildren : package.payload = some (some children))
    (h : (readPackageContents x policy request children).result = .ok (validated, payload)) :
    ∃ canonical, package.Hashed x validated canonical := by
  simp only [readPackageContents, readDigest, decodeRequest, Reading.result_bind,
    Reading.result_lift, Reading.result_pure, bind_eq_ok, exists_unit, readLimitedFile_eq_ok,
    ofOption_eq_ok, Except.ok.injEq, Prod.mk.injEq] at h
  obtain ⟨bytes, ⟨-, rfl⟩, -, -, decoded, hdecoded, -, files, hscan, -, -, canonical, hcanonical,
    digest, ⟨-, rfl⟩, rfl, -⟩ := h
  obtain ⟨rfl, hcountable⟩ := scanPayloadDirectory_eq_ok hscan
  have hbytes : package.requestBytes = request.bytes := by
    rw [StoredPackage.requestBytes, hentry, hplain.1]
  have hfiles : package.files = children.levelFiles [] ++ children.filesBelow [] := by
    rw [StoredPackage.files, hchildren]
  exact ⟨canonical, hbytes ▸ hdecoded, hcanonical, hfiles ▸ hcountable, hfiles ▸ rfl⟩

theorem readIncomingPackage_hashed {package : StoredPackage} {validated : ValidatedPackage}
    (h : (readIncomingPackage x policy package).result = .ok validated) :
    ∃ canonical, package.Hashed x validated canonical := by
  obtain ⟨request, children, payload, -, ⟨entry, hentry, hplain⟩, hchildren, hcontents⟩ :=
    readIncomingPackage_eq_ok.1 h
  exact readPackageContents_hashed hentry hplain hchildren hcontents

theorem readAcceptedPackage_hashed {package : StoredPackage} {validated : ValidatedPackage}
    (h : (readAcceptedPackage x policy package).result = .ok validated) :
    ∃ canonical, package.Hashed x validated canonical := by
  obtain ⟨layout, contents, payload, acceptance, hlayout, hcontents, -, -, -, rfl⟩ :=
    readAcceptedPackage_eq_ok.1 h
  obtain ⟨entry, hentry, hplain⟩ := hlayout.request
  obtain ⟨canonical, hhashed⟩ :=
    readPackageContents_hashed hentry hplain hlayout.payload hcontents
  exact ⟨canonical, hhashed.request, hhashed.encoded, hhashed.countable, hhashed.digest⟩

namespace StoredPackage.Hashed

variable {package other : StoredPackage} {validated validated' : ValidatedPackage}
  {canonical canonical' : Bytes}

theorem stream (h : package.Hashed x validated canonical) :
    package.digestStream x.toExternals = digestInput canonical (sortFiles package.files) := by
  rw [digestStream, h.request, Option.bind_some, h.encoded, Option.getD_some]

/-- Nothing but the request and the files is hashed. -/
theorem digest_congr (h : package.Hashed x validated canonical)
    (h' : other.Hashed x validated' canonical') (hrequest : validated.request = validated'.request)
    (hfiles : sortFiles package.files = sortFiles other.files) :
    validated.digest = validated'.digest := by
  have hcanonical := h.encoded
  rw [hrequest, h'.encoded, Option.some.injEq] at hcanonical
  rw [h.digest, h'.digest, hfiles, hcanonical]

theorem countable_sortFiles (h : package.Hashed x validated canonical) :
    Countable (sortFiles package.files) where
  count := by
    rw [(perm_sortFiles _).length_eq]
    exact h.countable.count
  lengths file hfile := h.countable.lengths file (mem_sortFiles.1 hfile)

end StoredPackage.Hashed

theorem digest_eq_iff (hx : x.RequestsInjective) {policy' : PackagePolicy}
    {package other : StoredPackage} {validated validated' : ValidatedPackage}
    (h : (readIncomingPackage x policy package).result = .ok validated)
    (h' : (readIncomingPackage x policy' other).result = .ok validated')
    (hdistinct : package.PathsDistinct) (hdistinct' : other.PathsDistinct)
    (hcollision : Set.InjOn x.digest {package.digestStream x.toExternals, other.digestStream x.toExternals}) :
    validated.digest = validated'.digest ↔
      validated.request = validated'.request ∧ ∀ file, file ∈ package.files ↔ file ∈ other.files := by
  obtain ⟨canonical, hhashed⟩ := readIncomingPackage_hashed h
  obtain ⟨canonical', hhashed'⟩ := readIncomingPackage_hashed h'
  constructor
  · intro hdigest
    rw [hhashed.digest, hhashed'.digest, PackageDigest.mk.injEq] at hdigest
    have hstream := hcollision (Set.mem_insert _ _) (Set.mem_insert_of_mem _ rfl)
      (by rwa [hhashed.stream, hhashed'.stream])
    rw [hhashed.stream, hhashed'.stream] at hstream
    obtain ⟨rfl, hfiles⟩ := digestInput_injective (hx.length _ _ hhashed.encoded)
      (hx.length _ _ hhashed'.encoded) hhashed.countable_sortFiles hhashed'.countable_sortFiles
      hstream
    refine ⟨hx.injective _ _ _ hhashed.encoded hhashed'.encoded, fun file => ?_⟩
    rw [← mem_sortFiles, hfiles, mem_sortFiles]
  · rintro ⟨hrequest, hfiles⟩
    exact hhashed.digest_congr hhashed' hrequest (sortFiles_congr hdistinct hdistinct' hfiles)

/-! ### Accepted packages -/

/-- The sidecars are not hashed. -/
theorem digest_of_sameContent {policy' : PackagePolicy} {package stored : StoredPackage}
    {digest : PackageDigest} {acceptance : AcceptanceMetadata} {validated found : ValidatedPackage}
    (h : (readIncomingPackage x policy package).result = .ok validated)
    (hsame : (acceptedPackage x package digest acceptance).SameContent stored)
    (h' : (readAcceptedPackage x policy' stored).result = .ok found) :
    found.digest = validated.digest := by
  obtain ⟨canonical, hhashed⟩ := readIncomingPackage_hashed h
  obtain ⟨canonical', hhashed'⟩ := readAcceptedPackage_hashed h'
  have hbytes : stored.requestBytes = package.requestBytes := by
    rw [StoredPackage.requestBytes, hsame.request]
    rfl
  have hfiles : stored.files = package.files := by
    rw [StoredPackage.files, hsame.payload]
    rfl
  have hrequest := hhashed'.request
  rw [hbytes, hhashed.request, Option.some.injEq] at hrequest
  exact hhashed'.digest_congr hhashed hrequest.symm (by rw [hfiles])

/-- The digest of a package stands for its request and its payload, and every accepted
package keeps the digest it was accepted with, wherever the queue has moved it. -/
theorem package_digest_exact {q : QueueSetup} (hx : q.x.RequestsInjective) :
    (∀ policy policy' package other validated validated',
      (readIncomingPackage q.x policy package).result = .ok validated →
      (readIncomingPackage q.x policy' other).result = .ok validated' →
      package.PathsDistinct → other.PathsDistinct →
      Set.InjOn q.x.digest
        {package.digestStream q.x.toExternals, other.digestStream q.x.toExternals} →
      (validated.digest = validated'.digest ↔
        validated.request = validated'.request ∧
          ∀ file, file ∈ package.files ↔ file ∈ other.files)) ∧
    ∀ front first back s id, QueueHistory q (front ++ first :: back) s → Publishes id first →
      ∃ upload validated acceptance state stored,
        first.call = .accept upload ∧
        (readIncomingPackage q.x q.policy upload.staged).result = .ok validated ∧
        s.Located id state stored ∧
        stored.digest = some (digestEntry validated.digest) ∧
        (readAcceptedPackage q.x q.policy stored).result =
          .ok { validated with acceptance := some acceptance } ∧
        ∀ policy found, (readAcceptedPackage q.x policy stored).result = .ok found →
          found.digest = validated.digest := by
  refine ⟨fun _ _ _ _ _ _ h h' hdistinct hdistinct' hcollision =>
    digest_eq_iff hx h h' hdistinct hdistinct' hcollision, ?_⟩
  intro front first back s id hhistory hfirst
  obtain ⟨hfront, hrun, hback⟩ := hhistory.around
  have hbefore := (queueInv_of_history hfront).1
  obtain ⟨upload, validated, acceptance, hcall, hincoming, -, -, -, -, hpublished⟩ :=
    hfirst.published hbefore hrun
  obtain ⟨state, stored, hlocated, hprogress⟩ :=
    progress_history hback (hbefore.event hrun) hpublished
  have hok := (((hbefore.event hrun).history hback).located hlocated.here).2
  have haccepted := readAcceptedPackage_of_sameContent
    (readAcceptedPackage_of_incoming acceptance hincoming) hprogress.content hok.phase.plain
    hok.result.plain
  exact ⟨upload, validated, acceptance, state, stored, hcall, hincoming, hlocated,
    hprogress.content.digest, haccepted,
    fun policy found hfound => digest_of_sameContent hincoming hprogress.content hfound⟩

namespace QueueSample

/-- Requests may be written with spaces. -/
def spacedSetup : QueueSetup :=
  { setup with x := { setup.x with
      decodeRequest := fun bytes => setup.x.decodeRequest (bytes.filter (· ≠ 32)) } }

/-- A package with its request file written in another way. -/
def spaced (number : Fin 8) : StoredPackage :=
  { staged number with request := some (.file { bytes := [32, letter number] }) }

theorem setup_requests : setup.x.RequestsInjective := by
  have htables := Externals.ofTables_requests []
    ((List.finRange 8).map fun number => ([letter number], request number)) (by decide +kernel)
  exact ⟨htables.injective, htables.length⟩

theorem pathsDistinct_staged (number : Fin 8) : (staged number).PathsDistinct := by
  unfold StoredPackage.PathsDistinct
  revert number
  decide +kernel

theorem spaced_request {package : StoredPackage} {validated : ValidatedPackage}
    {request : ChangeRequest}
    (h : (readIncomingPackage spacedSetup.x spacedSetup.policy package).result = .ok validated)
    (hrequest : spacedSetup.x.decodeRequest package.requestBytes = some request) :
    validated.request = request := by
  obtain ⟨canonical, hhashed⟩ := readIncomingPackage_hashed h
  rw [hhashed.request, Option.some.injEq] at hrequest
  exact hrequest

/-- The accepted package as it is after a claim has its digest, which is not the digest
of another request; spaces in the request file change nothing. -/
theorem package_digest_exact_retry :
    (∃ state stored,
      (playEnd (perform setup) retry.after [claimTurn 1 1]).Located (requestId 1) state stored ∧
      stored.digest = some (digestEntry (digest 1))) ∧
    ∃ validated reformatted other,
      (readIncomingPackage spacedSetup.x spacedSetup.policy (staged 1)).result = .ok validated ∧
      (readIncomingPackage spacedSetup.x spacedSetup.policy (spaced 1)).result = .ok reformatted ∧
      (readIncomingPackage spacedSetup.x spacedSetup.policy (staged 5)).result = .ok other ∧
      validated.digest = reformatted.digest ∧ validated.digest ≠ other.digest := by
  have hexact := (package_digest_exact (q := spacedSetup)
    ⟨setup_requests.injective, setup_requests.length⟩).1
  obtain ⟨validated, h⟩ : ∃ validated, (readIncomingPackage spacedSetup.x spacedSetup.policy
      (staged 1)).result = .ok validated := exists_eq_ok_of_isOk (by decide +kernel)
  obtain ⟨reformatted, hspaced⟩ : ∃ validated, (readIncomingPackage spacedSetup.x
      spacedSetup.policy (spaced 1)).result = .ok validated :=
    exists_eq_ok_of_isOk (by decide +kernel)
  obtain ⟨other, hother⟩ : ∃ validated, (readIncomingPackage spacedSetup.x spacedSetup.policy
      (staged 5)).result = .ok validated := exists_eq_ok_of_isOk (by decide +kernel)
  have hrequest := spaced_request h (by decide +kernel : _ = some (request 1))
  refine ⟨?_, validated, reformatted, other, h, hspaced, hother, ?_, fun hdigest => ?_⟩
  · have hhistory : QueueHistory setup
        (play (perform setup) .empty [cutUpload] ++ retry :: play (perform setup) retry.after
          [claimTurn 1 1]) _ :=
      (history_play (perform setup) .empty [cutUpload]).append
        ((Turn.history _ _ _).append (history_play (perform setup) retry.after [claimTurn 1 1]))
    obtain ⟨upload, validated, acceptance, state, stored, hcall, hincoming, hlocated, hstored, -⟩ :=
      (package_digest_exact setup_requests).2 _ _ _ _ _ hhistory publishes_retry
    cases hcall
    obtain ⟨canonical, hhashed⟩ := readIncomingPackage_hashed hincoming
    have hdigest : validated.digest = digest 1 := by
      rw [hhashed.digest, ← hhashed.stream]
      decide +kernel
    exact ⟨state, stored, hlocated, hdigest ▸ hstored⟩
  · have hrequest' := spaced_request hspaced (by decide +kernel : _ = some (request 1))
    have hcanonical : (spacedSetup.x.decodeRequest (staged 1).requestBytes).bind
        spacedSetup.x.encodeRequest = (spacedSetup.x.decodeRequest (spaced 1).requestBytes).bind
        spacedSetup.x.encodeRequest := by decide +kernel
    have hstream : (staged 1).digestStream spacedSetup.x.toExternals =
        (spaced 1).digestStream spacedSetup.x.toExternals := by
      rw [StoredPackage.digestStream, hcanonical]
      rfl
    refine (hexact _ _ _ _ _ _ h hspaced (pathsDistinct_staged 1) (pathsDistinct_staged 1) ?_).2
      ⟨hrequest.trans hrequest'.symm, fun file => Iff.rfl⟩
    rw [hstream, Set.pair_eq_singleton]
    exact Set.injOn_singleton _ _
  · have hrequest' := spaced_request hother (by decide +kernel : _ = some (request 5))
    have hcollision : spacedSetup.x.digest ((staged 1).digestStream spacedSetup.x.toExternals) ≠
        spacedSetup.x.digest ((staged 5).digestStream spacedSetup.x.toExternals) := by
      decide +kernel
    have hsame := ((hexact _ _ _ _ _ _ h hother (pathsDistinct_staged 1) (pathsDistinct_staged 5)
      (Set.injOn_pair.2 fun heq => absurd heq hcollision)).1 hdigest).1
    exact absurd ((hrequest.symm.trans hsame).trans hrequest') (by decide +kernel)

end QueueSample

end AgentKnowledge
