import AgentKnowledge.Access.Registry
import Mathlib

/-!
The `authorized_keys` file and the login shell that runs its forced commands
(`crates/access/src/authorized_keys.rs`, `src/bin/agent_knowledge_ssh_shell.rs`).

The registry writes one restricted line for each active client. `parseAuthorizedKeys` reads such
a file back, and the login shell reads the forced command of a line once more when the client
connects. The two readers are written apart, so that they agree is a theorem: a written file is
read back as the active clients (`parseAuthorizedKeys_written`), and in every accepted file the
shell finds the client that the reader found (`shell_agrees`).
-/

namespace AgentKnowledge

open Results

/-! ### Texts -/

/-- The text before the first occurrence of a marker, and the text from there on
(`str::find`). -/
def splitAtMarker (marker : List Char) : List Char → Option (List Char × List Char)
  | [] => if marker = [] then some ([], []) else none
  | c :: rest =>
      if marker.isPrefixOf (c :: rest) then some ([], c :: rest)
      else (splitAtMarker marker rest).map fun found => (c :: found.1, found.2)

def stripPrefix (front text : List Char) : Option (List Char) :=
  if front.isPrefixOf text then some (text.drop front.length) else none

def stripSuffix (last : Char) (text : List Char) : Option (List Char) :=
  if text.getLast? = some last then some text.dropLast else none

/-- `Path::is_absolute` on Unix. -/
def isAbsolute (path : List Char) : Bool := path.head? == some '/'

/-- The last component of an absolute path (`Path::file_name`). -/
def pathFileName (path : List Char) : Option (List Char) :=
  ((path.splitOn '/').filter fun part => part ≠ [] && part ≠ ['.']).getLast?.filter
    fun name => name ≠ ['.', '.']

def isAsciiAlphanumeric (c : Char) : Bool :=
  isAsciiLowercase c || ('A' ≤ c && c ≤ 'Z') || isAsciiDigit c

def isSafeDirectPath (value : List Char) : Bool :=
  isAbsolute value && value.all fun c =>
    isAsciiAlphanumeric c || c == '/' || c == '.' || c == '_' || c == '+' || c == '-'

/-! ### Writing -/

def maximumAuthorizedKeysBytes : Nat := 4 * 1024 * 1024

def forcedCommandPrefix : List Char := Text.lit "restrict,command=\""

def forcedCommandVersion : List Char := Text.lit "akg-v1"

def keyMarker : List Char := ' ' :: (ed25519Algorithm ++ [' '])

inductive AuthorizedKeysRenderError where
  | invalidGatewayConfig
deriving DecidableEq

def RegistrySnapshot.activeClients (snapshot : RegistrySnapshot) : List ClientRecord :=
  snapshot.clients.filter fun client => client.status = .active

/-- The command a client's key is bound to. -/
def forcedCommand (gatewayConfig : List Char) (clientId : ClientId) : List Char :=
  forcedCommandVersion ++ ' ' :: (gatewayConfig ++ ' ' :: clientId.value.toList)

def authorizedKeysLine (gatewayConfig : List Char) (client : ClientRecord) : List Char :=
  forcedCommandPrefix ++ (forcedCommand gatewayConfig client.clientId ++
    '"' :: ' ' :: client.publicKey)

/-- Writes active registry clients in the restricted OpenSSH key format. -/
def writeAuthorizedKeys (snapshot : Option RegistrySnapshot) (gatewayConfig : List Char) :
    Except AuthorizedKeysRenderError (List Char) := do
  rejectIf (¬ isSafeDirectPath gatewayConfig) .invalidGatewayConfig
  match snapshot with
  | none => pure []
  | some snapshot =>
      pure (Text.unlines (snapshot.activeClients.map (authorizedKeysLine gatewayConfig)))

/-! ### Reading -/

inductive AuthorizedKeysImportError where
  | tooLarge
  | invalidLine (line : Option Nat)
  | clientId (source : ClientIdError)
  | key (source : KeyValidationError)
deriving DecidableEq

/-- Say at which line a line was invalid. -/
def AuthorizedKeysImportError.atLine (error : AuthorizedKeysImportError) (line : Nat) :
    AuthorizedKeysImportError :=
  match error with
  | .invalidLine _ => .invalidLine (some line)
  | other => other

/-- One client recovered from the static `authorized_keys` format. -/
structure ImportedClient where
  clientId : ClientId
  publicKey : NormalizedPublicKey
deriving DecidableEq

/-- Reads a forced command: the versioned form, or a direct call of the Gateway. -/
def parseForcedCommand (command : List Char) : Except AuthorizedKeysImportError ClientId :=
  match command.splitOn ' ' with
  | [] => .error (.invalidLine none)
  | first :: fields =>
      if first = forcedCommandVersion then
        match fields with
        | config :: clientId :: more => do
            rejectIf (¬ isAbsolute config ∨ more ≠ []) (.invalidLine none)
            (ClientId.fromStr clientId).mapError .clientId
        | _ => .error (.invalidLine none)
      else
        match fields with
        | [subcommand, configFlag, config, clientIdFlag, clientId] => do
            rejectIf (¬ isSafeDirectPath first ∨
              pathFileName first ≠ some (Text.lit "agent-knowledge") ∨
              subcommand ≠ Text.lit "gateway" ∨ configFlag ≠ Text.lit "--config" ∨
              ¬ isSafeDirectPath config ∨ clientIdFlag ≠ Text.lit "--client-id") (.invalidLine none)
            (ClientId.fromStr clientId).mapError .clientId
        | _ => .error (.invalidLine none)

section Parse

variable (x : AccessExternals)

def parseLine (line : List Char) : Except AuthorizedKeysImportError ImportedClient := do
  let (options, marked) ← ofOption (splitAtMarker keyMarker line) (.invalidLine none)
  let command ← ofOption ((stripPrefix forcedCommandPrefix options).bind (stripSuffix '"'))
    (.invalidLine none)
  rejectIf ('"' ∈ command ∨ '\\' ∈ command) (.invalidLine none)
  let clientId ← parseForcedCommand command
  let publicKey ← (NormalizedPublicKey.parse x marked.tail).mapError .key
  pure ⟨clientId, publicKey⟩

/-- A line that is neither blank nor a comment. -/
def isSignificant (line : List Char) : Bool :=
  !(Text.trim line).isEmpty && (Text.trim line).head? != some '#'

/-- Parses the exact static format. -/
def parseAuthorizedKeys (input : List Char) :
    Except AuthorizedKeysImportError (List ImportedClient) := do
  rejectIf (maximumAuthorizedKeysBytes < Json.size input) .tooLarge
  ((Text.lines input).zipIdx.filter fun numbered => isSignificant numbered.1).mapM fun numbered =>
    (parseLine x (Text.trim numbered.1)).mapError fun error => error.atLine (numbered.2 + 1)

end Parse

/-! ### The login shell -/

structure ForcedCommandInvocation where
  config : List Char
  clientId : ClientId
deriving DecidableEq

inductive ShellError where
  | invalidInvocation
  | nonUtf8ForcedCommand
  | invalidForcedCommand
  | relativeConfigPath
  | clientId (source : ClientIdError)
deriving DecidableEq

/-- Reads the arguments of the login shell. An argument that is not UTF-8 has no text. -/
def ForcedCommandInvocation.parse (arguments : List (Option (List Char))) :
    Except ShellError ForcedCommandInvocation :=
  match arguments with
  | [_program, some ['-', 'c'], command] => do
      let command ← ofOption command .nonUtf8ForcedCommand
      match command.splitOn ' ' with
      | version :: fields => do
          rejectIf (version ≠ forcedCommandVersion) .invalidForcedCommand
          match fields with
          | [config, clientId] => do
              rejectIf (¬ isAbsolute config) .relativeConfigPath
              let clientId ← (ClientId.fromStr clientId).mapError ShellError.clientId
              pure ⟨config, clientId⟩
          | _ => .error .invalidForcedCommand
      | [] => .error .invalidForcedCommand
  | _ => .error .invalidInvocation

/-! ### The forced command of a line -/

/-- What stands between the first two quotation marks of a line. -/
def quotedCommand (line : List Char) : List Char :=
  ((line.dropWhile (· != '"')).drop 1).takeWhile (· != '"')

section Command

theorem quotedCommand_eq {front command back : List Char} (hfront : '"' ∉ front)
    (hcommand : '"' ∉ command) :
    quotedCommand (front ++ '"' :: (command ++ '"' :: back)) = command := by
  have hskip : ∀ c ∈ front, (c != '"') = true := fun c hc => by
    simpa using fun h : c = '"' => hfront (h ▸ hc)
  have htake : ∀ c ∈ command, (c != '"') = true := fun c hc => by
    simpa using fun h : c = '"' => hcommand (h ▸ hc)
  simp [quotedCommand, List.dropWhile_append_of_pos hskip, List.takeWhile_append_of_pos htake]

theorem forcedCommandPrefix_eq : forcedCommandPrefix = 'r' :: Text.lit "estrict,command=\"" := by
  simp [forcedCommandPrefix, Text.lit_eq]

/-- The command in quotes after the option that every line begins with. -/
theorem quotedCommand_forced {command back : List Char} (hcommand : '"' ∉ command) :
    quotedCommand (forcedCommandPrefix ++ (command ++ '"' :: back)) = command := by
  have hoption : forcedCommandPrefix = Text.lit "restrict,command=" ++ ['"'] := by
    simp [forcedCommandPrefix, Text.lit_eq]
  rw [hoption, List.append_assoc]
  exact quotedCommand_eq (by simp [Text.lit_eq]) hcommand

/-- The command the shell takes apart is the one the reader took apart. -/
theorem shell_parse_of_parseForcedCommand {command : List Char} {clientId : ClientId}
    (hversion : (command.splitOn ' ').head? = some forcedCommandVersion)
    (h : parseForcedCommand command = .ok clientId) (program : Option (List Char)) :
    ∃ config, isAbsolute config ∧
      ForcedCommandInvocation.parse [program, some ['-', 'c'], some command] =
        .ok ⟨config, clientId⟩ := by
  unfold parseForcedCommand at h
  cases hfields : command.splitOn ' ' with
  | nil => simp [hfields] at hversion
  | cons first fields =>
      obtain rfl : first = forcedCommandVersion := by simpa [hfields] using hversion
      simp only [hfields, if_true] at h
      split at h
      · rename_i config text more
        simp only [bind_eq_ok, exists_unit, rejectIf_eq_ok, mapError_eq_ok, not_or, not_not,
          ne_eq] at h
        obtain ⟨⟨habsolute, rfl⟩, hclient⟩ := h
        refine ⟨config, habsolute, ?_⟩
        simp [ForcedCommandInvocation.parse, hfields, habsolute, hclient, Except.mapError]
      · cases h

end Command

/-! ### Finding the key -/

section Marker

variable {marker : List Char}

theorem splitAtMarker_append {text front back : List Char}
    (h : splitAtMarker marker text = some (front, back)) : text = front ++ back := by
  induction text generalizing front with
  | nil =>
      unfold splitAtMarker at h
      split at h
      · simp_all
      · cases h
  | cons c rest ih =>
      unfold splitAtMarker at h
      split at h
      · obtain ⟨rfl, rfl⟩ := Prod.mk.inj (Option.some.inj h)
        rfl
      · obtain ⟨⟨front, back⟩, hrest, heq⟩ := Option.map_eq_some_iff.1 h
        obtain ⟨rfl, rfl⟩ := Prod.mk.inj heq
        rw [ih hrest]
        rfl

theorem splitAtMarker_here (back : List Char) (hne : marker ≠ []) :
    splitAtMarker marker (marker ++ back) = some ([], marker ++ back) := by
  obtain ⟨c, rest, rfl⟩ := List.exists_cons_of_ne_nil hne
  rw [List.cons_append, splitAtMarker, if_pos]
  rw [List.isPrefixOf_iff_prefix]
  exact List.prefix_append (c :: rest) back

theorem splitAtMarker_cons {c : Char} {rest : List Char} (h : ¬ marker <+: c :: rest) :
    splitAtMarker marker (c :: rest) =
      (splitAtMarker marker rest).map fun found => (c :: found.1, found.2) := by
  rw [splitAtMarker, if_neg]
  rwa [List.isPrefixOf_iff_prefix]

/-- A text without the first character of the marker is passed over. -/
theorem splitAtMarker_skip {first : Char} {word block rest : List Char} (h : first ∉ block) :
    splitAtMarker (first :: word) (block ++ rest) =
      (splitAtMarker (first :: word) rest).map fun found => (block ++ found.1, found.2) := by
  induction block with
  | nil => simp
  | cons c block ih =>
      rw [List.mem_cons, not_or] at h
      rw [List.cons_append, splitAtMarker_cons (fun hbegins => ?_), ih h.2, Option.map_map]
      · rfl
      · exact h.1 (List.cons_prefix_cons.1 hbegins).1

/-- A word and a separator do not begin a text that holds another character first. -/
theorem not_prefix_of_stop {word block back : List Char} {separator stop : Char}
    (hblock : separator ∉ block) (hword : stop ∉ word) (hne : stop ≠ separator) :
    ¬ word ++ [separator] <+: block ++ stop :: back := by
  induction word generalizing block with
  | nil =>
      intro hbegins
      cases block with
      | nil => exact hne (List.cons_prefix_cons.1 hbegins).1.symm
      | cons c block =>
          exact hblock ((List.cons_prefix_cons.1 hbegins).1 ▸ List.mem_cons_self)
  | cons w word ih =>
      intro hbegins
      rw [List.mem_cons, not_or] at hword
      cases block with
      | nil => exact hword.1 (List.cons_prefix_cons.1 hbegins).1.symm
      | cons c block =>
          rw [List.mem_cons, not_or] at hblock
          exact ih hblock.2 hword.2 (List.cons_prefix_cons.1 hbegins).2

end Marker

/-! ### One line -/

section Line

variable {x : AccessExternals}

/-- A text without the characters that end a field, a command or a line. -/
def Clean (text : List Char) : Prop :=
  ∀ c ∈ [' ', '"', '\\', '\n', '\r'], c ∉ text

theorem clean_version : Clean forcedCommandVersion := by
  simp [Clean, forcedCommandVersion, Text.lit_eq]

theorem clean_algorithm : Clean ed25519Algorithm := by
  simp [Clean, ed25519Algorithm, Text.lit_eq]

theorem clean_of_all {text : List Char} {p : Char → Bool} (hall : ∀ c ∈ text, p c = true)
    (hp : ∀ c ∈ [' ', '"', '\\', '\n', '\r'], p c = false) : Clean text := by
  intro c hc hmem
  exact absurd (hall c hmem) (by simp [hp c hc])

theorem clean_path {path : List Char} (h : isSafeDirectPath path) : Clean path := by
  rw [isSafeDirectPath, Bool.and_eq_true, List.all_eq_true] at h
  exact clean_of_all h.2 (List.all_iff_forall_prop.1 (by decide))

theorem clean_clientId (id : ClientId) : Clean id.value.toList := by
  have hvalid := id.valid
  simp only [validClientId, Bool.and_eq_true, List.all_eq_true] at hvalid
  exact clean_of_all hvalid.2 (List.all_iff_forall_prop.1 (by decide))

theorem clean_base64 {text : List Char} (h : ∀ c ∈ text, isBase64 c) : Clean text :=
  clean_of_all h (List.all_iff_forall_prop.1 (by decide))

theorem not_isWhitespace_of_isBase64 {c : Char} (h : isBase64 c) : Text.isWhitespace c = false := by
  have hrange : 43 ≤ c.toNat ∧ c.toNat ≤ 122 := by
    simp only [isBase64, Bool.or_eq_true, Bool.and_eq_true, decide_eq_true_eq, beq_iff_eq] at h
    rcases h with ((((h | h) | h) | rfl) | rfl) | rfl
    · have := toNat_of_isAsciiLowercase h
      omega
    · rw [Char.le_def, Char.le_def, UInt32.le_iff_toNat_le, UInt32.le_iff_toNat_le] at h
      have h' : 65 ≤ c.toNat ∧ c.toNat ≤ 90 := h
      omega
    · have := toNat_of_isAsciiDigit h
      omega
    all_goals decide
  simp only [Text.isWhitespace, Bool.or_eq_false_iff, Bool.and_eq_false_iff, decide_eq_false_iff_not,
    beq_eq_false_iff_ne, ne_eq]
  omega

theorem trim_eq_self {first last : Char} {middle : List Char}
    (hfirst : Text.isWhitespace first = false) (hlast : Text.isWhitespace last = false) :
    Text.trim (first :: (middle ++ [last])) = first :: (middle ++ [last]) := by
  rw [Text.trim, List.dropWhile_cons_of_neg (by simp [hfirst]), ← List.cons_append,
    List.rdropWhile_concat_neg _ _ _ (by simp [hlast])]

theorem splitOn_forcedCommand {config : List Char} (hconfig : isSafeDirectPath config)
    (id : ClientId) :
    (forcedCommand config id).splitOn ' ' =
      [forcedCommandVersion, config, id.value.toList] := by
  have hjoin : forcedCommand config id =
      [' '].intercalate [forcedCommandVersion, config, id.value.toList] := by
    simp [forcedCommand, List.intercalate]
  rw [hjoin, List.splitOn_intercalate]
  · simpa using ⟨clean_version _ (by simp), clean_path hconfig _ (by simp),
      clean_clientId id _ (by simp)⟩
  · simp

theorem isAbsolute_of_isSafeDirectPath {path : List Char} (h : isSafeDirectPath path) :
    isAbsolute path := by
  rw [isSafeDirectPath, Bool.and_eq_true] at h
  exact h.1

/-- The shell finds the configuration and the client in the command that was written. -/
theorem shell_parse_forcedCommand {config : List Char} (hconfig : isSafeDirectPath config)
    (id : ClientId) (program : Option (List Char)) :
    ForcedCommandInvocation.parse [program, some ['-', 'c'], some (forcedCommand config id)] =
      .ok ⟨config, id⟩ := by
  simp [ForcedCommandInvocation.parse, splitOn_forcedCommand hconfig,
    isAbsolute_of_isSafeDirectPath hconfig, id.fromStr_value, Except.mapError]

theorem parseForcedCommand_forcedCommand {config : List Char} (hconfig : isSafeDirectPath config)
    (id : ClientId) : parseForcedCommand (forcedCommand config id) = .ok id := by
  simp [parseForcedCommand, splitOn_forcedCommand hconfig, isAbsolute_of_isSafeDirectPath hconfig,
    id.fromStr_value, Except.mapError]

/-- The options of a written line end where its key begins. -/
theorem splitAtMarker_line {config encoded : List Char} (hconfig : isSafeDirectPath config)
    (id : ClientId) :
    splitAtMarker keyMarker (forcedCommandPrefix ++ (forcedCommand config id ++
        '"' :: ' ' :: (ed25519Algorithm ++ ' ' :: encoded))) =
      some (forcedCommandPrefix ++ (forcedCommand config id ++ ['"']),
        ' ' :: (ed25519Algorithm ++ ' ' :: encoded)) := by
  have hfront : ' ' ∉ forcedCommandPrefix ++ forcedCommandVersion := by
    simp [forcedCommandPrefix, forcedCommandVersion, Text.lit_eq]
  have hquote : ' ' ∉ id.value.toList ++ ['"'] := by
    simpa using clean_clientId id ' ' (by simp)
  have hline : forcedCommandPrefix ++ (forcedCommand config id ++
      '"' :: ' ' :: (ed25519Algorithm ++ ' ' :: encoded)) =
      (forcedCommandPrefix ++ forcedCommandVersion) ++ ' ' :: (config ++ ' ' ::
        ((id.value.toList ++ ['"']) ++ (keyMarker ++ encoded))) := by
    simp [forcedCommand, keyMarker]
  have hpath : ¬ keyMarker <+: ' ' :: (config ++ ' ' ::
      ((id.value.toList ++ ['"']) ++ (keyMarker ++ encoded))) := by
    have habsolute := isAbsolute_of_isSafeDirectPath hconfig
    cases config with
    | nil => cases habsolute
    | cons c rest =>
        obtain rfl : c = '/' := by simpa [isAbsolute] using habsolute
        intro hbegins
        have hslash := (List.cons_prefix_cons.1 hbegins).2
        simp only [ed25519Algorithm, Text.lit_eq, String.reduceToList] at hslash
        exact absurd (List.cons_prefix_cons.1 hslash).1 (by decide)
  have hclient : ¬ keyMarker <+: ' ' :: ((id.value.toList ++ ['"']) ++ (keyMarker ++ encoded)) := by
    intro hbegins
    have hword := (List.cons_prefix_cons.1 hbegins).2
    rw [List.append_assoc] at hword
    exact not_prefix_of_stop (clean_clientId id _ (by simp)) (clean_algorithm _ (by simp))
      (by decide) hword
  rw [hline, keyMarker, splitAtMarker_skip hfront, ← keyMarker, splitAtMarker_cons hpath, keyMarker,
    splitAtMarker_skip (clean_path hconfig _ (by simp)), ← keyMarker, splitAtMarker_cons hclient,
    keyMarker, splitAtMarker_skip hquote, splitAtMarker_here encoded (List.cons_ne_nil _ _)]
  simp [forcedCommand]

/-- A written line is read back. -/
theorem parseLine_written {config : List Char} (hconfig : isSafeDirectPath config)
    {client : ClientRecord}
    (hkey : NormalizedPublicKey.parse x client.publicKey =
      .ok ⟨client.publicKey, client.fingerprint⟩) :
    parseLine x (authorizedKeysLine config client) =
      .ok ⟨client.clientId, client.publicKey, client.fingerprint⟩ := by
  obtain ⟨encoded, hencoded, -, -⟩ := canonical_key hkey
  have hoptions : (stripPrefix forcedCommandPrefix (forcedCommandPrefix ++
      (forcedCommand config client.clientId ++ ['"']))).bind (stripSuffix '"') =
        some (forcedCommand config client.clientId) := by
    simp [stripPrefix, stripSuffix, List.isPrefixOf_iff_prefix]
  have hclean : ¬ ('"' ∈ forcedCommand config client.clientId ∨
      '\\' ∈ forcedCommand config client.clientId) := by
    simp [forcedCommand, clean_version _, clean_path hconfig _, clean_clientId client.clientId _]
  rw [authorizedKeysLine, parseLine, hencoded, splitAtMarker_line hconfig]
  simp only [ofOption_some, ok_bind, hoptions, parseForcedCommand_forcedCommand hconfig,
    List.tail_cons]
  rw [← hencoded, hkey]
  simp [rejectIf, hclean, Except.mapError]

theorem trim_authorizedKeysLine {config : List Char} {client : ClientRecord}
    (hkey : NormalizedPublicKey.parse x client.publicKey =
      .ok ⟨client.publicKey, client.fingerprint⟩) :
    Text.trim (authorizedKeysLine config client) = authorizedKeysLine config client := by
  obtain ⟨encoded, hencoded, hne, hbase64⟩ := canonical_key hkey
  obtain ⟨front, last, rfl⟩ := (List.eq_nil_or_concat encoded).resolve_left hne
  have hlast : Text.isWhitespace last = false :=
    not_isWhitespace_of_isBase64 (hbase64 last (by simp))
  have hline : authorizedKeysLine config client = 'r' :: ((Text.lit "estrict,command=\"" ++
      (forcedCommand config client.clientId ++ '"' :: ' ' :: (ed25519Algorithm ++ ' ' :: front))) ++
        [last]) := by
    rw [authorizedKeysLine, hencoded, forcedCommandPrefix_eq]
    simp
  rw [hline]
  exact trim_eq_self (by decide) hlast

/-- A written line is one line. -/
theorem unbroken_authorizedKeysLine {config : List Char} (hconfig : isSafeDirectPath config)
    {client : ClientRecord}
    (hkey : NormalizedPublicKey.parse x client.publicKey =
      .ok ⟨client.publicKey, client.fingerprint⟩) {c : Char} (hc : c = '\n' ∨ c = '\r') :
    c ∉ authorizedKeysLine config client := by
  obtain ⟨encoded, hencoded, -, hbase64⟩ := canonical_key hkey
  have hend : c ∈ [' ', '"', '\\', '\n', '\r'] ∧ c ≠ ' ' ∧ c ≠ '"' ∧ c ∉ forcedCommandPrefix := by
    rcases hc with rfl | rfl <;> simp [forcedCommandPrefix, Text.lit_eq]
  obtain ⟨hmem, hspace, hquote, hfront⟩ := hend
  simp [authorizedKeysLine, forcedCommand, hencoded, hspace, hquote, hfront, clean_version c hmem,
    clean_path hconfig c hmem, clean_clientId client.clientId c hmem, clean_algorithm c hmem,
    clean_base64 hbase64 c hmem]

/-- A line that is read has its command between the first quotation marks. -/
theorem parseLine_eq_ok {line : List Char} {client : ImportedClient}
    (h : parseLine x line = .ok client) :
    parseForcedCommand (quotedCommand line) = .ok client.clientId := by
  simp only [parseLine, bind_eq_ok, exists_unit, ofOption_eq_ok, rejectIf_eq_ok, mapError_eq_ok,
    pure_eq_ok, Except.ok.injEq, Prod.exists] at h
  obtain ⟨options, marked, hsplit, command, hstrip, hclean, clientId, hclient, key, -, rfl⟩ := h
  obtain ⟨rest, hbegins, hsuffix⟩ := Option.bind_eq_some_iff.1 hstrip
  rw [not_or] at hclean
  have hoptions : options = forcedCommandPrefix ++ rest := by
    unfold stripPrefix at hbegins
    split at hbegins
    · rename_i hfront
      obtain ⟨back, rfl⟩ := List.isPrefixOf_iff_prefix.1 hfront
      simp only [List.drop_left, Option.some.injEq] at hbegins
      rw [hbegins]
    · cases hbegins
  have hrest : rest = command ++ ['"'] := by
    unfold stripSuffix at hsuffix
    split at hsuffix
    · rename_i hlast
      obtain ⟨front, rfl⟩ := List.getLast?_eq_some_iff.1 hlast
      simp only [List.dropLast_concat, Option.some.injEq] at hsuffix
      rw [hsuffix]
    · cases hsuffix
  have hline : line = forcedCommandPrefix ++ (command ++ '"' :: marked) := by
    rw [splitAtMarker_append hsplit, hoptions, hrest]
    simp
  rw [hline, quotedCommand_forced hclean.1]
  exact hclient

end Line

/-! ### Whole files -/

section File

variable {x : AccessExternals} {snapshot : RegistrySnapshot} {generationId config : List Char}

theorem quotedCommand_authorizedKeysLine (hconfig : isSafeDirectPath config)
    (client : ClientRecord) :
    quotedCommand (authorizedKeysLine config client) = forcedCommand config client.clientId := by
  refine quotedCommand_forced ?_
  simp [forcedCommand, clean_version _, clean_path hconfig _, clean_clientId client.clientId _]

theorem lines_written (hvalid : validateSnapshot x snapshot generationId = .ok ())
    (hconfig : isSafeDirectPath config) :
    Text.lines (Text.unlines (snapshot.activeClients.map (authorizedKeysLine config))) =
      snapshot.activeClients.map (authorizedKeysLine config) := by
  refine Text.lines_unlines fun line hline => ?_
  obtain ⟨client, hclient, rfl⟩ := List.mem_map.1 hline
  have hkey := validateSnapshot_clients hvalid client (List.mem_of_mem_filter hclient)
  exact ⟨unbroken_authorizedKeysLine hconfig hkey (.inl rfl),
    unbroken_authorizedKeysLine hconfig hkey (.inr rfl)⟩

/-- The numbered lines of a written file all hold a client. -/
theorem mapM_written (hconfig : isSafeDirectPath config) {clients : List ClientRecord}
    (hkeys : ∀ client ∈ clients, NormalizedPublicKey.parse x client.publicKey =
      .ok ⟨client.publicKey, client.fingerprint⟩) (start : Nat) :
    (((clients.map (authorizedKeysLine config)).zipIdx start).filter fun numbered =>
        isSignificant numbered.1).mapM (fun numbered =>
      (parseLine x (Text.trim numbered.1)).mapError fun error =>
        error.atLine (numbered.2 + 1)) =
      .ok (clients.map fun client =>
        (⟨client.clientId, client.publicKey, client.fingerprint⟩ : ImportedClient)) := by
  induction clients generalizing start with
  | nil => rfl
  | cons client rest ih =>
      obtain ⟨hkey, hrest⟩ := List.forall_mem_cons.1 hkeys
      have htrim : Text.trim (authorizedKeysLine config client) = authorizedKeysLine config client :=
        trim_authorizedKeysLine hkey
      have hsignificant : isSignificant (authorizedKeysLine config client) := by
        rw [isSignificant, htrim, authorizedKeysLine, forcedCommandPrefix_eq]
        rfl
      rw [List.map_cons, List.zipIdx_cons, List.filter_cons, if_pos hsignificant, List.mapM_cons,
        ih hrest, htrim, parseLine_written hconfig hkey]
      rfl

/-- A written file is read back as the active clients, in their order. -/
theorem parseAuthorizedKeys_written (hvalid : validateSnapshot x snapshot generationId = .ok ())
    (hconfig : isSafeDirectPath config)
    (hsize : Json.size (Text.unlines (snapshot.activeClients.map (authorizedKeysLine config))) ≤
      maximumAuthorizedKeysBytes) :
    parseAuthorizedKeys x (Text.unlines (snapshot.activeClients.map (authorizedKeysLine config))) =
      .ok (snapshot.activeClients.map fun client =>
        ⟨client.clientId, client.publicKey, client.fingerprint⟩) := by
  rw [parseAuthorizedKeys, lines_written hvalid hconfig, rejectIf, if_neg (Nat.not_lt.2 hsize),
    ok_bind]
  exact mapM_written hconfig (fun client hclient =>
    validateSnapshot_clients hvalid client (List.mem_of_mem_filter hclient)) 0

/-- The shell runs the client that the reader found, line by line. -/
theorem shell_agrees {text : List Char} {clients : List ImportedClient}
    (h : parseAuthorizedKeys x text = .ok clients) :
    List.Forall₂ (fun line client =>
        ((quotedCommand (Text.trim line)).splitOn ' ').head? = some forcedCommandVersion →
          ∀ program, ∃ config, isAbsolute config ∧
            ForcedCommandInvocation.parse
              [program, some ['-', 'c'], some (quotedCommand (Text.trim line))] =
                .ok ⟨config, client.clientId⟩)
      ((Text.lines text).filter isSignificant) clients := by
  simp only [parseAuthorizedKeys, bind_eq_ok, exists_unit] at h
  have hpairs := forall₂_of_mapM_eq_ok h.2
  have hlines : (Text.lines text).filter isSignificant =
      ((Text.lines text).zipIdx.filter fun numbered => isSignificant numbered.1).map Prod.fst := by
    rw [← List.zipIdx_map_fst 0 (Text.lines text), List.filter_map]
    rw [List.zipIdx_map_fst]
    rfl
  rw [hlines, List.forall₂_map_left_iff]
  refine hpairs.imp fun numbered client hparse hversion program => ?_
  rw [mapError_eq_ok] at hparse
  exact shell_parse_of_parseForcedCommand hversion (parseLine_eq_ok hparse) program

end File

/-- Written files are read back by both readers, and the readers agree on every file. -/
theorem authorized_keys_round_trip (x : AccessExternals) :
    (∀ (snapshot : RegistrySnapshot) (generationId config text : List Char),
      validateSnapshot x snapshot generationId = .ok () → isSafeDirectPath config →
      writeAuthorizedKeys (some snapshot) config = .ok text →
      Json.size text ≤ maximumAuthorizedKeysBytes →
      parseAuthorizedKeys x text = .ok (snapshot.activeClients.map fun client =>
          ⟨client.clientId, client.publicKey, client.fingerprint⟩) ∧
        Text.lines text = snapshot.activeClients.map (authorizedKeysLine config) ∧
        ∀ client ∈ snapshot.activeClients, ∀ program,
          ForcedCommandInvocation.parse [program, some ['-', 'c'],
            some (quotedCommand (authorizedKeysLine config client))] =
              .ok ⟨config, client.clientId⟩) ∧
    ∀ (text : List Char) (clients : List ImportedClient),
      parseAuthorizedKeys x text = .ok clients →
      List.Forall₂ (fun line client =>
          ((quotedCommand (Text.trim line)).splitOn ' ').head? = some forcedCommandVersion →
            ∀ program, ∃ config, isAbsolute config ∧
              ForcedCommandInvocation.parse
                [program, some ['-', 'c'], some (quotedCommand (Text.trim line))] =
                  .ok ⟨config, client.clientId⟩)
        ((Text.lines text).filter isSignificant) clients := by
  refine ⟨fun snapshot generationId config text hvalid hconfig hwrite hsize => ?_,
    fun text clients => shell_agrees⟩
  obtain rfl : Text.unlines (snapshot.activeClients.map (authorizedKeysLine config)) = text := by
    simpa [writeAuthorizedKeys, rejectIf, hconfig] using hwrite
  refine ⟨parseAuthorizedKeys_written hvalid hconfig hsize, lines_written hvalid hconfig,
    fun client _ program => ?_⟩
  rw [quotedCommand_authorizedKeysLine hconfig]
  exact shell_parse_forcedCommand hconfig client.clientId program

namespace AccessSample

/-- The letters `a` to `p` stand for the sixteen halves of a byte. -/
def letter (half : Nat) : Char := Char.ofNat (97 + half)

def spell : Bytes → List Char
  | [] => []
  | byte :: rest => letter (byte.toNat / 16) :: letter (byte.toNat % 16) :: spell rest

def unspell : List Char → Option Bytes
  | [] => some []
  | high :: low :: rest => (unspell rest).map fun bytes =>
      UInt8.ofNat ((high.toNat - 97) * 16 + (low.toNat - 97)) :: bytes
  | [_] => none

theorem letter_spec : ∀ half < 16, (letter half).toNat = 97 + half ∧ isBase64 (letter half) := by
  decide

theorem unspell_spell (bytes : Bytes) : unspell (spell bytes) = some bytes := by
  induction bytes with
  | nil => rfl
  | cons byte rest ih =>
      have hbyte : byte.toNat < 256 := byte.toNat_lt
      have hhigh := (letter_spec (byte.toNat / 16) (by omega)).1
      have hlow := (letter_spec (byte.toNat % 16) (by omega)).1
      have hvalue : (97 + byte.toNat / 16 - 97) * 16 + (97 + byte.toNat % 16 - 97) =
          byte.toNat := by omega
      rw [spell, unspell, ih, hhigh, hlow, hvalue, UInt8.ofNat_toNat]
      rfl

theorem isBase64_of_mem_spell {bytes : Bytes} {c : Char} (h : c ∈ spell bytes) : isBase64 c := by
  induction bytes with
  | nil => cases h
  | cons byte rest ih =>
      have hbyte : byte.toNat < 256 := byte.toNat_lt
      rcases List.mem_cons.1 h with rfl | h
      · exact (letter_spec _ (by omega)).2
      · rcases List.mem_cons.1 h with rfl | h
        · exact (letter_spec _ (by omega)).2
        · exact ih h

def externals : AccessExternals where
  standard := ⟨spell, unspell, unspell_spell, isBase64_of_mem_spell⟩
  standardNoPad := spell
  sha256 bytes := bytes.take 2
  parseTime _ := some ⟨2026, 1, 1, 0, 0, 0, 0, 0, by decide⟩
  parseUlid _ := some ⟨0, by decide⟩

def wire : Bytes :=
  [0, 0, 0, 11] ++ Bytes.ascii "ssh-ed25519" ++ [0, 0, 0, 32] ++ List.replicate 32 7

def laptop : ClientRecord where
  clientId := ⟨"laptop", by decide⟩
  publicKey := (normalizedKey externals wire).openssh
  fingerprint := (normalizedKey externals wire).fingerprint
  status := .active
  createdAt := ['t']
  updatedAt := ['t']

def snapshot : RegistrySnapshot where
  schemaVersion := 1
  generationId := ['g']
  previousGeneration := none
  changedAt := ['t']
  change := ⟨.add, ['a'], [laptop.clientId]⟩
  clients := [laptop]

def config : List Char := Text.lit "/etc/akg.toml"

/-- A registry of one active client: its file is read back as that client. -/
theorem laptop_read_back :
    parseAuthorizedKeys externals (Text.unlines [authorizedKeysLine config laptop]) =
      .ok [⟨laptop.clientId, laptop.publicKey, laptop.fingerprint⟩] :=
  ((authorized_keys_round_trip externals).1 snapshot ['g'] config _ (by decide +kernel)
    (by decide +kernel) (by decide +kernel) (by decide +kernel)).1

end AccessSample

end AgentKnowledge
