import Mathlib.Data.List.Sort
import Mathlib.Order.Lex
import Logme.ControlWords
import Logme.Library.LinkedTree

/-!
# The `logs` command

The command reads log files below the home directory.  The process sees a tree
with symbolic links that does not change while the command runs, and the paths
are those of `std::filesystem` on POSIX.  A reply keeps, beside its text, the
value that the command's own function returns and the real path of the file
whose content it shows.
-/

namespace Logme.CmdLogs

open LinkedTree

abbrev Disk := Tree Name UInt8

def defaultTailBytes : Nat := 256 * 1024

def defaultReadBytes : Nat := 512 * 1024

def maxReadBytes : Nat := 4 * 1024 * 1024

def maxDownloadBytes : Nat := 256 * 1024 * 1024

/-! ## Paths -/

def separator : UInt8 := 0x2F

def splitSlash (text : Name) : List Name := splitBytes (· = separator) text

def parseSegment (word : Name) : Segment Name :=
  if word = ascii "." then .here
  else if word = ascii ".." then .up
  else .name word

/-- The elements of `fs::path`. -/
def parsePath (text : Name) : Path Name :=
  let names := ((splitSlash text).filter (· ≠ [])).map parseSegment
  (if text.head? = some separator then [.root] else []) ++ names ++
    (if names ≠ [] ∧ text.getLast? = some separator then [.slash] else [])

def isAbsolute (text : Name) : Bool := text.head? = some separator

def segmentText : Segment Name → Name
  | .root => [separator]
  | .here => ascii "."
  | .up => ascii ".."
  | .name a => a
  | .slash => []

/-- `string` and `generic_string`. -/
def pathString : Path Name → Name
  | [] => []
  | [s] => segmentText s
  | .root :: rest => separator :: pathString rest
  | s :: rest => segmentText s ++ separator :: pathString rest

/-- `fs::path::extension`; a dot in front does not start one. -/
def extension (p : Path Name) : Name :=
  match p.getLast? with
  | some (.name a) =>
      match a.reverse.dropWhile (· ≠ 0x2E) with
      | _ :: _ :: _ => 0x2E :: (a.reverse.takeWhile (· ≠ 0x2E)).reverse
      | _ => []
  | _ => []

/-- The home directory is empty or ends with a separator. -/
structure HomeDirectory where
  text : Name
  closed : text = [] ∨ text.getLast? = some separator

def setHomeDirectory (path : Name) : HomeDirectory :=
  if h : path = [] ∨ path.getLast? = some separator then ⟨path, h⟩
  else ⟨path ++ [separator], .inr List.getLast?_concat⟩

/-! ## Helpers of the command -/

def standardExtensions : List Name :=
  [ascii ".log", ascii ".nlb", ascii ".nlr", ascii ".b64", ascii ".dat",
    ascii ".csv"]

def dotted (extension : Name) : Name :=
  match extension with
  | [] => []
  | c :: rest => if c = 0x2E then c :: rest else 0x2E :: c :: rest

def getLogExtensions (configured : List Name) : List Name :=
  let extensions := if configured = [] then standardExtensions else configured
  ((extensions.map fun e => toLowerAscii (dotted e)).insertionSort
    (· ≤ ·)).eraseReps

def normalizeExtension (extension : Name) : Name := toLowerAscii extension

def isUnsignedNumber (text : Name) : Bool :=
  text ≠ [] && text.all fun c => 0x30 ≤ c && c ≤ 0x39

/-- `strtoull` of digits, which saturates. -/
def strtoull (digits : Name) : Nat :=
  min (digits.foldl (fun n c => 10 * n + (c.toNat - 0x30)) 0) (2 ^ 64 - 1)

def joinWords (words : List Name) : Name :=
  words.foldl (fun text w => (if text = [] then text else text ++ ascii " ") ++ w) []

def isAllowedLogFile (path : Path Name) (extensions : List Name) : Bool :=
  normalizeExtension (extension path) ∈ extensions

def isPathInside : Path Name → Path Name → Bool
  | [], _ => true
  | _ :: _, [] => false
  | b :: base, p :: path => if b ≠ p then false else isPathInside base path

/-- The path that is resolved for a requested one. -/
def requested (home : Path Name) (relativePath : Name) : Path Name :=
  if relativePath = [] then home else join home (parsePath relativePath)

def resolvePath (t : Disk) (home : HomeDirectory) (relativePath : Name) :
    Except Name (Path Name) :=
  match weaklyCanonical t (parsePath home.text) with
  | none => .error (ascii "unable to resolve home directory")
  | some h =>
      match weaklyCanonical t (requested h relativePath) with
      | none => .error (ascii "unable to resolve path")
      | some normalized =>
          if isPathInside h normalized then .ok normalized
          else .error (ascii "path is outside home directory")

def makeRelative (t : Disk) (home : HomeDirectory) (path : Path Name) : Name :=
  match weaklyCanonical t (parsePath home.text) with
  | none => pathString path
  | some h =>
      match relative t path h with
      | none => pathString path
      | some rel => if pathString rel = ascii "." then [] else pathString rel

/-- The object a path denotes, links followed. -/
def object (t : Disk) (path : Path Name) : Option (Node Name UInt8) :=
  match status t path with
  | .found real => t.node real
  | _ => none

def isDirectory (t : Disk) (path : Path Name) : Bool :=
  (object t path).any Node.isDirectory

def isRegularFile (t : Disk) (path : Path Name) : Bool :=
  (object t path).any Node.isFile

def getFileSize (t : Disk) (path : Path Name) : Nat :=
  match object t path with
  | some (.file content _ _) => content.length
  | _ => 0

def getFileTime (t : Disk) (path : Path Name) : Nat :=
  match object t path with
  | some (.file _ time _) => time
  | _ => 0

/-- A file that `ifstream` opens: where it really is, and its bytes. -/
def openInput (t : Disk) (path : Path Name) : Option (List Name × List UInt8) :=
  match status t path with
  | .found real =>
      match t.node real with
      | some (.file content _ true) => some (real, content)
      | _ => none
  | _ => none

structure Reply where
  response : Name
  returned : Bool
  source : Option (List Name)
  deriving DecidableEq

def refuse (error : Name) : Reply := ⟨ascii "error: " ++ error, false, none⟩

def newline : Name := [0x0A]

def tab : Name := [0x09]

/-! ## The commands -/

def commandInfo (home : HomeDirectory) (configured : List Name) : Reply where
  response :=
    ascii "Home directory: " ++ home.text ++ newline ++ ascii "Extensions:" ++
      (getLogExtensions configured).flatMap (ascii " " ++ ·) ++ newline
  returned := true
  source := none

/-- The entries of a directory. -/
def entries (t : Disk) (root : Path Name) : List (Path Name) :=
  match object t root with
  | some (.directory es) => es.map fun e => join root [.name e.1]
  | _ => []

def fileLine (t : Disk) (home : HomeDirectory) (path : Path Name) : Name :=
  makeRelative t home path ++ tab ++ decimalBytes (getFileSize t path) ++ tab ++
    decimalBytes (getFileTime t path)

def commandTree (t : Disk) (home : HomeDirectory) (configured : List Name)
    (arr : List Name) : Reply :=
  let relativePath := joinWords (arr.drop 2)
  match resolvePath t home relativePath with
  | .error error => refuse error
  | .ok root =>
      if object t root = none then refuse (ascii "path does not exist")
      else if isDirectory t root = false then
        refuse (ascii "path is not a directory")
      else
        let extensions := getLogExtensions configured
        let dirs := ((entries t root).filter fun e => isDirectory t e).map
          fun e => makeRelative t home e
        let files := ((entries t root).filter fun e =>
          !isDirectory t e && isRegularFile t e &&
            isAllowedLogFile e extensions).map fun e => fileLine t home e
        { response :=
            ascii "Home directory: " ++ home.text ++ newline ++
              ascii "Path: " ++ relativePath ++ newline ++
              (dirs.insertionSort (· ≤ ·)).flatMap
                (fun dir => ascii "DIR" ++ tab ++ dir ++ newline) ++
              (files.insertionSort (· ≤ ·)).flatMap
                (fun file => ascii "FILE" ++ tab ++ file ++ newline)
          returned := true
          source := none }

def validateLogFile (t : Disk) (home : HomeDirectory) (configured : List Name)
    (relativePath : Name) : Except Name (Path Name) :=
  match resolvePath t home relativePath with
  | .error error => .error error
  | .ok file =>
      if isAllowedLogFile file (getLogExtensions configured) = false then
        .error (ascii "file extension is not allowed")
      else if isRegularFile t file = false then
        .error (ascii "file is not found")
      else .ok file

/-- The path and the two numbers of `logs --read`. -/
def readArguments (arr : List Name) : Name × Nat × Nat :=
  match (arr.drop 2).reverse with
  | last :: before :: words =>
      if words ≠ [] ∧ isUnsignedNumber before ∧ isUnsignedNumber last then
        (joinWords words.reverse, strtoull before, strtoull last)
      else (joinWords (arr.drop 2), 0, defaultReadBytes)
  | _ => (joinWords (arr.drop 2), 0, defaultReadBytes)

/-- Zero asks for the default. -/
def capped (asked default : Nat) : Nat :=
  min (if asked = 0 then default else asked) maxReadBytes

def commandRead (t : Disk) (home : HomeDirectory) (configured : List Name)
    (arr : List Name) : Reply :=
  if arr.length < 3 then refuse (ascii "missing file path")
  else
    let arguments := readArguments arr
    let limit := capped arguments.2.2 defaultReadBytes
    match validateLogFile t home configured arguments.1 with
    | .error error => refuse error
    | .ok file =>
        let size := getFileSize t file
        let offset := min arguments.2.1 size
        let header := ascii "LOGMEWEB-RANGE" ++ tab ++ decimalBytes offset ++
          tab ++ decimalBytes limit ++ tab ++ decimalBytes size ++ newline
        match openInput t file with
        | none => ⟨header ++ ascii "error: unable to open file", false, none⟩
        | some (real, content) =>
            ⟨header ++ (content.drop offset).take limit, true, some real⟩

def base64Digit (n : Nat) : UInt8 :=
  (ascii "ABCDEFGHIJKLMNOPQRSTUVWXYZabcdefghijklmnopqrstuvwxyz0123456789+/").getD
    (n % 64) 0x3D

def encodeBase64 : List UInt8 → Name
  | [] => []
  | [a] =>
      let triple := a.toNat * 2 ^ 16
      [base64Digit (triple / 2 ^ 18), base64Digit (triple / 2 ^ 12), 0x3D, 0x3D]
  | [a, b] =>
      let triple := a.toNat * 2 ^ 16 + b.toNat * 2 ^ 8
      [base64Digit (triple / 2 ^ 18), base64Digit (triple / 2 ^ 12),
        base64Digit (triple / 2 ^ 6), 0x3D]
  | a :: b :: c :: rest =>
      let triple := a.toNat * 2 ^ 16 + b.toNat * 2 ^ 8 + c.toNat
      [base64Digit (triple / 2 ^ 18), base64Digit (triple / 2 ^ 12),
        base64Digit (triple / 2 ^ 6), base64Digit triple] ++ encodeBase64 rest

def commandDownload (t : Disk) (home : HomeDirectory) (configured : List Name)
    (arr : List Name) : Reply :=
  if arr.length < 3 then refuse (ascii "missing file path")
  else
    match validateLogFile t home configured (joinWords (arr.drop 2)) with
    | .error error => refuse error
    | .ok file =>
        if maxDownloadBytes < getFileSize t file then
          refuse
            (ascii "file is too large to download through control interface")
        else
          match openInput t file with
          | none => refuse (ascii "unable to open file")
          | some (real, content) =>
              ⟨ascii "LOGMEWEB-DOWNLOAD-B64" ++ tab ++
                decimalBytes content.length ++ newline ++ encodeBase64 content,
                true, some real⟩

/-- The path and the number of `logs --tail`. -/
def tailArguments (arr : List Name) : Name × Nat :=
  match (arr.drop 2).reverse with
  | last :: words =>
      if words ≠ [] ∧ isUnsignedNumber last then
        (joinWords words.reverse, strtoull last)
      else (joinWords (arr.drop 2), defaultTailBytes)
  | [] => ([], defaultTailBytes)

/-- What `getline` leaves to be read. -/
def afterLine (content : List UInt8) : List UInt8 :=
  (content.dropWhile (· ≠ 0x0A)).drop 1

/-- The checks of `ValidateLogFile` stand in the source a second time here. -/
def commandTail (t : Disk) (home : HomeDirectory) (configured : List Name)
    (arr : List Name) : Reply :=
  if arr.length < 3 then refuse (ascii "missing file path")
  else
    let arguments := tailArguments arr
    let bytes := capped arguments.2 defaultTailBytes
    match validateLogFile t home configured arguments.1 with
    | .error error => refuse error
    | .ok file =>
        let offset := getFileSize t file - bytes
        match openInput t file with
        | none => refuse (ascii "unable to open file")
        | some (real, content) =>
            let rest := content.drop offset
            ⟨if offset ≠ 0 then afterLine rest else rest, true, some real⟩

/-- `Logger::CommandLogs`; the reply of the command's own function. -/
def commandLogs (t : Disk) (home : HomeDirectory) (configured : List Name)
    (arr : List Name) : Reply :=
  match arr[1]? with
  | none => commandInfo home configured
  | some command =>
      if command = ascii "--info" then commandInfo home configured
      else if command = ascii "--tree" then commandTree t home configured arr
      else if command = ascii "--tail" then commandTail t home configured arr
      else if command = ascii "--read" then commandRead t home configured arr
      else if command = ascii "--download" then
        commandDownload t home configured arr
      else refuse (ascii "unsupported logs command")

/-! ## Confinement -/

theorem isPathInside_iff {base path : Path Name} :
    isPathInside base path = true ↔ base <+: path := by
  induction base generalizing path with
  | nil => simp [isPathInside]
  | cons b rest ih =>
      cases path with
      | nil => simp [isPathInside]
      | cons p more =>
          by_cases heq : b = p
          · simp [isPathInside, heq, ih]
          · simp [isPathInside, heq]

/-- The path that the arguments ask for. -/
def requestedPath (arr : List Name) : Option Name :=
  match arr[1]? with
  | none => none
  | some command =>
      if command = ascii "--tree" then some (joinWords (arr.drop 2))
      else if arr.length < 3 then none
      else if command = ascii "--tail" then some (tailArguments arr).1
      else if command = ascii "--read" then some (readArguments arr).1
      else if command = ascii "--download" then some (joinWords (arr.drop 2))
      else none

/-- Where the home directory is; without one, relative paths start at the
working directory. -/
def resolvedHome (t : Disk) (home : HomeDirectory) : Option (Path Name) :=
  if home.text = [] then some (ofReal t.cwd)
  else weaklyCanonical t (parsePath home.text)

/-- The object lies strictly below the resolved home directory. -/
def Below (t : Disk) (home : HomeDirectory) (real : List Name) : Prop :=
  ∃ h, resolvedHome t home = some h ∧ h <+: ofReal real ∧ h ≠ ofReal real

/-- Links are resolved in the path that is asked for. -/
def LinksResolved (t : Disk) (home : HomeDirectory) (arr : List Name) : Prop :=
  ∀ p h, requestedPath arr = some p →
    weaklyCanonical t (parsePath home.text) = some h →
    linksResolved t (requested h p) = true

structure Confined (t : Disk) (home : HomeDirectory) (configured : List Name)
    (arr : List Name) : Prop where
  rejects : ∀ p, requestedPath arr = some p → isAbsolute p = true →
    (commandLogs t home configured arr).returned = false
  regular : ∀ real, (commandLogs t home configured arr).source = some real →
    (t.node real).any Node.isFile = true
  allowed : ∀ real, (commandLogs t home configured arr).source = some real →
    isAllowedLogFile (ofReal real) (getLogExtensions configured) = true
  below : ∀ real, (commandLogs t home configured arr).source = some real →
    Below t home real

/-- The readable log file that a requested path leads to. -/
def logFileAt (t : Disk) (home : HomeDirectory) (configured : List Name)
    (p : Name) : Option (List Name × List UInt8) :=
  match validateLogFile t home configured p with
  | .error _ => none
  | .ok file => openInput t file

/-- A directory, for `--tree`, that a requested path leads to. -/
def directoryAt (t : Disk) (home : HomeDirectory) (p : Name) : Bool :=
  match resolvePath t home p with
  | .error _ => false
  | .ok root => isDirectory t root

/-- The log file whose content the arguments ask for. -/
def shownFile (t : Disk) (home : HomeDirectory) (configured : List Name)
    (arr : List Name) (p : Name) : Option (List Name) :=
  if arr[1]? = some (ascii "--tree") then none
  else
    ((logFileAt t home configured p).filter fun found =>
      arr[1]? ≠ some (ascii "--download") ||
        found.2.length ≤ maxDownloadBytes).map Prod.fst

/-- The arguments lead to something that the command can show. -/
def leadsInside (t : Disk) (home : HomeDirectory) (configured : List Name)
    (arr : List Name) (p : Name) : Bool :=
  if arr[1]? = some (ascii "--tree") then directoryAt t home p
  else (shownFile t home configured arr p).isSome

theorem resolvePath_ok {t : Disk} {home : HomeDirectory} {p : Name}
    {file : Path Name} (h : resolvePath t home p = .ok file) :
    ∃ base, weaklyCanonical t (parsePath home.text) = some base ∧
      weaklyCanonical t (requested base p) = some file ∧ base <+: file := by
  unfold resolvePath at h
  split at h
  · contradiction
  · next base hbase =>
      split at h
      · contradiction
      · next normalized hnormal =>
          split at h
          · next hinside =>
              cases h
              exact ⟨base, hbase, hnormal, isPathInside_iff.mp hinside⟩
          · contradiction

theorem validateLogFile_ok {t : Disk} {home : HomeDirectory}
    {configured : List Name} {p : Name} {file : Path Name}
    (h : validateLogFile t home configured p = .ok file) :
    resolvePath t home p = .ok file ∧
      isAllowedLogFile file (getLogExtensions configured) = true ∧
      isRegularFile t file = true := by
  unfold validateLogFile at h
  split at h
  · contradiction
  · next found hfound =>
      split at h
      · contradiction
      · next hallowed =>
          split at h
          · contradiction
          · next hregular =>
              cases h
              exact ⟨hfound, by simpa using hallowed, by simpa using hregular⟩

theorem openInput_some {t : Disk} {file : Path Name} {real : List Name}
    {content : List UInt8} (h : openInput t file = some (real, content)) :
    status t file = .found real ∧ (t.node real).any Node.isFile = true ∧
      getFileSize t file = content.length := by
  unfold openInput at h
  split at h
  · next found hfound =>
      split at h
      · next bytes time hnode =>
          cases h
          refine ⟨hfound, ?_, ?_⟩
          · simp [hnode, Node.isFile]
          · simp [getFileSize, object, hfound, hnode]
      · contradiction
  · contradiction

theorem commandTree_spec (t : Disk) (home : HomeDirectory)
    (configured arr : List Name) :
    (commandTree t home configured arr).returned =
        directoryAt t home (joinWords (arr.drop 2)) ∧
      (commandTree t home configured arr).source = none := by
  unfold commandTree directoryAt
  cases hpath : resolvePath t home (joinWords (arr.drop 2)) with
  | error error => simp [refuse, hpath]
  | ok root =>
      by_cases hmissing : object t root = none
      · simp [refuse, hpath, isDirectory, hmissing]
      · cases hdir : isDirectory t root <;>
          simp [refuse, hpath, hmissing, hdir]

theorem commandDownload_spec (t : Disk) (home : HomeDirectory)
    (configured : List Name) {arr : List Name} (hlong : ¬ arr.length < 3) :
    (commandDownload t home configured arr).source =
        ((logFileAt t home configured (joinWords (arr.drop 2))).filter
          fun found => found.2.length ≤ maxDownloadBytes).map Prod.fst ∧
      (commandDownload t home configured arr).returned =
        (commandDownload t home configured arr).source.isSome := by
  unfold commandDownload logFileAt
  rw [if_neg hlong]
  cases validateLogFile t home configured (joinWords (arr.drop 2)) with
  | error error => simp [refuse]
  | ok file =>
      cases hopen : openInput t file with
      | none =>
          by_cases hsize : maxDownloadBytes < getFileSize t file <;>
            simp [refuse, hopen, hsize]
      | some found =>
          obtain ⟨real, content⟩ := found
          obtain ⟨_, _, hlength⟩ := openInput_some hopen
          by_cases hsize : maxDownloadBytes < content.length
          · simp [refuse, hopen, hlength, hsize]
          · have hfits : content.length ≤ maxDownloadBytes := not_lt.mp hsize
            simp [hopen, hlength, hsize, hfits]

theorem commandRead_spec (t : Disk) (home : HomeDirectory)
    (configured : List Name) {arr : List Name} (hlong : ¬ arr.length < 3) :
    (commandRead t home configured arr).source =
        (logFileAt t home configured (readArguments arr).1).map Prod.fst ∧
      (commandRead t home configured arr).returned =
        (commandRead t home configured arr).source.isSome := by
  unfold commandRead logFileAt
  rw [if_neg hlong]
  cases hfile : validateLogFile t home configured (readArguments arr).1 with
  | error error => simp [refuse, hfile]
  | ok file => cases hopen : openInput t file <;> simp [hfile, hopen]

theorem commandTail_spec (t : Disk) (home : HomeDirectory)
    (configured : List Name) {arr : List Name} (hlong : ¬ arr.length < 3) :
    (commandTail t home configured arr).source =
        (logFileAt t home configured (tailArguments arr).1).map Prod.fst ∧
      (commandTail t home configured arr).returned =
        (commandTail t home configured arr).source.isSome := by
  unfold commandTail logFileAt
  rw [if_neg hlong]
  cases hfile : validateLogFile t home configured (tailArguments arr).1 with
  | error error => simp [refuse, hfile]
  | ok file =>
      cases hopen : openInput t file <;> simp [refuse, hfile, hopen]

/-- What a request for a path comes to. -/
theorem commandLogs_spec (t : Disk) (home : HomeDirectory)
    (configured : List Name) {arr : List Name} {p : Name}
    (hp : requestedPath arr = some p) :
    (commandLogs t home configured arr).source =
        shownFile t home configured arr p ∧
      (commandLogs t home configured arr).returned =
        leadsInside t home configured arr p := by
  have hplain : ∀ {command : Name}, command ≠ ascii "--download" →
      (logFileAt t home configured p).filter (fun found =>
        some command ≠ some (ascii "--download") ||
          found.2.length ≤ maxDownloadBytes) = logFileAt t home configured p := by
    intro command hne
    cases logFileAt t home configured p <;> simp [hne]
  unfold requestedPath at hp
  unfold commandLogs leadsInside shownFile
  cases hcommand : arr[1]? with
  | none => simp [hcommand] at hp
  | some command =>
      simp only [hcommand, Option.some.injEq] at hp ⊢
      by_cases htree : command = ascii "--tree"
      · subst htree
        rw [if_pos rfl, Option.some.injEq] at hp
        subst hp
        have hinfo : ascii "--tree" ≠ ascii "--info" := by decide
        simpa [hinfo, and_comm] using commandTree_spec t home configured arr
      rw [if_neg htree] at hp
      by_cases hlong : arr.length < 3
      · simp [hlong] at hp
      rw [if_neg hlong] at hp
      rw [if_neg htree, if_neg htree]
      by_cases htail : command = ascii "--tail"
      · subst htail
        rw [if_pos rfl, Option.some.injEq] at hp
        subst hp
        have hinfo : ascii "--tail" ≠ ascii "--info" := by decide
        obtain ⟨hsource, hreturned⟩ := commandTail_spec t home configured hlong
        rw [hplain (by decide)]
        simp [hinfo, htree, hreturned, hsource]
      rw [if_neg htail] at hp
      by_cases hread : command = ascii "--read"
      · subst hread
        rw [if_pos rfl, Option.some.injEq] at hp
        subst hp
        have hinfo : ascii "--read" ≠ ascii "--info" := by decide
        obtain ⟨hsource, hreturned⟩ := commandRead_spec t home configured hlong
        rw [hplain (by decide)]
        simp [hinfo, htree, htail, hreturned, hsource]
      rw [if_neg hread] at hp
      by_cases hdownload : command = ascii "--download"
      · subst hdownload
        rw [if_pos rfl, Option.some.injEq] at hp
        subst hp
        have hinfo : ascii "--download" ≠ ascii "--info" := by decide
        obtain ⟨hsource, hreturned⟩ :=
          commandDownload_spec t home configured hlong
        simp [hinfo, htree, htail, hread, hreturned, hsource]
      · simp [hdownload] at hp

theorem commandLogs_without_path (t : Disk) (home : HomeDirectory)
    (configured : List Name) {arr : List Name}
    (hp : requestedPath arr = none) :
    (commandLogs t home configured arr).source = none := by
  unfold requestedPath at hp
  unfold commandLogs
  cases hcommand : arr[1]? with
  | none => rfl
  | some command =>
      simp only [hcommand] at hp ⊢
      by_cases hinfo : command = ascii "--info"
      · rw [if_pos hinfo]
        rfl
      rw [if_neg hinfo]
      by_cases htree : command = ascii "--tree"
      · simp [htree] at hp
      rw [if_neg htree] at hp ⊢
      by_cases hlong : arr.length < 3
      · unfold commandTail commandRead commandDownload
        simp only [if_pos hlong]
        split_ifs <;> rfl
      · rw [if_neg hlong] at hp
        split_ifs at hp ⊢
        rfl

/-! ## What the command confines -/

theorem parsePath_closed {text : Name} (h : text.getLast? = some separator) :
    parsePath text = [] ∨ parsePath text = [.root] ∨
      ∃ p, parsePath text = p ++ [.slash] := by
  unfold parsePath
  simp only [h, and_true]
  by_cases hnames :
      ((splitSlash text).filter (· ≠ [])).map parseSegment = []
  · rw [hnames]
    by_cases hroot : text.head? = some separator <;> simp [hroot]
  · exact .inr (.inr ⟨_, by rw [if_pos hnames]⟩)

/-- A home directory never resolves to a file. -/
theorem home_not_file {t : Disk} {home : HomeDirectory} {real : List Name}
    (hne : home.text ≠ [])
    (hhome : weaklyCanonical t (parsePath home.text) = some (ofReal real)) :
    (t.node real).any Node.isFile = false := by
  have hplace : real = [] ∨ t.isDirectoryAt real = true := by
    rcases parsePath_closed (home.closed.resolve_left hne) with h | h | ⟨p, h⟩
    · rw [h] at hhome
      simp [weaklyCanonical, status, existing, lexicallyNormal, ofReal] at hhome
    · have hroot : status t [.root] = .found [] :=
        status_ofReal t.node_nil rfl
      rw [h, weaklyCanonical_found hroot] at hhome
      exact .inl (ofReal_injective (Option.some.inj hhome)).symm
    · rw [h] at hhome
      exact weaklyCanonical_slash hhome
  rcases hplace with rfl | hdir
  · rfl
  · obtain ⟨n, hn, hd⟩ := Tree.isDirectoryAt_iff.mp hdir
    cases n <;> simp_all [Node.isDirectory, Node.isFile]

/-- Links are resolved when the path that is asked for exists. -/
theorem LinksResolved.of_exists {t : Disk} {home : HomeDirectory}
    {arr : List Name} {p : Name} (base : Path Name) (real : List Name)
    (hp : requestedPath arr = some p)
    (hhome : weaklyCanonical t (parsePath home.text) = some base)
    (hfound : status t (requested base p) = .found real) :
    LinksResolved t home arr := by
  intro p' base' hp' hhome'
  have hpath : p = p' := Option.some.inj (hp.symm.trans hp')
  have hbase : base = base' := Option.some.inj (hhome.symm.trans hhome')
  subst hpath hbase
  exact linksResolved_found hfound

/-- Everything a shown file has passed. -/
structure Shown (t : Disk) (home : HomeDirectory) (configured : List Name)
    (p : Name) (real : List Name) : Prop where
  regular : (t.node real).any Node.isFile = true
  resolves : ∃ h file, weaklyCanonical t (parsePath home.text) = some h ∧
    weaklyCanonical t (requested h p) = some file ∧ h <+: file ∧
    status t file = .found real ∧
    isAllowedLogFile file (getLogExtensions configured) = true

theorem shownFile_some {t : Disk} {home : HomeDirectory}
    {configured arr : List Name} {p : Name} {real : List Name}
    (h : shownFile t home configured arr p = some real) :
    Shown t home configured p real := by
  unfold shownFile at h
  split at h
  · contradiction
  · obtain ⟨⟨found, content⟩, hfound, rfl⟩ := Option.map_eq_some_iff.mp h
    obtain ⟨hat, _⟩ := Option.filter_eq_some_iff.mp hfound
    unfold logFileAt at hat
    split at hat
    · contradiction
    · next file hvalid =>
        obtain ⟨hpath, hallowed, _⟩ := validateLogFile_ok hvalid
        obtain ⟨base, hbase, hfile, hinside⟩ := resolvePath_ok hpath
        obtain ⟨hstatus, hregular, _⟩ := openInput_some hat
        exact ⟨hregular, base, file, hbase, hfile, hinside, hstatus, hallowed⟩

/-- A shown file is below a home directory that is set. -/
theorem Shown.below {t : Disk} {home : HomeDirectory}
    {configured arr : List Name} {p : Name} {real : List Name}
    (h : Shown t home configured p real) (hne : home.text ≠ [])
    (hlinks : LinksResolved t home arr) (hp : requestedPath arr = some p) :
    Below t home real := by
  obtain ⟨base, file, hbase, hfile, hinside, hstatus, _⟩ := h.resolves
  have hreal : file = ofReal real :=
    eq_ofReal (hlinks p base hp hbase) hfile hstatus
  rw [hreal] at hinside
  refine ⟨base, by rw [resolvedHome, if_neg hne, hbase], hinside, ?_⟩
  rintro rfl
  have hfalse := home_not_file hne hbase
  rw [h.regular] at hfalse
  contradiction

theorem Shown.allowed {t : Disk} {home : HomeDirectory}
    {configured arr : List Name} {p : Name} {real : List Name}
    (h : Shown t home configured p real) (hlinks : LinksResolved t home arr)
    (hp : requestedPath arr = some p) :
    isAllowedLogFile (ofReal real) (getLogExtensions configured) = true := by
  obtain ⟨base, file, hbase, hfile, _, hstatus, hallowed⟩ := h.resolves
  rw [← eq_ofReal (hlinks p base hp hbase) hfile hstatus]
  exact hallowed

/-- The path that is asked for is relative, or leads to nothing that the
command can show; without a home directory, a file it leads to lies below the
working directory. -/
structure Contained (t : Disk) (home : HomeDirectory)
    (configured : List Name) (arr : List Name) : Prop where
  absolute : ∀ p, requestedPath arr = some p → isAbsolute p = true →
    leadsInside t home configured arr p = false
  working : home.text = [] → ∀ p real, requestedPath arr = some p →
    shownFile t home configured arr p = some real →
    ofReal t.cwd <+: ofReal real ∧ ofReal t.cwd ≠ ofReal real

theorem confined_iff_contained {t : Disk} {home : HomeDirectory}
    (configured : List Name) {arr : List Name}
    (hlinks : LinksResolved t home arr) :
    Confined t home configured arr ↔ Contained t home configured arr := by
  have hshown : ∀ {real},
      (commandLogs t home configured arr).source = some real →
      ∃ p, requestedPath arr = some p ∧
        shownFile t home configured arr p = some real := by
    intro real hsource
    cases hp : requestedPath arr with
    | none =>
        rw [commandLogs_without_path t home configured hp] at hsource
        contradiction
    | some p =>
        rw [(commandLogs_spec t home configured hp).1] at hsource
        exact ⟨p, rfl, hsource⟩
  constructor
  · intro hconfined
    refine ⟨?_, ?_⟩
    · intro p hp habsolute
      rw [← (commandLogs_spec t home configured hp).2]
      exact hconfined.rejects p hp habsolute
    · intro hempty p real hp hfile
      rw [← (commandLogs_spec t home configured hp).1] at hfile
      obtain ⟨h, hhome, hinside, hne⟩ := hconfined.below real hfile
      rw [resolvedHome, if_pos hempty, Option.some.injEq] at hhome
      subst hhome
      exact ⟨hinside, hne⟩
  · intro hcontained
    refine ⟨?_, ?_, ?_, ?_⟩
    · intro p hp habsolute
      rw [(commandLogs_spec t home configured hp).2]
      exact hcontained.absolute p hp habsolute
    · intro real hsource
      obtain ⟨p, _, hfile⟩ := hshown hsource
      exact (shownFile_some hfile).regular
    · intro real hsource
      obtain ⟨p, hp, hfile⟩ := hshown hsource
      exact (shownFile_some hfile).allowed hlinks hp
    · intro real hsource
      obtain ⟨p, hp, hfile⟩ := hshown hsource
      by_cases hempty : home.text = []
      · exact ⟨ofReal t.cwd, by rw [resolvedHome, if_pos hempty],
          hcontained.working hempty p real hp hfile⟩
      · exact (shownFile_some hfile).below hempty hlinks hp

/-! ## A home directory with one log file, and another file beside it -/

def disk : Disk where
  entries :=
    [(ascii "h", .directory
        [(ascii "a.log", .file [1] 0 true),
          (ascii "l.log", .link [.up, .name (ascii "b.log")])]),
      (ascii "b.log", .file [2] 0 true)]
  cwd := [ascii "h"]
  works := by decide

def diskHome : HomeDirectory := setHomeDirectory (ascii "/h")

def readCommand (p : Name) : List Name := [ascii "logs", ascii "--read", p]

/-- A link that leads out of the home directory is refused. -/
theorem confined_iff_contained_link :
    Confined disk diskHome [] (readCommand (ascii "l.log")) := by
  refine (confined_iff_contained [] ?_).mpr ⟨?_, ?_⟩
  · exact .of_exists (ofReal [ascii "h"]) [ascii "b.log"]
      rfl (by decide +kernel) (by decide +kernel)
  · intro p hp habsolute
    have hpath : p = ascii "l.log" := by
      have hread : requestedPath (readCommand (ascii "l.log")) =
          some (ascii "l.log") := by decide
      exact Option.some.inj (hp.symm.trans hread)
    subst hpath
    exact absurd habsolute (by decide)
  · intro hempty
    exact absurd hempty (by decide)

/-- An absolute path below the home directory is read, and without a home
directory any log file is. -/
theorem absolute_path_is_read :
    LinksResolved disk diskHome (readCommand (ascii "/h/a.log")) ∧
      ¬ Confined disk diskHome [] (readCommand (ascii "/h/a.log")) ∧
      LinksResolved disk (setHomeDirectory []) (readCommand (ascii "../b.log")) ∧
      ¬ Confined disk (setHomeDirectory []) [] (readCommand (ascii "../b.log")) := by
  refine ⟨?_, ?_, ?_, ?_⟩
  · exact .of_exists (ofReal [ascii "h"]) [ascii "h", ascii "a.log"]
      rfl (by decide +kernel) (by decide +kernel)
  · intro h
    have hrejected := h.rejects (ascii "/h/a.log") rfl rfl
    have hread : (commandLogs disk diskHome []
        (readCommand (ascii "/h/a.log"))).returned = true := by
      decide +kernel
    rw [hread] at hrejected
    contradiction
  · exact .of_exists [] [ascii "b.log"] rfl (by decide +kernel)
      (by decide +kernel)
  · intro h
    have hread : (commandLogs disk (setHomeDirectory []) []
        (readCommand (ascii "../b.log"))).source = some [ascii "b.log"] := by
      decide +kernel
    obtain ⟨home, hhome, hinside, _⟩ := h.below _ hread
    have hcwd : home = ofReal [ascii "h"] := (Option.some.inj hhome).symm
    rw [hcwd] at hinside
    exact absurd hinside (by decide)

-- A path that goes up from a missing directory is only normalised: the link
-- it then leads to is not resolved.
example : (commandLogs disk diskHome []
    (readCommand (ascii "no/../l.log"))).source = some [ascii "b.log"] := by
  decide +kernel

end Logme.CmdLogs
