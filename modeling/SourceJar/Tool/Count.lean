import SourceJar.Tool.Options

/-!
`wc`: counts lines, words, characters and bytes of files, and measures their longest line.
-/

namespace SourceJar.Tool.Count

/-- What is counted. -/
structure Counts where
  lines : Nat := 0
  words : Nat := 0
  bytes : Nat := 0
  longest : Nat := 0

def Counts.add (a b : Counts) : Counts :=
  ⟨a.lines + b.lines, a.words + b.words, a.bytes + b.bytes, max a.longest b.longest⟩

/-- How far a count has come: the column, and whether a word has begun. -/
structure Scan where
  counts : Counts := {}
  column : Nat := 0
  inWord : Bool := false

/-- Ends a word that has begun. -/
def Scan.endWord (s : Scan) : Scan :=
  { s with
    counts := { s.counts with words := s.counts.words + (if s.inWord then 1 else 0) }, inWord := false }

/-- Takes the column into the longest line. -/
def Scan.measure (s : Scan) : Scan :=
  { s with counts := { s.counts with longest := max s.counts.longest s.column } }

/-- Takes in one byte. Bytes that do not show neither end nor begin a word. -/
def Scan.step (s : Scan) (b : UInt8) : Scan :=
  let s := { s with counts := { s.counts with bytes := s.counts.bytes + 1 } }
  if b = 0x0A then
    { s.measure.endWord with
      column := 0
      counts := { s.measure.endWord.counts with lines := s.counts.lines + 1 } }
  else if b = 0x0D || b = 0x0C then { s.measure.endWord with column := 0 }
  else if b = 0x09 then { s.endWord with column := s.column + 8 - s.column % 8 }
  else if b = 0x0B then s.endWord
  else if b = 0x20 then { s.endWord with column := s.column + 1 }
  else if 0x20 < b && b < 0x7F then { s with column := s.column + 1, inWord := true }
  else s

/-- Counts a content. -/
def Counts.of (content : Bytes) : Counts :=
  ((content.foldl Scan.step {}).measure.endWord).counts

/-- When a line with the sums is written. -/
inductive Total where
  | automatic
  | always
  | only
  | never
  deriving DecidableEq

/-- What is asked for. -/
structure Request where
  keys : List String := []
  total : Total := .automatic
  /-- The file that holds the names of the files. -/
  listed : Option String := none

/-- The counts that are shown, in their fixed order. -/
def Request.columns (r : Request) (c : Counts) : List Nat :=
  let all := r.keys.isEmpty
  (if all || r.keys.contains "l" then [c.lines] else []) ++
    (if all || r.keys.contains "w" then [c.words] else []) ++
    (if r.keys.contains "m" then [c.bytes] else []) ++
    (if all || r.keys.contains "c" then [c.bytes] else []) ++
    (if r.keys.contains "L" then [c.longest] else [])

def options : Options where
  letters := [('c', .none), ('l', .none), ('L', .none), ('m', .none), ('w', .none)]
  names := [("bytes", "c", .none), ("chars", "m", .none), ("lines", "l", .none),
    ("words", "w", .none), ("files0-from", "files0-from", .required),
    ("max-line-length", "L", .none), ("total", "total", .required)] ++ Options.common

/-- The texts for when the sums are written. -/
def totals : List (String × Total) :=
  [("auto", .automatic), ("always", .always), ("only", .only), ("never", .never)]

/-- Takes in one option. -/
def step (c : Context) (r : Request) (key : String) (value : Option String) :
    Except Outcome Request :=
  if key = "total" then
    (meaningOf c key totals (value.getD "")).map fun total => { r with total }
  else if key = "files0-from" then .ok { r with listed := value }
  else .ok { r with keys := r.keys ++ [key] }

/-- A line of counts, with the name they belong to. -/
def countsLine (width : Nat) (columns : List Nat) (name : Option String) : Bytes :=
  octets (" ".intercalate (columns.map fun n => padLeft width (toString n)) ++
    (name.map (" " ++ ·)).getD "" ++ "\n")

/-- The width of the columns: that of the sizes of all files together, but seven if anything else is
among the operands. One count of one content has no width. -/
def columnWidth (r : Request) (operands : List String) (c : Context) : Nat :=
  if operands.length = 1 && (r.columns {}).length = 1 then 1
  else
    let sizes := operands.map fun name =>
      if isInput name then
        match c.inputSize with
        | some size => some (some size)
        | none => if c.inputFault = some .closed then none else some none
      else
        match c.fs.stat (pathOf name) with
        | .ok (.file content) => some (some content.length)
        | .ok _ => some none
        | .error _ => none
    let size := (sizes.filterMap fun s => s.bind id).foldl (· + ·) 0
    max (toString size).length (if sizes.contains (some none) then 7 else 1)

/-- The lines of counts of files, and the sums. `shown` is the name with which the counts of a file are
written. -/
def writeCounts (request : Request) (width : Nat) (shown : String → Option String)
    (names : List String) (c : Context) : Outcome × Context :=
  let (found, after) := c.readAll names
  let line (content : Bytes) (name : Option String) : Bytes :=
    if request.total = .only then []
    else countsLine width (request.columns (Counts.of content)) name
  let one (operand : String × Except IoFault Bytes) : Outcome :=
    match operand with
    | (name, .ok content) => success (line content (shown name))
    | (name, .error e) =>
      let named := shownName ((shown name).getD "standard input")
      let said := c.complaint s!"{named}: {faultText e}"
      if name = "-" || e = .os .isDirectory then both said (success (line [] (shown name))) else said
  let sums := (found.map fun (_, content) => Counts.of (content.toOption.getD [])).foldl Counts.add {}
  let sumsLine := countsLine width (request.columns sums)
    (if request.total = .only then none else some "total")
  let last := match request.total with
    | .automatic => if 1 < names.length then sumsLine else []
    | .never => []
    | _ => sumsLine
  let closing := if c.readsClosed names then c.complaint s!"-: {Errno.badDescriptor.text}" else {}
  (both (both ((found.map one).foldl both {}) (success last)) closing, after)

/-- Counts the files whose names a list holds, each with a zero after it. -/
def countListed (request : Request) (list : String) (c : Context) : Outcome × Context :=
  match c.read list with
  | (.error e, c) =>
    if list = "-" || e = .os .isDirectory then
      (c.complaint s!"{shownName list}: read error: {faultText e}", c)
    else (c.complaint s!"cannot open {inShellQuotes list} for reading: {faultText e}", c)
  | (.ok content, c) =>
    let pieces := Split.splitOn 0 content
    let names := (if pieces.getLast? = some [] then pieces.dropLast else pieces).map ofOctets
    let fault (name : String) (i : Nat) : Outcome :=
      if name = "" then c.complaint s!"{shownName list}:{i + 1}: invalid zero-length file name"
      else if name = "-" && list = "-" then
        c.complaint "when reading file names from stdin, no file name of '-' allowed"
      else {}
    let faults := (names.zipIdx.map fun (name, i) => fault name i).foldl both {}
    let valid := names.filter fun name => name ≠ "" && !(name = "-" && list = "-")
    let width := if request.total = .only || isInput list then 1 else columnWidth request valid c
    let (r, c) := writeCounts request width some valid c
    (both faults r, c)

/-- Counts lines, words and bytes. -/
def count : Tool := fun arguments c =>
  let (items, operands) := options.scan arguments
  match applyOptions c (step c) {} items with
  | .error r => (r, c)
  | .ok request =>
    match request.listed, operands with
    | some list, [] => countListed request list c
    | some _, extra :: _ =>
      (c.misuse s!"extra operand {inShellQuotes extra}\nfile operands cannot be combined with --files0-from",
        c)
    | none, _ =>
      let names := orInput operands
      let width := if request.total = .only then 1 else columnWidth request names c
      writeCounts request width (if operands.isEmpty then fun _ => none else some) names c

/-- Counts lines, words and bytes, with a complaint of its own about an output that takes nothing. -/
def run : Tool := fun arguments c =>
  let (r, after) := count arguments c
  match c.outputFault with
  | none => (r, after)
  | some fault =>
    let reason := if fault = .closed then s!": {fault.errno.text}" else ""
    (r.withoutOutput (c.complaint s!"write error{reason}"), after)

end SourceJar.Tool.Count
