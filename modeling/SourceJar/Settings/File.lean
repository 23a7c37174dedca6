import SourceJar.Settings.Basic
import SourceJar.Toml.Reader
import SourceJar.Toml.Writer

/-!
Settings in a file.

A settings file is a TOML document with three sections, each a table of fields; what is missing keeps
its standard value and what is unknown is passed over. A section may also be a list of its fields in
order, and a date in place of a section counts as an empty one. `render` writes every field that has
a value.
-/

namespace SourceJar.Settings

/-! ## Values of fields -/

def textOf? : Toml → Option String
  | .string text => some text
  | _ => none

def pathOf? (value : Toml) : Option Path := (textOf? value).map Path.ofText

def boolOf? : Toml → Option Bool
  | .boolean value => some value
  | _ => none

def countOf? : Toml → Option Nat
  | .integer (.ofNat n) => some n
  | _ => none

def textsOf? : Toml → Option (List String)
  | .array items => items.mapM textOf?
  | _ => none

/-- The backend of a name. -/
def backendNamed? (name : String) : Option BackendKind :=
  if name = "skeleton" then some .skeleton
  else if name = "stream" then some .stream
  else if name = "tempfile" then some .tempfile
  else none

/-- Whether a value is an empty table or list. -/
def isEmptyValue : Toml → Bool
  | .array [] => true
  | .table _ [] => true
  | _ => false

/-- A backend is given by its name, or by a table whose one field has the name and an empty value. -/
def backendOf? : Toml → Option BackendKind
  | .string name => backendNamed? name
  | .table _ [(name, value)] => if isEmptyValue value then backendNamed? name else none
  | _ => none

/-! ## Sections -/

/-- The fields of a section by name, given the names in order. -/
def sectionFields (names : List String) : Toml → Option Toml.Fields
  | .table _ fields => some fields
  | .array items => some (names.zip items)
  | .tables items => some (names.zip (items.map (.table .header ·)))
  | .datetime => some []
  | _ => none

/-- The value of a field, or what it has without one; `none` if there is one of the wrong kind. -/
def fieldOr {α : Type} (fields : Toml.Fields) (name : String) (read : Toml → Option α)
    (fallback : α) : Option α :=
  match Toml.lookup name fields with
  | none => some fallback
  | some value => read value

def backendSection (standard : BackendSettings) (value : Toml) : Option BackendSettings := do
  let fields ← sectionFields ["backend", "command", "temp_dir", "include_private"] value
  return {
    kind := ← fieldOr fields "backend" backendOf? standard.kind
    command := ← fieldOr fields "command" (fun v => (textOf? v).map some) standard.command
    temporaryDirectory :=
      ← fieldOr fields "temp_dir" (fun v => (pathOf? v).map some) standard.temporaryDirectory
    includePrivate := ← fieldOr fields "include_private" boolOf? standard.includePrivate }

def outputSection (standard : OutputSettings) (value : Toml) : Option OutputSettings := do
  let fields ← sectionFields ["destination", "archive_extensions", "suffix"] value
  return {
    destination := ← fieldOr fields "destination" pathOf? standard.destination
    extensions := ← fieldOr fields "archive_extensions" textsOf? standard.extensions
    suffix := ← fieldOr fields "suffix" textOf? standard.suffix }

def batchSection (standard : Nat) (value : Toml) : Option Nat := do
  let fields ← sectionFields ["jobs"] value
  fieldOr fields "jobs" countOf? standard

/-- The settings that a document gives. -/
def ofToml? (standard : Settings) (fields : Toml.Fields) : Option Settings := do
  return {
    backend := ← fieldOr fields "decompiler" (backendSection standard.backend) standard.backend
    output := ← fieldOr fields "output" (outputSection standard.output) standard.output
    jobs := ← fieldOr fields "batch" (batchSection standard.jobs) standard.jobs }

/-- The settings in a text, if it is a document that gives some. -/
def parse? (standard : Settings) (text : String) : Option Settings := do
  ofToml? standard (← Toml.read? text)

/-! ## Files -/

/-- Reads the settings file that a path leads to. -/
def load (standard : Settings) (fs : FileSystem) (p : Path) : Except SettingsFault Settings :=
  if ¬fs.pathExists p then .error (.notFound p.display)
  else
    match fs.readText p with
    | .error e => .error (.unreadable p.display e)
    | .ok text =>
      match parse? standard text with
      | some settings => .ok settings
      | none => .error (.malformed p.display)

/-- The names under which a settings file is looked for. -/
def standardFiles : List String := ["jarsources.toml", ".jarsources.toml"]

/-- Reads the settings file that is asked for, or else the first standard one that is there. -/
def loadOrStandard (standard : Settings) (fs : FileSystem) (asked : Option Path) :
    Except SettingsFault Settings :=
  match asked with
  | some p => load standard fs p
  | none =>
    match (standardFiles.map Path.ofText).find? fs.pathExists with
    | some p => load standard fs p
    | none => .ok standard

/-- The greatest number that a settings file can hold. -/
def maxCount : Nat := Nat.pow 2 63 - 1

/-- A line with a field. -/
def fieldLine (name value : String) : String := name ++ " = " ++ value ++ "\n"

/-- A line with a field, if it has a value. -/
def optionalLine (name : String) (value : Option String) : String :=
  match value with
  | some value => fieldLine name value
  | none => ""

/-- The text of a settings file. -/
def render (s : Settings) : Except SettingsFault String :=
  if maxCount < s.jobs then .error .notRepresentable
  else
    .ok ("[decompiler]\n" ++
      fieldLine "backend" (Toml.stringText s.backend.kind.name) ++
      optionalLine "command" (s.backend.command.map Toml.stringText) ++
      optionalLine "temp_dir" (s.backend.temporaryDirectory.map fun p => Toml.stringText p.display) ++
      fieldLine "include_private" (if s.backend.includePrivate then "true" else "false") ++
      "\n[output]\n" ++
      fieldLine "destination" (Toml.stringText s.output.destination.display) ++
      fieldLine "archive_extensions" (Toml.listText s.output.extensions) ++
      fieldLine "suffix" (Toml.stringText s.output.suffix) ++
      "\n[batch]\n" ++
      fieldLine "jobs" (toString s.jobs))

/-- Writes the settings to a file. -/
def save (s : Settings) (fs : FileSystem) (p : Path) : Except SettingsFault FileSystem := do
  let text ← s.render
  match fs.writeFile p (Utf8.encode text) with
  | .ok fs => .ok fs
  | .error e => .error (.unwritable p.display e)

/-- The text of a sample settings file: the standard settings, or nothing if they cannot be
written. -/
def sample (standard : Settings) : String := standard.render.toOption.getD ""

end SourceJar.Settings
