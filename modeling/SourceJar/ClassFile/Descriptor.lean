import SourceJar.ClassFile.Error
import SourceJar.ClassFile.Name

/-!
Field and method descriptors.

A field descriptor is up to 255 brackets and an element: a letter for a primitive type, or `L`, a
class name and a semicolon. `V` stands for no value and takes no brackets. A method descriptor is a
parenthesised row of field descriptors and a result. Reading a field type takes one type off the
front of the text and leaves the rest; each type has one written form (`FieldType.encode`) and one
spelling in source text (`FieldType.spelling`).
-/

namespace SourceJar

/-- The element type of a field descriptor. -/
inductive ElementType where
  | byte
  | char
  | double
  | float
  | int
  | long
  | short
  | boolean
  | void
  | object (name : List Char)
  deriving DecidableEq, Repr

/-- An element type with a number of array dimensions. -/
structure FieldType where
  dimensions : Nat
  element : ElementType
  deriving DecidableEq, Repr

/-- The types of a method's parameters and of its result. -/
structure MethodType where
  parameters : List FieldType
  result : FieldType
  deriving DecidableEq, Repr

namespace ElementType

/-- The element as a descriptor writes it. -/
def encode : ElementType → List Char
  | .byte => ['B']
  | .char => ['C']
  | .double => ['D']
  | .float => ['F']
  | .int => ['I']
  | .long => ['J']
  | .short => ['S']
  | .boolean => ['Z']
  | .void => ['V']
  | .object name => 'L' :: name ++ [';']

/-- The element as source text writes it. -/
def spelling : ElementType → String
  | .byte => "byte"
  | .char => "char"
  | .double => "double"
  | .float => "float"
  | .int => "int"
  | .long => "long"
  | .short => "short"
  | .boolean => "boolean"
  | .void => "void"
  | .object name => typeName (String.ofList name)

/-- Takes one element off the front of the text. -/
def read? : List Char → Option (ElementType × List Char)
  | 'B' :: rest => some (.byte, rest)
  | 'C' :: rest => some (.char, rest)
  | 'D' :: rest => some (.double, rest)
  | 'F' :: rest => some (.float, rest)
  | 'I' :: rest => some (.int, rest)
  | 'J' :: rest => some (.long, rest)
  | 'S' :: rest => some (.short, rest)
  | 'Z' :: rest => some (.boolean, rest)
  | 'V' :: rest => some (.void, rest)
  | 'L' :: rest =>
    match Split.cutFirst? ';' rest with
    | some ([], _) => none
    | some (name, after) => some (.object name, after)
    | none => none
  | _ => none

/-- Reading an element uses up some of the text. -/
theorem length_read? {text rest : List Char} {e : ElementType}
    (h : read? text = some (e, rest)) : rest.length < text.length := by
  unfold read? at h
  split at h
  case h_10 =>
    split at h
    · simp at h
    · rename_i hcut
      have := Split.length_cutFirst? hcut
      simp only [Option.some.injEq, Prod.mk.injEq] at h
      simp only [List.length_cons, ← h.2]
      omega
    · simp at h
  all_goals simp_all

end ElementType

namespace FieldType

/-- The greatest number of array dimensions a descriptor may have. -/
def maxDimensions : Nat := 255

/-- The type as a descriptor writes it. -/
def encode (t : FieldType) : List Char := List.replicate t.dimensions '[' ++ t.element.encode

/-- The type as source text writes it. -/
def spelling (t : FieldType) : String :=
  t.element.spelling ++ String.join (List.replicate t.dimensions "[]")

/-- Whether the type is spelled like the absence of a value. -/
def isSpelledVoid (t : FieldType) : Bool := t.spelling == "void"

/-- Takes one field type off the front of the text. -/
def read? (text : List Char) : Option (FieldType × List Char) :=
  let dimensions := (text.takeWhile (· == '[')).length
  if maxDimensions < dimensions then none
  else
    match ElementType.read? (text.dropWhile (· == '[')) with
    | some (element, rest) =>
      if element = .void ∧ dimensions ≠ 0 then none else some (⟨dimensions, element⟩, rest)
    | none => none

/-- Takes one field type off the front of the text; a fault names the whole text. -/
def read (text : List Char) : Except FormatError (FieldType × List Char) :=
  match read? text with
  | some found => .ok found
  | none => .error (.malformedDescriptor (String.ofList text))

/-- Reading a type uses up some of the text. -/
theorem length_read? {text rest : List Char} {t : FieldType} (h : read? text = some (t, rest)) :
    rest.length < text.length := by
  have hle := (List.dropWhile_sublist (· == '[') (l := text)).length_le
  unfold read? at h
  split at h
  · rename_i helement
    have hlt := ElementType.length_read? helement
    simp only [Option.ite_none_left_eq_some, Option.some.injEq, Prod.mk.injEq] at h
    obtain ⟨_, _, _, rfl⟩ := h
    omega
  · simp at h

end FieldType

namespace MethodType

/-- Takes parameter types off the front of the text up to the closing parenthesis. A type that is
spelled `void` is no parameter; that fault, and a text that ends too early, name the `whole`
descriptor, while a fault inside a type names the text from that type on. -/
def readParameters (whole text : List Char) :
    Except FormatError (List FieldType × List Char) :=
  match text with
  | [] => .error (.malformedDescriptor (String.ofList whole))
  | ')' :: rest => .ok ([], rest)
  | c :: tail =>
    match _hread : FieldType.read? (c :: tail) with
    | none => .error (.malformedDescriptor (String.ofList (c :: tail)))
    | some (parameter, rest) =>
      if parameter.isSpelledVoid then .error (.malformedDescriptor (String.ofList whole))
      else
        match readParameters whole rest with
        | .ok (parameters, after) => .ok (parameter :: parameters, after)
        | .error e => .error e
termination_by text.length
decreasing_by exact FieldType.length_read? _hread

/-- Reads a whole method descriptor. -/
def read (text : List Char) : Except FormatError MethodType :=
  match text with
  | '(' :: rest => do
    let (parameters, after) ← readParameters text rest
    let (result, trailing) ← FieldType.read after
    if trailing.isEmpty then .ok ⟨parameters, result⟩
    else .error (.malformedDescriptor (String.ofList text))
  | _ => .error (.malformedDescriptor (String.ofList text))

/-- The type as a descriptor writes it. -/
def encode (t : MethodType) : List Char :=
  '(' :: t.parameters.flatMap FieldType.encode ++ ')' :: t.result.encode

end MethodType

end SourceJar
