import BisimPlay.Json.Reader
import BisimPlay.Json.Writer

/-!
# Written forms

A type is written when its values have JSON forms and forms can be read back. The
same few shapes serve all types.

A record is written as an object of its fields. It may be read from an object with
its fields in any order and others besides, none of its own twice, or from an array
of all of its fields in order. An optional field that is missing from an object reads
as absent.

A choice is written as the name of its case when the case holds nothing, and as an
object with that name as its only key otherwise. A case that holds nothing may be
read from such an object too, with nothing but `null` in it.
-/

namespace BisimPlay

/-- Types whose values have JSON forms. -/
class Written (α : Type) where
  /-- The JSON form of a value. -/
  toJson : α → Json
  /-- The value that a JSON form stands for. -/
  ofJson? : Json → Option α

namespace Json

/-- A natural number below a bound. -/
def natBelow? (bound : Nat) : Json → Option Nat
  | .natural n => if n < bound then some n else none
  | _ => none

/-- The values of a list of JSON forms, provided that each stands for one. -/
def list? {α : Type} (read : Json → Option α) : Json → Option (List α)
  | .array items => items.mapM read
  | _ => none

/-- Nothing, written as `null`, or something. -/
def optional? {α : Type} (read : Json → Option α) : Json → Option (Option α)
  | .null => some none
  | value => (read value).map some

/-- The values under a key, in order. -/
def valuesAt (key : List Char) (members : List (Spelling × Json)) : List Json :=
  (members.filter fun (spelling, _) => spelling = some key).map (·.2)

/-- The value of a record's field in an object: `some none` when it is missing, and
no answer when it is there twice. -/
def field? (members : List (Spelling × Json)) (name : String) :
    Option (Option Json) :=
  match valuesAt name.toList members with
  | [] => some none
  | [value] => some (some value)
  | _ => none

/-- The fields of a record in the order of their names; a field that is missing is
`none`. Every key of an object has to spell something. -/
def fields? (names : List String) : Json → Option (List (Option Json))
  | .array items =>
    if items.length = names.length then some (items.map some) else none
  | .object members =>
    if members.all fun (spelling, _) => spelling.isSome then
      names.mapM (field? members)
    else none
  | _ => none

/-- A field that has to be there. -/
def required? {α : Type} (read : Json → Option α) (field : Option Json) : Option α :=
  field.bind read

/-- A field that may be missing. -/
def omissible? {α : Type} (read : Json → Option α) (field : Option Json) :
    Option (Option α) :=
  match field with
  | none => some none
  | some value => optional? read value

/-- The case of a choice: its name and its content, if the form has any. -/
def case? : Json → Option (String × Option Json)
  | .string (some name) => some (.ofList name, none)
  | .object [(some name, content)] => some (.ofList name, some content)
  | _ => none

/-- Whether a case holds nothing. -/
def isEmptyContent : Option Json → Bool
  | none => true
  | some .null => true
  | _ => false

def tagged (name : String) (content : Json) : Json := ofFields [(name, content)]

/-- Something or nothing. -/
def ofOption {α : Type} (toJson : α → Json) : Option α → Json
  | none => .null
  | some value => toJson value

end Json

namespace Written

/-- A choice without contents, given the name of each case. -/
def caseNamed? {α : Type} (cases : List (String × α)) (value : Json) : Option α :=
  match value.case? with
  | some (name, content) =>
    if Json.isEmptyContent content then
      (cases.find? fun (known, _) => known = name).map (·.2)
    else none
  | none => none

def text {α : Type} [Written α] (value : α) : String := (toJson value).write

/-- The value that a JSON text stands for. -/
def ofText? {α : Type} [Written α] (text : String) : Option α :=
  (Json.read? text).bind ofJson?

end Written

end BisimPlay
