import BisimPlay.Text.Decimal

/-!
# JSON values

A value of the JSON data format. Numbers that are written as plain natural numbers
keep their value; of any other number only the fact that it is one is kept, because
nothing here is written with a sign, a fraction or an exponent.

A JSON string can name, by an escape, half of a surrogate pair without its other
half. No text corresponds to such a string. It is a well-formed value all the same,
but one that does not spell anything.

Members of an object keep their order, and a key may occur more than once.
-/

namespace BisimPlay

/-- What a JSON string spells; `none` when it spells no text. -/
abbrev Spelling := Option (List Char)

/-- A JSON value. -/
inductive Json
  | null
  | bool (b : Bool)
  /-- A number written as a plain natural number. -/
  | natural (n : Nat)
  /-- Any other number. -/
  | otherNumber
  | string (spelling : Spelling)
  | array (items : List Json)
  | object (members : List (Spelling × Json))
deriving Inhabited

namespace Json

def ofString (s : String) : Json := .string (some s.toList)

/-- An object with the given keys. -/
def ofFields (fields : List (String × Json)) : Json :=
  .object (fields.map fun (key, value) => (some key.toList, value))

def text? : Json → Option String
  | .string (some spelling) => some (.ofList spelling)
  | _ => none

@[simp] theorem text?_ofString (s : String) : (ofString s).text? = some s := by
  simp [ofString, text?]

end Json

end BisimPlay
