import BisimPlay.Json.Basic

/-!
# Writing JSON

Values are written without blanks. In a string, quotes, backslashes and control
characters are escaped, by a letter where JSON has one and by four hexadecimal digits
in lower case otherwise; every other character stands for itself.
-/

namespace BisimPlay

namespace Json

/-- A hexadecimal digit in lower case. -/
def hexDigit (n : Nat) : Char :=
  if n < 10 then .ofNat ('0'.toNat + n) else .ofNat ('a'.toNat + (n - 10))

/-- A character within a written string. -/
def escape (c : Char) : List Char :=
  if c = '"' then ['\\', '"']
  else if c = '\\' then ['\\', '\\']
  else if c = '\n' then ['\\', 'n']
  else if c = '\r' then ['\\', 'r']
  else if c = '\t' then ['\\', 't']
  else if c.toNat = 8 then ['\\', 'b']
  else if c.toNat = 12 then ['\\', 'f']
  else if c.toNat < 32 then
    ['\\', 'u', '0', '0', hexDigit (c.toNat / 16), hexDigit (c.toNat % 16)]
  else [c]

def quote (text : List Char) : List Char := '"' :: (text.flatMap escape ++ ['"'])

/-- Written parts with commas between them. -/
def commaSeparated : List (List Char) → List Char
  | [] => []
  | [part] => part
  | part :: rest => part ++ ',' :: commaSeparated rest

mutual

/-- The characters of a written value. A number that is not natural is written as
zero with a sign, and a string that spells nothing as an empty one; no value made
here holds either. -/
def characters : Json → List Char
  | .null => ['n', 'u', 'l', 'l']
  | .bool true => ['t', 'r', 'u', 'e']
  | .bool false => ['f', 'a', 'l', 's', 'e']
  | .natural n => Decimal.digits n
  | .otherNumber => ['-', '0']
  | .string spelling => quote (spelling.getD [])
  | .array items => '[' :: (commaSeparated (itemCharacters items) ++ [']'])
  | .object members => '{' :: (commaSeparated (memberCharacters members) ++ ['}'])

/-- The items of an array, each written. -/
def itemCharacters : List Json → List (List Char)
  | [] => []
  | item :: rest => characters item :: itemCharacters rest

/-- The members of an object, each written. -/
def memberCharacters : List (Spelling × Json) → List (List Char)
  | [] => []
  | (key, value) :: rest =>
    (quote (key.getD []) ++ ':' :: characters value) :: memberCharacters rest

end

def write (value : Json) : String := .ofList value.characters

@[simp] theorem commaSeparated_nil : commaSeparated [] = [] := rfl

theorem itemCharacters_eq_map (items : List Json) :
    itemCharacters items = items.map characters := by
  induction items with
  | nil => simp [itemCharacters]
  | cons item rest ih => simp [itemCharacters, ih]

end Json

end BisimPlay
