import BisimPlay.Json.Basic

/-!
# Reading JSON

A reader takes a list of characters and gives a value and the characters after it, or
nothing when the text does not begin with one. Blanks are the four that JSON knows. A
control character may not stand in a string, and a number has no leading zeros.

The reader of values takes a bound on the nesting; the length of the text is always
enough, because every level of nesting begins with a character of its own.
-/

namespace BisimPlay

namespace Json

def isSpace (c : Char) : Bool := c = ' ' || c = '\t' || c = '\n' || c = '\r'

def skipSpaces (text : List Char) : List Char := text.dropWhile isSpace

/-- The text after a word, if it begins with that word. -/
def expect? : List Char → List Char → Option (List Char)
  | [], text => some text
  | _ :: _, [] => none
  | c :: word, d :: text => if c = d then expect? word text else none

/-- The value of a hexadecimal digit in either case. -/
def hexValue? (c : Char) : Option Nat :=
  if '0' ≤ c ∧ c ≤ '9' then some (c.toNat - '0'.toNat)
  else if 'a' ≤ c ∧ c ≤ 'f' then some (c.toNat - 'a'.toNat + 10)
  else if 'A' ≤ c ∧ c ≤ 'F' then some (c.toNat - 'A'.toNat + 10)
  else none

/-- The number written in four hexadecimal digits, and the text after them. -/
def hex4? : List Char → Option (Nat × List Char)
  | a :: b :: c :: d :: rest => do
    let a ← hexValue? a
    let b ← hexValue? b
    let c ← hexValue? c
    let d ← hexValue? d
    pure (((a * 16 + b) * 16 + c) * 16 + d, rest)
  | _ => none

/-- A unit of a string: a character, or a number that an escape names. -/
inductive Unit16
  | char (c : Char)
  | code (n : Nat)
deriving DecidableEq, Inhabited

/-- The character of a simple escape. -/
def simpleEscape? (c : Char) : Option Char :=
  if c = '"' then some '"'
  else if c = '\\' then some '\\'
  else if c = '/' then some '/'
  else if c = 'b' then some '\x08'
  else if c = 'f' then some '\x0c'
  else if c = 'n' then some '\n'
  else if c = 'r' then some '\r'
  else if c = 't' then some '\t'
  else none

/-- The units of a string up to its closing quote, and the text after that quote. The
bound is on their number. -/
def units? : Nat → List Char → Option (List Unit16 × List Char)
  | 0, _ => none
  | _ + 1, [] => none
  | n + 1, c :: rest =>
    if c = '"' then some ([], rest)
    else if c = '\\' then
      match rest with
      | [] => none
      | e :: rest =>
        if e = 'u' then do
          let (code, rest) ← hex4? rest
          let (units, rest) ← units? n rest
          pure (.code code :: units, rest)
        else do
          let escaped ← simpleEscape? e
          let (units, rest) ← units? n rest
          pure (.char escaped :: units, rest)
    else if c.toNat < 32 then none
    else do
      let (units, rest) ← units? n rest
      pure (.char c :: units, rest)

def isHighHalf (n : Nat) : Bool := 0xD800 ≤ n && n ≤ 0xDBFF

def isLowHalf (n : Nat) : Bool := 0xDC00 ≤ n && n ≤ 0xDFFF

/-- The characters that units spell. Two halves of a surrogate pair, one right after
the other, spell one character; a half alone spells nothing. -/
def spell : List Unit16 → Spelling
  | [] => some []
  | .char c :: rest => (spell rest).map (c :: ·)
  | .code n :: rest =>
    if isHighHalf n then
      match rest with
      | .code m :: rest =>
        if isLowHalf m then
          (spell rest).map
            (Char.ofNat (0x10000 + (n - 0xD800) * 0x400 + (m - 0xDC00)) :: ·)
        else none
      | _ => none
    else if isLowHalf n then none
    else (spell rest).map (Char.ofNat n :: ·)

def string? (text : List Char) : Option (Spelling × List Char) := do
  let (units, rest) ← units? (text.length + 1) text
  pure (spell units, rest)

/-- The digits at the front of a text, and the text after them. -/
def digits (text : List Char) : List Char × List Char :=
  (text.takeWhile Char.isDigit, text.dropWhile Char.isDigit)

/-- The fraction at the front of a text, if there is one: the text after it, and
whether there was one. -/
def fraction? : List Char → Option (Bool × List Char)
  | '.' :: rest =>
    let (ds, rest) := digits rest
    if ds = [] then none else some (true, rest)
  | text => some (false, text)

/-- The exponent at the front of a text, if there is one: the text after it, and
whether there was one. -/
def exponent? : List Char → Option (Bool × List Char)
  | [] => some (false, [])
  | c :: rest =>
    if c = 'e' ∨ c = 'E' then
      let unsigned :=
        match rest with
        | '+' :: rest => rest
        | '-' :: rest => rest
        | rest => rest
      let (ds, rest) := digits unsigned
      if ds = [] then none else some (true, rest)
    else some (false, c :: rest)

/-- A number: digits without a leading zero, a fraction or none, an exponent or
none. -/
def unsigned? (text : List Char) : Option (Json × List Char) := do
  let (ds, rest) := digits text
  if ds = [] ∨ (ds.head? = some '0' ∧ ds.length ≠ 1) then none
  else
    let (fractional, rest) ← fraction? rest
    let (scaled, rest) ← exponent? rest
    if fractional || scaled then pure (.otherNumber, rest)
    else pure (.natural (Decimal.valueFrom 0 ds), rest)

/-- A number with or without a sign. -/
def number? : List Char → Option (Json × List Char)
  | '-' :: rest => do
    let (_, rest) ← unsigned? rest
    pure (.otherNumber, rest)
  | text => unsigned? text

mutual

/-- A value, blanks before it included. -/
def value? : Nat → List Char → Option (Json × List Char)
  | 0, _ => none
  | n + 1, text =>
    match skipSpaces text with
    | 'n' :: rest => (expect? ['u', 'l', 'l'] rest).map fun rest => (.null, rest)
    | 't' :: rest => (expect? ['r', 'u', 'e'] rest).map fun rest => (.bool true, rest)
    | 'f' :: rest =>
      (expect? ['a', 'l', 's', 'e'] rest).map fun rest => (.bool false, rest)
    | '"' :: rest => do
      let (spelling, rest) ← string? rest
      pure (.string spelling, rest)
    | '[' :: rest =>
      match skipSpaces rest with
      | ']' :: rest => some (.array [], rest)
      | rest => do
        let (items, rest) ← items? n rest
        pure (.array items, rest)
    | '{' :: rest =>
      match skipSpaces rest with
      | '}' :: rest => some (.object [], rest)
      | rest => do
        let (members, rest) ← members? n rest
        pure (.object members, rest)
    | text => number? text

/-- The items of an array up to its closing bracket. -/
def items? : Nat → List Char → Option (List Json × List Char)
  | 0, _ => none
  | n + 1, text => do
    let (item, rest) ← value? n text
    match skipSpaces rest with
    | ',' :: rest => do
      let (items, rest) ← items? n rest
      pure (item :: items, rest)
    | ']' :: rest => some ([item], rest)
    | _ => none

/-- The members of an object up to its closing brace. -/
def members? : Nat → List Char → Option (List (Spelling × Json) × List Char)
  | 0, _ => none
  | n + 1, text =>
    match skipSpaces text with
    | '"' :: rest => do
      let (key, rest) ← string? rest
      match skipSpaces rest with
      | ':' :: rest => do
        let (value, rest) ← value? n rest
        match skipSpaces rest with
        | ',' :: rest => do
          let (members, rest) ← members? n rest
          pure ((key, value) :: members, rest)
        | '}' :: rest => some ([(key, value)], rest)
        | _ => none
      | _ => none
    | _ => none

end

/-- The value that a JSON text consists of; `none` when it is no JSON text. -/
def read? (text : String) : Option Json :=
  match value? (text.toList.length + 1) text.toList with
  | some (value, rest) => if skipSpaces rest = [] then some value else none
  | none => none

@[simp] theorem skipSpaces_nil : skipSpaces [] = [] := rfl

end Json

end BisimPlay
