import BisimPlay.Text.Blank

/-!
# Lines and words

Plain text is read line by line. A line ends at a line feed, and a carriage return
right before that line feed belongs to the line end. Within a line, words are the
longest runs of characters that are not blank.

Everything works on lists of characters, so that each function is a recursion on
its text.
-/

namespace BisimPlay

namespace Text

/-- Put a character in front of the first line of a list of lines. -/
def consToFirst (c : Char) : List (List Char) → List (List Char)
  | [] => [[c]]
  | line :: rest => (c :: line) :: rest

/-- The lines of a text. Text after the last line end is a line of its own, also
when it is empty. -/
def lines : List Char → List (List Char)
  | [] => [[]]
  | '\n' :: rest => [] :: lines rest
  | '\r' :: '\n' :: rest => [] :: lines rest
  | c :: rest => consToFirst c (lines rest)

/-- The words of a line, in order. A character that is not blank starts a word, or
joins the word that follows it without a blank between. -/
def words : List Char → List (List Char)
  | [] => []
  | [c] => if isBlank c then [] else [[c]]
  | c :: d :: rest =>
    if isBlank c then words (d :: rest)
    else if isBlank d then [c] :: words (d :: rest)
    else consToFirst c (words (d :: rest))

/-- A text without the blanks at its two ends. -/
def trim (text : List Char) : List Char :=
  ((text.dropWhile isBlank).reverse.dropWhile isBlank).reverse

@[simp] theorem lines_nil : lines [] = [[]] := rfl

@[simp] theorem lines_newline (rest : List Char) :
    lines ('\n' :: rest) = [] :: lines rest := rfl

@[simp] theorem words_nil : words [] = [] := rfl

theorem words_cons_of_isBlank (c : Char) (rest : List Char) (h : isBlank c = true) :
    words (c :: rest) = words rest := by
  cases rest with
  | nil => simp [words, h]
  | cons d rest => simp [words, h]

end Text

end BisimPlay
