/-!
# Plain text

A text may hold control characters, and sequences of characters that a terminal acts
on instead of showing them. A sequence is opened by an escape character; the character
after it decides on the kind of the sequence, and the kind on its end. What is left of
a text without all of these is its plain text.

Layout characters, which break a line or move along it, belong to the plain text. One
that stands in a sequence of the short kinds interrupts that sequence, and what follows
is shown again. The next control character takes the sequence up where it was left,
unless a character beyond ASCII came in between. Within a string a layout character is
part of the string.

`plain_eq_self` says that plain text is left alone, and `isShown_of_mem_plain` that
nothing but plain text is left.
-/

namespace BisimPlay

namespace Text

/-- A place in a text with respect to its sequences. -/
inductive Place
  /-- Outside of all sequences. -/
  | outside
  /-- Right after an escape character. -/
  | escape
  /-- Further on in a sequence that has no kind of its own. -/
  | escapeTail
  /-- In a control sequence, which ends with a letter or the like. -/
  | control
  /-- In a command to the operating system, which ends with a bell. -/
  | command
  /-- At the beginning of a device control. -/
  | device
  /-- Among the parameters of a device control. -/
  | deviceParameters
  /-- Behind the parameters of a device control. -/
  | deviceTail
  /-- In a string, which ends with a terminator of its own. -/
  | string
deriving DecidableEq, Inhabited

def isLayout (c : Char) : Bool := c = '\t' || c = '\n' || c = '\x0c' || c = '\r'

/-- A character is shown unless it is one of the ASCII controls; the layout characters
count as shown. -/
def isShown (c : Char) : Bool :=
  isLayout c || (0x20 ≤ c.toNat && c.toNat ≠ 0x7F)

def inRange (low high : Nat) (c : Char) : Bool := low ≤ c.toNat && c.toNat ≤ high

/-- The terminator of strings is the code `9C`, looked for among the bytes of the
text. -/
def endsString (c : Char) : Bool := (String.utf8EncodeChar c).contains 0x9C

namespace Place

/-- The place after the character that follows an escape character. -/
def afterEscape (c : Char) : Place :=
  if c = '[' then control
  else if c = ']' then command
  else if c = 'P' then device
  else if c = 'X' || c = '^' || c = '_' then string
  else if inRange 0x20 0x2F c then escapeTail
  else if inRange 0x30 0x7E c then outside
  else escape

/-- The place after a character that is not kept. -/
def afterInside : Place → Char → Place
  | outside, _ => outside
  | escape, c => afterEscape c
  | escapeTail, c => if inRange 0x30 0x7E c then outside else escapeTail
  | control, c => if inRange 0x40 0x7E c then outside else control
  | command, c => if c = '\x07' then outside else command
  | device, c =>
    if inRange 0x20 0x2F c then deviceTail
    else if inRange 0x30 0x3F c then deviceParameters
    else if inRange 0x40 0x7E c then string
    else device
  | deviceParameters, c =>
    if inRange 0x20 0x2F c then deviceTail
    else if inRange 0x3C 0x7E c then string
    else deviceParameters
  | deviceTail, c => if inRange 0x30 0x7E c then string else deviceTail
  | string, c => if endsString c then outside else string

/-- Whether a character that is met at a place is kept. -/
def keeps : Place → Char → Bool
  | outside, c => isShown c
  | escape, c | escapeTail, c | control, c => isLayout c
  | command, _ | device, _ | deviceParameters, _ | deviceTail, _ | string, _ => false

end Place

/-- Where a reader of a text stands: its place, and whether a layout character has
interrupted the sequence there. -/
structure Standing where
  place : Place
  interrupted : Bool
deriving DecidableEq, Inhabited

namespace Standing

def outside : Standing := ⟨.outside, false⟩

/-- Whether a character is kept: while a sequence is interrupted, all that is shown
is. -/
def keeps (standing : Standing) (c : Char) : Bool :=
  if standing.interrupted then isShown c else standing.place.keeps c

/-- The standing after a character that is neither an escape nor a cancel character. -/
def afterOther (standing : Standing) (c : Char) : Standing :=
  if standing.interrupted then
    if ¬ isShown c then ⟨standing.place, false⟩
    else if c.toNat < 0x80 then standing
    else outside
  else if standing.place.keeps c then ⟨standing.place, standing.place ≠ .outside⟩
  else ⟨standing.place.afterInside c, false⟩

/-- The standing after a character. An escape character opens a sequence wherever it
stands, and the two characters that cancel break off whatever is open. -/
def after (standing : Standing) (c : Char) : Standing :=
  if c = '\x1b' then ⟨.escape, false⟩
  else if c = '\x18' || c = '\x1a' then outside
  else standing.afterOther c

end Standing

/-- The plain text of a text that is met in a standing. -/
def plainFrom : Standing → List Char → List Char
  | _, [] => []
  | standing, c :: rest =>
    if standing.keeps c then c :: plainFrom (standing.after c) rest
    else plainFrom (standing.after c) rest

def plain (text : List Char) : List Char := plainFrom .outside text

@[simp] theorem plainFrom_nil (standing : Standing) : plainFrom standing [] = [] := rfl

@[simp] theorem plain_nil : plain [] = [] := rfl

theorem isShown_of_isLayout {c : Char} (h : isLayout c = true) : isShown c = true := by
  simp [isShown, h]

theorem isShown_of_place_keeps {place : Place} {c : Char} (h : place.keeps c = true) :
    isShown c = true := by
  cases place with
  | outside => exact h
  | escape => exact isShown_of_isLayout h
  | escapeTail => exact isShown_of_isLayout h
  | control => exact isShown_of_isLayout h
  | command => cases h
  | device => cases h
  | deviceParameters => cases h
  | deviceTail => cases h
  | string => cases h

theorem isShown_of_keeps {standing : Standing} {c : Char}
    (h : standing.keeps c = true) : isShown c = true := by
  unfold Standing.keeps at h
  split at h
  · exact h
  · exact isShown_of_place_keeps h

theorem outside_after_of_isShown {c : Char} (h : isShown c = true) :
    Standing.outside.after c = .outside := by
  have hescape : c ≠ '\x1b' := by
    rintro rfl
    revert h
    decide
  have hother : Standing.outside.afterOther c = .outside := by
    simp [Standing.afterOther, Standing.outside, Place.keeps, h]
  rw [Standing.after, if_neg hescape, hother, ite_self]

theorem isShown_of_mem_plainFrom {standing : Standing} {text : List Char} {c : Char}
    (h : c ∈ plainFrom standing text) : isShown c = true := by
  induction text generalizing standing with
  | nil => simp at h
  | cons d rest ih =>
      unfold plainFrom at h
      split at h
      · next hkeeps =>
        rcases List.mem_cons.1 h with rfl | hrest
        · exact isShown_of_keeps hkeeps
        · exact ih hrest
      · exact ih h

theorem isShown_of_mem_plain {text : List Char} {c : Char} (h : c ∈ plain text) :
    isShown c = true :=
  isShown_of_mem_plainFrom h

theorem plainFrom_sublist (standing : Standing) (text : List Char) :
    (plainFrom standing text).Sublist text := by
  induction text generalizing standing with
  | nil => simp
  | cons c rest ih =>
      unfold plainFrom
      split
      · exact (ih _).cons_cons c
      · exact (ih _).cons c

theorem plain_eq_self (text : List Char) (h : ∀ c ∈ text, isShown c = true) :
    plain text = text := by
  induction text with
  | nil => rfl
  | cons c rest ih =>
      have hc : isShown c = true := h c (by simp)
      have hrest : plain rest = rest := ih fun d hd => h d (by simp [hd])
      have hkeeps : Standing.outside.keeps c = true := by
        simpa [Standing.keeps, Standing.outside, Place.keeps] using hc
      rw [plain, plainFrom, if_pos hkeeps, outside_after_of_isShown hc]
      exact congrArg (c :: ·) hrest

@[simp] theorem plain_plain (text : List Char) : plain (plain text) = plain text :=
  plain_eq_self _ fun _ hc => isShown_of_mem_plain hc

end Text

end BisimPlay
