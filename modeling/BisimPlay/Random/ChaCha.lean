/-!
# The ChaCha stream with eight rounds

A key of eight words determines an endless stream of 32-bit words. The stream is cut
into blocks of sixteen words; a block is computed from the key and its own number,
so any word of the stream can be had without those before it.

The state of a block is a square of words, four rows of four. A round works on the
columns of the square, all four alike, so it is written on whole rows; the diagonals
become columns when the lower rows are turned.
-/

namespace BisimPlay

namespace ChaCha

/-- A row of the square. -/
structure Row where
  a : UInt32
  b : UInt32
  c : UInt32
  d : UInt32
deriving DecidableEq, Inhabited

namespace Row

/-- Combine two rows word by word. -/
def zipWith (f : UInt32 → UInt32 → UInt32) (x y : Row) : Row :=
  ⟨f x.a y.a, f x.b y.b, f x.c y.c, f x.d y.d⟩

/-- Rotate each word of a row to the left by a number of bits. -/
def rotate (bits : UInt32) (x : Row) : Row :=
  let rotated w := (w <<< bits) ||| (w >>> (32 - bits))
  ⟨rotated x.a, rotated x.b, rotated x.c, rotated x.d⟩

def turn (x : Row) : Row := ⟨x.b, x.c, x.d, x.a⟩

def toList (x : Row) : List UInt32 := [x.a, x.b, x.c, x.d]

end Row

/-- The square of words. -/
structure Square where
  first : Row
  second : Row
  third : Row
  fourth : Row
deriving DecidableEq, Inhabited

namespace Square

/-- Half a round: the first row takes in the second, and the fourth row the first;
then the third row takes in the fourth, and the second row the third. -/
def halfRound (bits bits' : UInt32) (s : Square) : Square :=
  let first := s.first.zipWith (· + ·) s.second
  let fourth := (s.fourth.zipWith (· ^^^ ·) first).rotate bits
  let third := s.third.zipWith (· + ·) fourth
  let second := (s.second.zipWith (· ^^^ ·) third).rotate bits'
  ⟨first, second, third, fourth⟩

def round (s : Square) : Square := (s.halfRound 16 12).halfRound 8 7

/-- Turn the lower rows so that the diagonals become columns. -/
def slant (s : Square) : Square :=
  ⟨s.first, s.second.turn, s.third.turn.turn, s.fourth.turn.turn.turn⟩

/-- Turn the lower rows back. -/
def straighten (s : Square) : Square :=
  ⟨s.first, s.second.turn.turn.turn, s.third.turn.turn, s.fourth.turn⟩

def doubleRound (s : Square) : Square := s.round.slant.round.straighten

/-- Add two squares word by word. -/
def add (s t : Square) : Square :=
  ⟨s.first.zipWith (· + ·) t.first, s.second.zipWith (· + ·) t.second,
    s.third.zipWith (· + ·) t.third, s.fourth.zipWith (· + ·) t.fourth⟩

/-- The words of a square, row by row. -/
def toList (s : Square) : List UInt32 :=
  s.first.toList ++ s.second.toList ++ s.third.toList ++ s.fourth.toList

theorem straighten_slant (s : Square) : s.slant.straighten = s := rfl

@[simp] theorem length_toList (s : Square) : s.toList.length = 16 := rfl

end Square

def constants : Row := ⟨0x61707865, 0x3320646e, 0x79622d32, 0x6b206574⟩

/-- A key: the two middle rows of the square. -/
structure Key where
  upper : Row
  lower : Row
deriving DecidableEq, Inhabited

/-- The square that a block starts from: constants, key, and the number of the block
in 64 bits, the low word first. -/
def initial (key : Key) (block : UInt64) : Square :=
  ⟨constants, key.upper, key.lower,
    ⟨block.toUInt32, (block >>> 32).toUInt32, 0, 0⟩⟩

/-- The words of a block: eight rounds from the initial square, added to it. -/
def blockWords (key : Key) (block : UInt64) : List UInt32 :=
  let start := initial key block
  (start.doubleRound.doubleRound.doubleRound.doubleRound.add start).toList

/-- The word at a position of the stream. -/
def word (key : Key) (position : Nat) : UInt32 :=
  ((blockWords key (.ofNat (position / 16)))[position % 16]?).getD 0

end ChaCha

end BisimPlay
