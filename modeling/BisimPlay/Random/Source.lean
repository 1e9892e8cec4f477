import BisimPlay.Random.ChaCha

/-!
# Random sources

A source of random choices starts from a seed of 64 bits and is a stream of words
from then on; equal seeds give equal choices. A source can be forked. The seeds of
its forks are its own seed moved on by multiples of a fixed odd constant, and
forking draws nothing from the stream.
-/

namespace BisimPlay

namespace Random

/-- One step of the generator that spreads a seed over a key. -/
def spread (state : UInt64) : UInt64 :=
  state * 6364136223846793005 + 11634580027462260723

/-- The word that a state of the spreading generator gives: its upper bits, folded
and rotated by an amount that its topmost bits name. -/
def spreadWord (state : UInt64) : UInt32 :=
  let folded := (((state >>> 18) ^^^ state) >>> 27).toUInt32
  let amount := (state >>> 59).toUInt32
  (folded >>> amount) ||| (folded <<< ((32 - amount) % 32))

/-- A row of four words, and the state after them. -/
def spreadRow (state : UInt64) : ChaCha.Row × UInt64 :=
  let first := spread state
  let second := spread first
  let third := spread second
  let fourth := spread third
  (⟨spreadWord first, spreadWord second, spreadWord third, spreadWord fourth⟩, fourth)

/-- The key of a seed. -/
def key (seed : UInt64) : ChaCha.Key :=
  let (upper, state) := spreadRow seed
  ⟨upper, (spreadRow state).1⟩

def leadingZeros (n : Nat) : Nat := 31 - Nat.log2 n

/-- The largest low half for which a draw is accepted when one of `n` is to be
chosen: among the draws up to it, every choice is equally likely. -/
def acceptanceZone (n : Nat) : Nat := n <<< leadingZeros n - 1

/-- The position and the value of the first draw that is accepted when one of `n` is
to be chosen, starting at a position of the stream. A draw `v` splits `v * n` into
a high half, which is the choice, and a low half, which decides on acceptance. At
least half of all draws are accepted; the first number bounds the draws. -/
def pick (key : ChaCha.Key) (n : Nat) : Nat → Nat → Nat × Nat
  | 0, position => (position, 0)
  | tries + 1, position =>
    let product := (ChaCha.word key position).toNat * n
    if product % 0x100000000 ≤ acceptanceZone n then (position, product / 0x100000000)
    else pick key n tries (position + 1)

/-- How often a draw is repeated at most. A run of this many refusals has a
probability below one in `2 ^ 65536`. -/
def patience : Nat := 65536

theorem snd_pick_lt (key : ChaCha.Key) (n tries position : Nat) (h : 0 < n) :
    (pick key n tries position).2 < n := by
  induction tries generalizing position with
  | zero => exact h
  | succ tries ih =>
      unfold pick
      dsimp only
      split
      · have hword := (ChaCha.word key position).toNat_lt
        exact Nat.div_lt_of_lt_mul (Nat.mul_lt_mul_of_pos_right hword h)
      · exact ih (position + 1)

end Random

/-- A source of random choices: its seed, how many words it has drawn, and how often
it was forked. -/
structure RandomSource where
  seed : UInt64
  drawn : Nat
  forks : UInt64
deriving DecidableEq, Inhabited

namespace RandomSource

def forkStride : UInt64 := 0x9E3779B97F4A7C15

def ofSeed (seed : UInt64) : RandomSource := ⟨seed, 0, 0⟩

/-- Fork a source: the new source, and the old one with the fork counted. -/
def fork (source : RandomSource) : RandomSource × RandomSource :=
  let forks := source.forks + 1
  (ofSeed (source.seed + forks * forkStride), { source with forks })

/-- Fork a source and go on with the fork, a number of times over. -/
def descend : Nat → RandomSource → RandomSource
  | 0, source => source
  | n + 1, source => descend n source.fork.1

/-- Choose a position among `n`; among none nothing is chosen and nothing drawn. -/
def index (source : RandomSource) (n : Nat) : Option Nat × RandomSource :=
  if n = 0 then (none, source)
  else
    let (position, choice) :=
      Random.pick (Random.key source.seed) n Random.patience source.drawn
    (some choice, { source with drawn := position + 1 })

/-- Choose a member of a list. -/
def choose {α : Type} (source : RandomSource) (list : List α) :
    Option α × RandomSource :=
  let (choice, source) := source.index list.length
  (choice.bind (list[·]?), source)

@[simp] theorem seed_ofSeed (seed : UInt64) : (ofSeed seed).seed = seed := rfl

@[simp] theorem seed_fork (source : RandomSource) :
    source.fork.1.seed = source.seed + (source.forks + 1) * forkStride := rfl

theorem fork_snd (source : RandomSource) :
    source.fork.2 = { source with forks := source.forks + 1 } := rfl

@[simp] theorem index_zero (source : RandomSource) : source.index 0 = (none, source) :=
  rfl

theorem exists_index_lt (source : RandomSource) (n : Nat) (h : 0 < n) :
    ∃ i < n, (source.index n).1 = some i := by
  have hn : n ≠ 0 := Nat.ne_of_gt h
  refine ⟨_, Random.snd_pick_lt (Random.key source.seed) n Random.patience source.drawn h, ?_⟩
  simp [index, hn]

@[simp] theorem choose_nil {α : Type} (source : RandomSource) :
    source.choose ([] : List α) = (none, source) := rfl

theorem exists_mem_choose {α : Type} (source : RandomSource) (list : List α)
    (h : list ≠ []) : ∃ a ∈ list, (source.choose list).1 = some a := by
  obtain ⟨i, hi, hindex⟩ := source.exists_index_lt list.length (List.length_pos_iff.2 h)
  exact ⟨list[i], List.getElem_mem hi, by simp [choose, hindex, hi]⟩

end RandomSource

end BisimPlay
