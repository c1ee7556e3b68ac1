import BodyContract.CharSet
import BodyContract.Number.Power
/-!
Sources of random words.

A `RandomSource` hands out 32-bit words. It is either the keystream of ChaCha with twelve rounds,
whose key comes from a 64-bit seed, or a list of words that starts over at its end. Nothing here
depends on the machine: the same seed gives the same words.

* `RandomSource.drawBetween` draws a number of a range by widening multiplication.
* `RandomSource.drawChar` draws a character of a range, refusing the words that would favour some.
-/

namespace BodyContract

/-- The sixteen words of a ChaCha block. -/
abbrev ChaChaBlock := Vector UInt32 16

namespace ChaChaBlock

/-- Rotates a word to the left. -/
def rotateLeft (word amount : UInt32) : UInt32 :=
  (word <<< amount) ||| (word >>> (32 - amount))

/-- One quarter round on four places of the block. -/
def quarterRound (block : ChaChaBlock) (a b c d : Fin 16) : ChaChaBlock :=
  let block := block.set a (block[a] + block[b])
  let block := block.set d (rotateLeft (block[d] ^^^ block[a]) 16)
  let block := block.set c (block[c] + block[d])
  let block := block.set b (rotateLeft (block[b] ^^^ block[c]) 12)
  let block := block.set a (block[a] + block[b])
  let block := block.set d (rotateLeft (block[d] ^^^ block[a]) 8)
  let block := block.set c (block[c] + block[d])
  block.set b (rotateLeft (block[b] ^^^ block[c]) 7)

/-- A round on the four columns and one on the four diagonals. -/
def doubleRound (block : ChaChaBlock) : ChaChaBlock :=
  let block := block.quarterRound 0 4 8 12
  let block := block.quarterRound 1 5 9 13
  let block := block.quarterRound 2 6 10 14
  let block := block.quarterRound 3 7 11 15
  let block := block.quarterRound 0 5 10 15
  let block := block.quarterRound 1 6 11 12
  let block := block.quarterRound 2 7 8 13
  block.quarterRound 3 4 9 14

/-- Twelve rounds, and the block they started from added word by word. -/
def mix (block : ChaChaBlock) : ChaChaBlock :=
  (Nat.repeat doubleRound 6 block).zipWith (· + ·) block

end ChaChaBlock

/-- A ChaCha keystream: its key, the number of the next block, and the words of the current block
that have not been handed out. -/
structure Keystream where
  key : Vector UInt32 8
  counter : UInt64
  pending : List UInt32
deriving DecidableEq, Repr

namespace Keystream

/-- One step of the congruential generator that spreads a seed. -/
def nextSeed (state : UInt64) : UInt64 := state * 6364136223846793005 + 11634580027462260723

/-- The word that a state of that generator puts out: its folded upper bits, rotated. -/
def seedWord (state : UInt64) : UInt32 :=
  let folded := (((state >>> 18) ^^^ state) >>> 27).toUInt32
  let amount := (state >>> 59).toUInt32
  (folded >>> amount) ||| (folded <<< ((32 - amount) % 32))

/-- The first `count` words that a seed is spread to. -/
def seedWords (state : UInt64) : (count : Nat) → Vector UInt32 count
  | 0 => #v[]
  | count + 1 => ((seedWords (nextSeed state) count).insertIdx 0 (seedWord (nextSeed state)))

/-- The keystream of a seed. -/
def ofSeed (seed : UInt64) : Keystream := ⟨seedWords seed 8, 0, []⟩

/-- The block from which the words with a block number are mixed. -/
def block (stream : Keystream) : ChaChaBlock :=
  let constants : Vector UInt32 4 := #v[0x61707865, 0x3320646e, 0x79622d32, 0x6b206574]
  let counter : Vector UInt32 4 :=
    #v[stream.counter.toUInt32, (stream.counter >>> 32).toUInt32, 0, 0]
  constants ++ stream.key ++ counter

/-- The next word. -/
def next (stream : Keystream) : UInt32 × Keystream :=
  match stream.pending with
  | word :: rest => (word, { stream with pending := rest })
  | [] =>
      match stream.block.mix.toList with
      | word :: rest => (word, ⟨stream.key, stream.counter + 1, rest⟩)
      | [] => (0, stream)

end Keystream

/-- A source of random words. -/
inductive RandomSource where
  /-- The keystream of a seed. -/
  | keystream (stream : Keystream)
  /-- The words that are left of a list, and the list to start over with. -/
  | cycle (pending words : List UInt32)
deriving DecidableEq, Repr

namespace RandomSource

/-- The source that belongs to a seed. -/
def ofSeed (seed : UInt64) : RandomSource := .keystream (.ofSeed seed)

/-- The source that repeats a list of words. -/
def ofWords (words : List UInt32) : RandomSource := .cycle words words

/-- The next word. An empty list of words yields zeros. -/
def nextWord : RandomSource → Nat × RandomSource
  | .keystream stream =>
      let (word, rest) := stream.next
      (word.toNat, .keystream rest)
  | .cycle (word :: rest) words => (word.toNat, .cycle rest words)
  | .cycle [] [] => (0, .cycle [] [])
  | .cycle [] (word :: rest) => (word.toNat, .cycle rest (word :: rest))

/-- The next two words as one number, the first of them in the lower half. -/
def nextDoubleWord (source : RandomSource) : Nat × RandomSource :=
  let (low, source) := source.nextWord
  let (high, source) := source.nextWord
  (low + high * twoTo 32, source)

/-- A number of `low..=high` from draws below `base`. The product of a draw and the size of the
range, divided by `base`, is nearly uniform; where its remainder is so large that a carry is
possible, a second draw decides on the carry. A size of `base` or more wraps, and the size zero
stands for the whole span of a draw. -/
def drawScaled (base : Nat) (next : RandomSource → Nat × RandomSource) (low high : Nat)
    (source : RandomSource) : Nat × RandomSource :=
  let size := (high - low + 1) % base
  let (draw, source) := next source
  if size = 0 then
    (draw, source)
  else
    let result := draw * size / base
    let remainder := draw * size % base
    if (base - size) % base < remainder then
      let (second, source) := next source
      let carry := if base ≤ remainder + second * size / base then 1 else 0
      (low + result + carry, source)
    else
      (low + result, source)

/-- A number of `low..=high`, for `low ≤ high`: from one or two words, or from twice as many if
`high` does not fit into a word. -/
def drawBetween (low high : Nat) (source : RandomSource) : Nat × RandomSource :=
  if twoTo 32 - 1 < high then
    drawScaled (twoTo 64) nextDoubleWord low high source
  else
    drawScaled (twoTo 32) nextWord low high source

/-- A number of `low..=high`, or nothing if the range is empty. -/
def drawBetween? (low high : Nat) (source : RandomSource) : Option (Nat × RandomSource) :=
  if low ≤ high then some (source.drawBetween low high) else none

/-- Draws words until the remainder of the product with `size` is `threshold` at least, and gives
the quotient. Less than half of all words are refused, so `fuel` is never used up by a keystream;
the word drawn last is then taken as it is. -/
def drawRejecting (size threshold : Nat) : Nat → RandomSource → Nat × RandomSource
  | 0, source =>
      let (draw, source) := source.nextWord
      (draw * size / twoTo 32, source)
  | fuel + 1, source =>
      let (draw, source) := source.nextWord
      if draw * size % twoTo 32 < threshold then
        drawRejecting size threshold fuel source
      else
        (draw * size / twoTo 32, source)

/-- The number of a code point among the characters, which leave out the surrogates. -/
def charRank (point : Nat) : Nat := if 0xE000 ≤ point then point - 0x800 else point

/-- The character with a number. -/
def charOfRank (rank : Nat) : Char :=
  Char.ofNat (if 0xD800 ≤ rank then rank + 0x800 else rank)

/-- A character of an interval, every one with the same probability. -/
def drawChar (interval : Interval) (source : RandomSource) : Char × RandomSource :=
  let low := charRank interval.low
  let size := charRank interval.high - low + 1
  let (offset, source) := drawRejecting size ((twoTo 32 - size) % size) (twoTo 20) source
  (charOfRank (low + offset), source)

end RandomSource

end BodyContract
