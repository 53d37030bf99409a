import WitnessSearch.Random.Source

/-! The seeded source: the keystream of ChaCha with twelve rounds. A seed is stretched to a key of
eight words, the key and a block number give sixteen words, and the blocks follow one another. The
state is a key and a position in the stream of 32-bit words; the block around the position is kept
beside it and is always the one the key determines. -/

namespace WitnessSearch

namespace Keystream

/-- Sixteen words: the input of the rounds as well as a block of output. -/
abbrev Block := Vector UInt32 16

/-- The eight words of a key. -/
abbrev Key := Vector UInt32 8

def rotateLeft (word amount : UInt32) : UInt32 :=
  (word <<< amount) ||| (word >>> (32 - amount))

def rotateRight (word amount : UInt32) : UInt32 :=
  (word >>> amount) ||| (word <<< (32 - amount))

def quarterRound (block : Block) (a b c d : Fin 16) : Block :=
  let x := block[a] + block[b]
  let w := rotateLeft (block[d] ^^^ x) 16
  let z := block[c] + w
  let y := rotateLeft (block[b] ^^^ z) 12
  let x := x + y
  let w := rotateLeft (w ^^^ x) 8
  let z := z + w
  let y := rotateLeft (y ^^^ z) 7
  (((block.set a x).set b y).set c z).set d w

def doubleRound (block : Block) : Block :=
  let block := quarterRound block 0 4 8 12
  let block := quarterRound block 1 5 9 13
  let block := quarterRound block 2 6 10 14
  let block := quarterRound block 3 7 11 15
  let block := quarterRound block 0 5 10 15
  let block := quarterRound block 1 6 11 12
  let block := quarterRound block 2 7 8 13
  quarterRound block 3 4 9 14

def initialBlock (key : Key) (number : Nat) : Block :=
  #v[0x61707865, 0x3320646e, 0x79622d32, 0x6b206574,
    key[0], key[1], key[2], key[3], key[4], key[5], key[6], key[7],
    UInt32.ofNat number, UInt32.ofNat (number / UInt32.size), 0, 0]

def rounds : Nat → Block → Block
  | 0, block => block
  | pairs + 1, block => rounds pairs (doubleRound block)

def blockAt (key : Key) (number : Nat) : Block :=
  let input := initialBlock key number
  (rounds 6 input).zipWith (· + ·) input

/-- One step of the congruential generator that stretches a seed. -/
def stretchStep (state : UInt64) : UInt64 :=
  state * 6364136223846793005 + 11634580027462260723

def stretchWord (state : UInt64) : UInt32 :=
  rotateRight (((state >>> 18) ^^^ state) >>> 27).toUInt32 (state >>> 59).toUInt32

/-- The states of the generator after each of `count` steps. -/
def stretchStates : Nat → UInt64 → List UInt64
  | 0, _ => []
  | count + 1, state => stretchStep state :: stretchStates count (stretchStep state)

def keyOfSeed (seed : UInt64) : Key :=
  let words := (stretchStates 8 seed).map stretchWord
  Vector.ofFn fun i => words.getD i 0

end Keystream

/-- A position in the keystream of a key, with the block that holds it. -/
structure Keystream where
  key : Keystream.Key
  /-- The number of words taken so far. -/
  position : Nat
  block : Keystream.Block
  block_eq : block = Keystream.blockAt key (position / 16)

namespace Keystream

def ofSeed (seed : UInt64) : Keystream where
  key := keyOfSeed seed
  position := 0
  block := blockAt (keyOfSeed seed) 0
  block_eq := rfl

def wordAt (key : Key) (position : Nat) : UInt32 :=
  (blockAt key (position / 16))[position % 16]

/-- Moves on by one word. A new block is made when the old one is used up. -/
def advance (stream : Keystream) : Keystream :=
  if h : (stream.position + 1) % 16 = 0 then
    { key := stream.key
      position := stream.position + 1
      block := blockAt stream.key ((stream.position + 1) / 16)
      block_eq := rfl }
  else
    { key := stream.key
      position := stream.position + 1
      block := stream.block
      block_eq := by
        rw [stream.block_eq]
        congr 1
        omega }

def next32 (stream : Keystream) : UInt32 × Keystream :=
  (stream.block[stream.position % 16], stream.advance)

/-- Taking a word yields the word at the position and moves on by one. -/
theorem next32_eq (stream : Keystream) :
    stream.next32 = (wordAt stream.key stream.position, stream.advance) := by
  simp [next32, wordAt, stream.block_eq]

/-- The next 64-bit word takes two words, the first of which is the low half. -/
def next64 (stream : Keystream) : UInt64 × Keystream :=
  let (low, stream) := stream.next32
  let (high, stream) := stream.next32
  ((high.toUInt64 <<< 32) ||| low.toUInt64, stream)

instance : RandomSource Keystream := ⟨next64⟩

def bytesOfWord (word : UInt32) : List UInt8 :=
  [word.toUInt8, (word >>> 8).toUInt8, (word >>> 16).toUInt8, (word >>> 24).toUInt8]

/-- The next `count` bytes. Whole words are taken, and what is left of the last one is lost. -/
def bytes : Nat → Keystream → List UInt8 × Keystream
  | 0, stream => ([], stream)
  | count + 1, stream =>
    let (word, stream) := stream.next32
    let (rest, stream) := bytes (count - 3) stream
    ((bytesOfWord word).take (count + 1) ++ rest, stream)

end Keystream

end WitnessSearch
