/-!
Twelve-round ChaCha as a stream of bytes that a seed selects. The key is drawn from the seed by a
permuted congruential generator. Each byte of the stream is the low byte of one keystream word.
-/
namespace ChipEight.Random.Keystream

def multiplier : UInt64 := 6364136223846793005

def increment : UInt64 := 11634580027462260723

def nextState (s : UInt64) : UInt64 := s * multiplier + increment

def rotateRight (x : UInt32) (r : UInt32) : UInt32 :=
  if r = 0 then x else x >>> r ||| x <<< (32 - r)

def rotateLeft (x : UInt32) (r : UInt32) : UInt32 := x <<< r ||| x >>> (32 - r)

def outputWord (s : UInt64) : UInt32 :=
  rotateRight (((s >>> 18) ^^^ s) >>> 27).toUInt32 (s >>> 59).toUInt32

def keyWords (s : UInt64) : Nat → List UInt32
  | 0 => []
  | n + 1 => outputWord (nextState s) :: keyWords (nextState s) n

def constants : List UInt32 := [0x61707865, 0x3320646e, 0x79622d32, 0x6b206574]

abbrev Block := Vector UInt32 16

/-- The constants, the key, and the number of the block in two words. -/
def initialBlock (key : List UInt32) (counter : UInt64) : Block :=
  let words := constants ++ key ++ [counter.toUInt32, (counter >>> 32).toUInt32]
  Vector.ofFn fun i => words.getD i 0

def word (b : Block) (place : Nat) : UInt32 := b[place]?.getD 0

def quarterRound (b : Block) (i j k l : Nat) : Block :=
  let w := word b i + word b j
  let z := rotateLeft (word b l ^^^ w) 16
  let y := word b k + z
  let x := rotateLeft (word b j ^^^ y) 12
  let w := w + x
  let z := rotateLeft (z ^^^ w) 8
  let y := y + z
  let x := rotateLeft (x ^^^ y) 7
  (((b.setIfInBounds i w).setIfInBounds j x).setIfInBounds k y).setIfInBounds l z

def columnRound (b : Block) : Block :=
  let b := quarterRound b 0 4 8 12
  let b := quarterRound b 1 5 9 13
  let b := quarterRound b 2 6 10 14
  quarterRound b 3 7 11 15

def diagonalRound (b : Block) : Block :=
  let b := quarterRound b 0 5 10 15
  let b := quarterRound b 1 6 11 12
  let b := quarterRound b 2 7 8 13
  quarterRound b 3 4 9 14

def rounds : Nat → Block → Block
  | 0, b => b
  | n + 1, b => rounds n (diagonalRound (columnRound b))

/-- One block of the keystream: six double rounds added to their start. -/
def block (key : List UInt32) (counter : UInt64) : Block :=
  let start := initialBlock key counter
  Vector.zipWith (· + ·) start (rounds 6 start)

/-- The byte at position `n` of the stream that the seed selects. -/
def byteAt (seed : UInt64) (n : Nat) : UInt8 :=
  (word (block (keyWords seed 8) (UInt64.ofNat (n / 16))) (n % 16)).toUInt8

end ChipEight.Random.Keystream
