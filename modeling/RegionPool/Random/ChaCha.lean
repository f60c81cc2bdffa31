/-!
# A ChaCha word stream

A stream of 32-bit words from a 64-bit seed: the seed is stretched to a key of eight words
(`keyOfSeed`), and the key is turned into blocks of sixteen words by eight rounds of ChaCha
(`block`), one block for each value of a 64-bit counter. A `Stream` reads the words in order.
-/

namespace RegionPool.ChaCha

/-! ### Key -/

/-- `x` rotated to the left by `n` bits, for `n` from 1 to 31. -/
def rotateLeft (x n : UInt32) : UInt32 := (x <<< n) ||| (x >>> (32 - n))

/-- `x` rotated to the right by `n` bits, for `n` below 32. -/
def rotateRight (x n : UInt32) : UInt32 := if n = 0 then x else rotateLeft x (32 - n)

/-- One step of the generator that stretches a seed. -/
def seedStep (state : UInt64) : UInt64 := state * 6364136223846793005 + 11634580027462260723

/-- The word that a state of the generator stands for. -/
def seedWord (state : UInt64) : UInt32 :=
  rotateRight (((state >>> 18) ^^^ state) >>> 27).toUInt32 (state >>> 59).toUInt32

/-- The words for the first `n` states after `state`. -/
def seedWords : Nat → UInt64 → List UInt32
  | 0, _ => []
  | n + 1, state => seedWord (seedStep state) :: seedWords n (seedStep state)

/-- The key of a seed. -/
def keyOfSeed (seed : UInt64) : List UInt32 := seedWords 8 seed

/-! ### Blocks -/

/-- Four words of a block that a quarter round mixes. -/
structure Quad where
  a : UInt32
  b : UInt32
  c : UInt32
  d : UInt32

/-- The quarter round. -/
def quarterRound (q : Quad) : Quad :=
  let a := q.a + q.b
  let d := rotateLeft (q.d ^^^ a) 16
  let c := q.c + d
  let b := rotateLeft (q.b ^^^ c) 12
  let a := a + b
  let d := rotateLeft (d ^^^ a) 8
  let c := c + d
  let b := rotateLeft (b ^^^ c) 7
  { a, b, c, d }

/-- The quarter round on the words at four indices. -/
def mixAt (words : List UInt32) (a b c d : Nat) : List UInt32 :=
  let word (i : Nat) := words.getD i 0
  let q := quarterRound { a := word a, b := word b, c := word c, d := word d }
  (((words.set a q.a).set b q.b).set c q.c).set d q.d

/-- The indices of the quarter rounds of two rounds: the columns, then the diagonals. -/
def doubleRoundIndices : List (Nat × Nat × Nat × Nat) :=
  [(0, 4, 8, 12), (1, 5, 9, 13), (2, 6, 10, 14), (3, 7, 11, 15),
   (0, 5, 10, 15), (1, 6, 11, 12), (2, 7, 8, 13), (3, 4, 9, 14)]

/-- Two rounds. -/
def doubleRound (words : List UInt32) : List UInt32 :=
  doubleRoundIndices.foldl (fun words (a, b, c, d) => mixAt words a b c d) words

/-- The constant words at the start of every block. -/
def constants : List UInt32 := [0x61707865, 0x3320646e, 0x79622d32, 0x6b206574]

/-- The block of a counter: eight rounds over constants, key, counter and two zero words, added to
those words. -/
def block (key : List UInt32) (counter : UInt64) : List UInt32 :=
  -- The low half of the counter comes first.
  let start := constants ++ key ++ [counter.toUInt32, (counter >>> 32).toUInt32, 0, 0]
  let mixed := doubleRound (doubleRound (doubleRound (doubleRound start)))
  mixed.zipWith (· + ·) start

/-! ### Streams -/

/-- A place in the stream of words of a key. -/
structure Stream where
  key : List UInt32
  /-- The counter of the next block. -/
  counter : UInt64
  /-- The words of the present block that were not read yet. -/
  pending : List UInt32

/-- The start of the stream of a seed. -/
def Stream.ofSeed (seed : UInt64) : Stream :=
  { key := keyOfSeed seed, counter := 0, pending := [] }

/-- The next word. -/
def Stream.next32 (stream : Stream) : UInt32 × Stream :=
  match stream.pending with
  | word :: pending => (word, { stream with pending })
  | [] =>
    let words := block stream.key stream.counter
    (words.headD 0, { stream with counter := stream.counter + 1, pending := words.tail })

/-- The next two words as one number, the low half first. -/
def Stream.next64 (stream : Stream) : UInt64 × Stream :=
  let (low, stream) := stream.next32
  let (high, stream) := stream.next32
  (low.toUInt64 ||| (high.toUInt64 <<< 32), stream)

end RegionPool.ChaCha
