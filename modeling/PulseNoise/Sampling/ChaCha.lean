/-!
# A stream of random words

The stream of the ChaCha cipher with eight rounds, as a generator of 64-bit words. The key is
expanded from a 64-bit seed; each block of the cipher gives eight words, the first half of a word
being its low one.

* `Generator.ofSeed` is the generator at the start of a seed's stream.
* `Generator.next` takes one word from the stream.
-/

namespace PulseNoise.Sampling

/-- The sixteen words of a cipher block. -/
abbrev Block := Vector UInt32 16

namespace Block

def rotate (x k : UInt32) : UInt32 := (x <<< k) ||| (x >>> (32 - k))

/-- One half of a quarter round: `b` is added to `a`, which is mixed into `d`. -/
def mix (a b d : Fin 16) (k : UInt32) (s : Block) : Block :=
  let sum := s[a] + s[b]
  let s := s.set a.val sum a.isLt
  s.set d.val (rotate (s[d] ^^^ sum) k) d.isLt

/-- The quarter round on four words of a block. -/
def quarterRound (a b c d : Fin 16) (s : Block) : Block :=
  s |> mix a b d 16 |> mix c d b 12 |> mix a b d 8 |> mix c d b 7

/-- A round on the columns followed by one on the diagonals. -/
def doubleRound (s : Block) : Block :=
  s |> quarterRound 0 4 8 12 |> quarterRound 1 5 9 13
    |> quarterRound 2 6 10 14 |> quarterRound 3 7 11 15
    |> quarterRound 0 5 10 15 |> quarterRound 1 6 11 12
    |> quarterRound 2 7 8 13 |> quarterRound 3 4 9 14

/-- The input of the cipher for a key and a block number. -/
def input (key : Vector UInt32 8) (number : UInt64) : Block :=
  #v[0x61707865, 0x3320646e, 0x79622d32, 0x6b206574,
    key[0], key[1], key[2], key[3], key[4], key[5], key[6], key[7],
    number.toUInt32, (number >>> 32).toUInt32, 0, 0]

/-- The output of the cipher: four double rounds, and the input added once more. -/
def output (key : Vector UInt32 8) (number : UInt64) : Block :=
  let start := input key number
  let mixed := start |> doubleRound |> doubleRound |> doubleRound |> doubleRound
  mixed.zipWith (· + ·) start

/-- The 64-bit words of a list of 32-bit words, low halves first. -/
def joinHalves : List UInt32 → List UInt64
  | low :: high :: rest => (low.toUInt64 ||| (high.toUInt64 <<< 32)) :: joinHalves rest
  | _ => []

end Block

/-- A place in a random stream: the key, the number of the next block, and the words of the
current block that are not yet taken. -/
structure Generator where
  key : Vector UInt32 8
  number : UInt64
  pending : List UInt64
  deriving DecidableEq

namespace Generator

/-- One step of the expansion of a seed. -/
def seedStep (s : UInt64) : UInt64 := s * 6364136223846793005 + 11634580027462260723

/-- The key word of a state of the expansion. -/
def keyWord (s : UInt64) : UInt32 :=
  let x := (((s >>> 18) ^^^ s) >>> 27).toUInt32
  let k := (s >>> 59).toUInt32
  (x >>> k) ||| (x <<< ((32 - k) &&& 31))

/-- The key of a seed: eight steps of the expansion, one word each. -/
def expand (seed : UInt64) : Vector UInt32 8 :=
  let s0 := seedStep seed
  let s1 := seedStep s0
  let s2 := seedStep s1
  let s3 := seedStep s2
  let s4 := seedStep s3
  let s5 := seedStep s4
  let s6 := seedStep s5
  let s7 := seedStep s6
  #v[keyWord s0, keyWord s1, keyWord s2, keyWord s3, keyWord s4, keyWord s5, keyWord s6,
    keyWord s7]

def ofSeed (seed : UInt64) : Generator := ⟨expand seed, 0, []⟩

instance : Inhabited Generator := ⟨ofSeed 0⟩

/-- The next word of the stream and the generator after it. -/
def next (g : Generator) : UInt64 × Generator :=
  match g.pending with
  | w :: ws => (w, { g with pending := ws })
  | [] =>
    match Block.joinHalves (Block.output g.key g.number).toList with
    | w :: ws => (w, { g with number := g.number + 1, pending := ws })
    | [] => (0, { g with number := g.number + 1 })

end Generator

end PulseNoise.Sampling
