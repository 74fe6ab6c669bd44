/-!
# SHA3-256

The hash function of FIPS 202 with a digest of 32 bytes: a sponge over the permutation
Keccak-f[1600], whose state is a five by five array of 64-bit lanes.
-/

namespace HookSplice.Digest

/-- The state: lane `x + 5 * y` stands in column `x` of plane `y`. -/
abbrev Lanes := Vector UInt64 25

/-- The lane at an index, counted modulo 25. -/
def lane (s : Lanes) (i : Nat) : UInt64 :=
  s.get (Fin.ofNat 25 i)

/-- The state whose lanes a function gives. -/
def lanesOf (f : Nat → UInt64) : Lanes :=
  Vector.ofFn fun i => f i.val

/-- A lane turned left by `n` bits, `n` below 64. -/
def turnLeft (x : UInt64) (n : UInt64) : UInt64 :=
  (x <<< n) ||| (x >>> (64 - n))

/-- By how many bits the step ρ turns each lane. -/
def turns : Vector UInt64 25 :=
  #v[0, 1, 62, 28, 27, 36, 44, 6, 55, 20, 3, 10, 43, 25, 39, 41, 45, 15, 21, 8, 18, 2, 61, 56, 14]

/-- What the step ι adds to the first lane, round by round. -/
def roundConstants : List UInt64 :=
  [0x0000000000000001, 0x0000000000008082, 0x800000000000808A, 0x8000000080008000,
   0x000000000000808B, 0x0000000080000001, 0x8000000080008081, 0x8000000000008009,
   0x000000000000008A, 0x0000000000000088, 0x0000000080008009, 0x000000008000000A,
   0x000000008000808B, 0x800000000000008B, 0x8000000000008089, 0x8000000000008003,
   0x8000000000008002, 0x8000000000000080, 0x000000000000800A, 0x800000008000000A,
   0x8000000080008081, 0x8000000000008080, 0x0000000080000001, 0x8000000080008008]

/-- The step θ: each lane is added to the parities of two neighbouring columns. -/
def mixColumns (s : Lanes) : Lanes :=
  let parity : Vector UInt64 5 := Vector.ofFn fun x =>
    lane s x ^^^ lane s (x + 5) ^^^ lane s (x + 10) ^^^ lane s (x + 15) ^^^ lane s (x + 20)
  let column (x : Nat) : UInt64 := parity.get (Fin.ofNat 5 x)
  let change : Vector UInt64 5 := Vector.ofFn fun x =>
    column (x.val + 4) ^^^ turnLeft (column (x.val + 1)) 1
  lanesOf fun i => lane s i ^^^ change.get (Fin.ofNat 5 i)

/-- The steps ρ and π: the lane of column `x + 3 * y` and plane `x` is turned and comes to column
    `x` of plane `y`. -/
def moveLanes (s : Lanes) : Lanes :=
  lanesOf fun i =>
    let source := (i % 5 + 3 * (i / 5)) % 5 + 5 * (i % 5)
    turnLeft (lane s source) (lane turns source)

/-- The step χ: each lane is combined with the two after it in its plane. -/
def mixPlanes (s : Lanes) : Lanes :=
  lanesOf fun i =>
    let plane := 5 * (i / 5)
    lane s i ^^^ (~~~(lane s ((i + 1) % 5 + plane)) &&& lane s ((i + 2) % 5 + plane))

/-- One round, whose constant is `c`. -/
def round (s : Lanes) (c : UInt64) : Lanes :=
  let mixed := mixPlanes (moveLanes (mixColumns s))
  lanesOf fun i => if i = 0 then lane mixed 0 ^^^ c else lane mixed i

/-- The permutation: all 24 rounds. -/
def permute (s : Lanes) : Lanes :=
  roundConstants.foldl round s

/-- How many bytes the sponge takes in at a time. -/
def rate : Nat := 136

/-- The number that a list of bytes denotes, least significant byte first. -/
def ofBytes (bytes : List UInt8) : UInt64 :=
  bytes.foldr (fun b n => (n <<< 8) ||| b.toUInt64) 0

/-- The bytes of a lane, least significant first. -/
def toBytes (x : UInt64) : List UInt8 :=
  (List.range 8).map fun i => (x >>> (8 * UInt64.ofNat i)).toUInt8

/-- The bytes that pad a message of the given length to a multiple of the rate. -/
def padding (length : Nat) : List UInt8 :=
  let missing := rate - length % rate
  if missing = 1 then [0x86] else 0x06 :: (List.replicate (missing - 2) 0 ++ [0x80])

/-- The state after a block has been taken in. -/
def absorb (s : Lanes) (block : List UInt8) : Lanes :=
  let words : List UInt64 :=
    (List.range (rate / 8)).map fun i => ofBytes ((block.drop (8 * i)).take 8)
  permute (lanesOf fun i => lane s i ^^^ words.getD i 0)

/-- The SHA3-256 digest of a message. -/
def sha3 (message : List UInt8) : List UInt8 :=
  let padded := message ++ padding message.length
  let blocks := (List.range (padded.length / rate)).map fun k =>
    (padded.drop (rate * k)).take rate
  let final := blocks.foldl absorb (lanesOf fun _ => 0)
  (List.range 4).flatMap fun i => toBytes (lane final i)

end HookSplice.Digest
