import SignedHttp.Text.Bytes

/-!
# SHA-2

The hash functions SHA-256 and SHA-512 over byte sequences. The two differ in the
width of a word, in their rotation amounts and in the number of rounds; the
construction is the same, so it is written once over a `Variant` and used twice.

The constants are the leading bits of the fractional parts of the square and cube
roots of the first primes. Those of the narrow variant are the upper halves of
those of the wide one, so only the wide tables are written out.

A message is padded with a one bit, zeros and its length to whole blocks
(`pad`), and the blocks are absorbed one after the other (`absorb`). A `Hasher` is
a running hash: it is fed parts, and closing it gives the digest of all parts and
starts it over.

## Main definitions

* `Sha2.Variant`: What tells the members of the family apart.
* `Sha2.digest`: The digest of a message under a variant.
* `Sha2.sha256`, `Sha2.sha512`: The two members.
* `Sha2.Algorithm`, `Sha2.Hasher`: A choice of member, and a running hash.
-/

namespace SignedHttp

namespace Sha2

/-- The value of a big-endian byte sequence. -/
def bigEndianValue (s : Bytes) : Nat := s.foldl (fun v b => 256 * v + b.toNat) 0

/-- The `n` low bytes of a number, most significant byte first. -/
def bigEndian : Nat → Nat → Bytes
  | 0, _ => []
  | n + 1, v => (v / Nat.pow 256 n).toUInt8 :: bigEndian n v

theorem length_bigEndian (n v : Nat) : (bigEndian n v).length = n := by
  induction n with
  | zero => rfl
  | succ n ih => simp [bigEndian, ih]

/-- The eight working words of a compression. -/
structure Registers (W : Type) where
  a : W
  b : W
  c : W
  d : W
  e : W
  f : W
  g : W
  h : W

/-- A member of the family: its words, its amounts of rotation and shift, its constants. -/
structure Variant (W : Type) where
  wordBytes : Nat
  ofNat : Nat → W
  toNat : W → Nat
  rotate : W → Nat → W
  shift : W → Nat → W
  constants : List W
  start : Registers W
  /-- The three rotations of each of the two sums over working words. -/
  sumA : Nat × Nat × Nat
  sumE : Nat × Nat × Nat
  /-- Two rotations and a shift for each of the two sums over schedule words. -/
  mixEarly : Nat × Nat × Nat
  mixLate : Nat × Nat × Nat

section Compression

variable {W : Type} [Add W] [XorOp W] [AndOp W] [Complement W]

/-- The sum of three rotations of a word. -/
def Variant.sum (v : Variant W) (r : Nat × Nat × Nat) (x : W) : W :=
  v.rotate x r.1 ^^^ v.rotate x r.2.1 ^^^ v.rotate x r.2.2

/-- The sum of two rotations and a shift of a word. -/
def Variant.mix (v : Variant W) (r : Nat × Nat × Nat) (x : W) : W :=
  v.rotate x r.1 ^^^ v.rotate x r.2.1 ^^^ v.shift x r.2.2

/-- The words of a block. -/
def Variant.words (v : Variant W) : Nat → Bytes → List W
  | 0, _ => []
  | n + 1, s =>
    v.ofNat (bigEndianValue (s.take v.wordBytes)) :: v.words n (s.drop v.wordBytes)

/-- The schedule word that follows a window of sixteen. -/
def Variant.nextWord (v : Variant W) (window : List W) : W :=
  let word (i : Nat) := window.getD i (v.ofNat 0)
  v.mix v.mixLate (word 14) + word 9 + v.mix v.mixEarly (word 1) + word 0

/-- One round, with a schedule word `w` and a constant `k`. -/
def Variant.round (v : Variant W) (s : Registers W) (w k : W) : Registers W :=
  -- `e` chooses between `f` and `g` bit by bit, and `a`, `b` and `c` vote.
  let choice := (s.e &&& s.f) ^^^ (~~~s.e &&& s.g)
  let majority := (s.a &&& s.b) ^^^ (s.a &&& s.c) ^^^ (s.b &&& s.c)
  let t := s.h + v.sum v.sumE s.e + choice + k + w
  { a := t + (v.sum v.sumA s.a + majority), b := s.a, c := s.b, d := s.c
    e := s.d + t, f := s.e, g := s.f, h := s.g }

/-- All rounds, the window of schedule words moving on with each constant. -/
def Variant.run (v : Variant W) : List W → List W → Registers W → Registers W
  | [], _, s => s
  | k :: ks, window, s =>
    v.run ks (window.tail ++ [v.nextWord window])
      (v.round s (window.headD (v.ofNat 0)) k)

/-- The words after a block is mixed into them. -/
def Variant.compress (v : Variant W) (s : Registers W) (block : Bytes) : Registers W :=
  let t := v.run v.constants (v.words 16 block) s
  { a := s.a + t.a, b := s.b + t.b, c := s.c + t.c, d := s.d + t.d
    e := s.e + t.e, f := s.f + t.f, g := s.g + t.g, h := s.h + t.h }

/-- The words after the first `n` blocks of a padded message. -/
def Variant.absorb (v : Variant W) : Nat → Registers W → Bytes → Registers W
  | 0, s, _ => s
  | n + 1, s, data =>
    v.absorb n (v.compress s (data.take (16 * v.wordBytes))) (data.drop (16 * v.wordBytes))

end Compression

/-- The message with a one bit, zeros and its length in bits, in whole blocks. -/
def pad (wordBytes : Nat) (message : Bytes) : Bytes :=
  let block := 16 * wordBytes
  -- The one bit takes a byte, and the length two words at the end of the last block.
  let used := message.length + 1 + 2 * wordBytes
  message ++ 0x80 :: List.replicate ((block - used % block) % block) 0
    ++ bigEndian (2 * wordBytes) (8 * message.length)

/-- The words of the registers as bytes. -/
def Variant.output {W : Type} (v : Variant W) (s : Registers W) : Bytes :=
  [s.a, s.b, s.c, s.d, s.e, s.f, s.g, s.h].flatMap fun w => bigEndian v.wordBytes (v.toNat w)

/-- The digest of a message. -/
def digest {W : Type} [Add W] [XorOp W] [AndOp W] [Complement W] (v : Variant W)
    (message : Bytes) : Bytes :=
  let padded := pad v.wordBytes message
  v.output (v.absorb (padded.length / (16 * v.wordBytes)) v.start padded)

/-- Leading bits of the fractional parts of the cube roots of the first eighty primes. -/
def cubeRoots : List UInt64 := [
    0x428a2f98d728ae22, 0x7137449123ef65cd, 0xb5c0fbcfec4d3b2f, 0xe9b5dba58189dbbc,
    0x3956c25bf348b538, 0x59f111f1b605d019, 0x923f82a4af194f9b, 0xab1c5ed5da6d8118,
    0xd807aa98a3030242, 0x12835b0145706fbe, 0x243185be4ee4b28c, 0x550c7dc3d5ffb4e2,
    0x72be5d74f27b896f, 0x80deb1fe3b1696b1, 0x9bdc06a725c71235, 0xc19bf174cf692694,
    0xe49b69c19ef14ad2, 0xefbe4786384f25e3, 0x0fc19dc68b8cd5b5, 0x240ca1cc77ac9c65,
    0x2de92c6f592b0275, 0x4a7484aa6ea6e483, 0x5cb0a9dcbd41fbd4, 0x76f988da831153b5,
    0x983e5152ee66dfab, 0xa831c66d2db43210, 0xb00327c898fb213f, 0xbf597fc7beef0ee4,
    0xc6e00bf33da88fc2, 0xd5a79147930aa725, 0x06ca6351e003826f, 0x142929670a0e6e70,
    0x27b70a8546d22ffc, 0x2e1b21385c26c926, 0x4d2c6dfc5ac42aed, 0x53380d139d95b3df,
    0x650a73548baf63de, 0x766a0abb3c77b2a8, 0x81c2c92e47edaee6, 0x92722c851482353b,
    0xa2bfe8a14cf10364, 0xa81a664bbc423001, 0xc24b8b70d0f89791, 0xc76c51a30654be30,
    0xd192e819d6ef5218, 0xd69906245565a910, 0xf40e35855771202a, 0x106aa07032bbd1b8,
    0x19a4c116b8d2d0c8, 0x1e376c085141ab53, 0x2748774cdf8eeb99, 0x34b0bcb5e19b48a8,
    0x391c0cb3c5c95a63, 0x4ed8aa4ae3418acb, 0x5b9cca4f7763e373, 0x682e6ff3d6b2b8a3,
    0x748f82ee5defb2fc, 0x78a5636f43172f60, 0x84c87814a1f0ab72, 0x8cc702081a6439ec,
    0x90befffa23631e28, 0xa4506cebde82bde9, 0xbef9a3f7b2c67915, 0xc67178f2e372532b,
    0xca273eceea26619c, 0xd186b8c721c0c207, 0xeada7dd6cde0eb1e, 0xf57d4f7fee6ed178,
    0x06f067aa72176fba, 0x0a637dc5a2c898a6, 0x113f9804bef90dae, 0x1b710b35131c471b,
    0x28db77f523047d84, 0x32caab7b40c72493, 0x3c9ebe0a15c9bebc, 0x431d67c49c100d4c,
    0x4cc5d4becb3e42b6, 0x597f299cfc657e2a, 0x5fcb6fab3ad6faec, 0x6c44198c4a475817]

/-- Leading bits of the fractional parts of the square roots of the first eight primes. -/
def squareRoots : Registers UInt64 :=
  { a := 0x6a09e667f3bcc908, b := 0xbb67ae8584caa73b, c := 0x3c6ef372fe94f82b
    d := 0xa54ff53a5f1d36f1, e := 0x510e527fade682d1, f := 0x9b05688c2b3e6c1f
    g := 0x1f83d9abfb41bd6b, h := 0x5be0cd19137e2179 }

/-- The upper half of a wide word. -/
def upperHalf (w : UInt64) : UInt32 := (w >>> 32).toUInt32

/-- The variant with words of 32 bits. -/
def narrow : Variant UInt32 :=
  { wordBytes := 4
    ofNat := Nat.toUInt32
    toNat := UInt32.toNat
    rotate := fun x n => x >>> n.toUInt32 ||| x <<< (32 - n).toUInt32
    shift := fun x n => x >>> n.toUInt32
    constants := (cubeRoots.take 64).map upperHalf
    start :=
      { a := upperHalf squareRoots.a, b := upperHalf squareRoots.b
        c := upperHalf squareRoots.c, d := upperHalf squareRoots.d
        e := upperHalf squareRoots.e, f := upperHalf squareRoots.f
        g := upperHalf squareRoots.g, h := upperHalf squareRoots.h }
    sumA := (2, 13, 22), sumE := (6, 11, 25)
    mixEarly := (7, 18, 3), mixLate := (17, 19, 10) }

/-- The variant with words of 64 bits. -/
def wide : Variant UInt64 :=
  { wordBytes := 8
    ofNat := Nat.toUInt64
    toNat := UInt64.toNat
    rotate := fun x n => x >>> n.toUInt64 ||| x <<< (64 - n).toUInt64
    shift := fun x n => x >>> n.toUInt64
    constants := cubeRoots
    start := squareRoots
    sumA := (28, 34, 39), sumE := (14, 18, 41)
    mixEarly := (1, 8, 7), mixLate := (19, 61, 6) }

/-- The SHA-256 digest of a message. -/
def sha256 (message : Bytes) : Bytes := digest narrow message

/-- The SHA-512 digest of a message. -/
def sha512 (message : Bytes) : Bytes := digest wide message

theorem length_sha256 (message : Bytes) : (sha256 message).length = 32 := by
  simp [sha256, digest, Variant.output, length_bigEndian, narrow]

theorem length_sha512 (message : Bytes) : (sha512 message).length = 64 := by
  simp [sha512, digest, Variant.output, length_bigEndian, wide]

/-- A member of the family by name. -/
inductive Algorithm
  | sha256
  | sha512
  deriving DecidableEq, Repr

/-- The digest of a message under the chosen member. -/
def Algorithm.digest : Algorithm → Bytes → Bytes
  | .sha256 => Sha2.sha256
  | .sha512 => Sha2.sha512

/-- The number of bytes of a digest. -/
def Algorithm.size : Algorithm → Nat
  | .sha256 => 32
  | .sha512 => 64

theorem Algorithm.length_digest (a : Algorithm) (message : Bytes) :
    (a.digest message).length = a.size := by
  cases a
  · exact length_sha256 message
  · exact length_sha512 message

/-- A running hash: the member and the bytes it was fed since it was last closed. -/
structure Hasher where
  algorithm : Algorithm
  pending : Bytes := []

namespace Hasher

/-- Feed one more part. -/
def update (h : Hasher) (part : Bytes) : Hasher := { h with pending := h.pending ++ part }

/-- The digest of the parts fed so far, and the hash started over. -/
def close (h : Hasher) : Bytes × Hasher :=
  (h.algorithm.digest h.pending, { h with pending := [] })

end Hasher

end Sha2

end SignedHttp
