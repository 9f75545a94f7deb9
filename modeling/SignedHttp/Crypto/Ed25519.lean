import SignedHttp.Crypto.Octets
import SignedHttp.Crypto.Sha2

/-!
# Ed25519

The signature scheme over the twisted Edwards curve `-x² + y² = 1 + d·x²·y²` in
the field of `2²⁵⁵ - 19` elements. Field elements are natural numbers below the
modulus, and points are kept in extended coordinates, in which one complete
addition law covers every case, doubling and the neutral point included. So
nothing here branches on the shape of a point, and scalar multiplication is a
fold over the bits of the scalar.

Encoded points and scalars are little-endian. A verifier accepts a signature
`(R, S)` of a message under a key `A` if `A` decodes to a point, `S` is below the
group order, and `S·B - k·A` encodes to `R`, where `k` is the hash of `R`, `A` and
the message.

## Main definitions

* `Ed25519.Point`: A point in extended coordinates.
* `Ed25519.Point.add`, `Ed25519.Point.smul`: The group law.
* `Ed25519.Point.encode`, `Ed25519.Point.decode?`: Points as 32 bytes.
* `Ed25519.publicKey`, `Ed25519.sign`, `Ed25519.verify`: The scheme.
-/

namespace SignedHttp

namespace Ed25519

/-- The modulus of the field. -/
def modulus : Nat := Nat.pow 2 255 - 19

/-- The order of the base point. -/
def order : Nat := Nat.pow 2 252 + 27742317777372353535851937790883648493

/-- The lowest `n` bits of a number, the highest of them first. -/
def bits (n v : Nat) : List Bool := (List.range n).reverse.map v.testBit

namespace Residue

def add (x y : Nat) : Nat := (x + y) % modulus

def sub (x y : Nat) : Nat := (x + (modulus - y)) % modulus

def mul (x y : Nat) : Nat := x * y % modulus

/-- Powers with exponents below `2²⁵⁶`. -/
def pow (x e : Nat) : Nat :=
  (bits 256 e).foldl (fun r b => let s := mul r r; if b then mul s x else s) 1

/-- The inverse, and zero for zero. -/
def inv (x : Nat) : Nat := pow x (modulus - 2)

/-- A square root of minus one. -/
def rootOfMinusOne : Nat := pow 2 ((modulus - 1) / 4)

/-- A square root of `u / v`, if there is one. -/
def sqrtRatio? (u v : Nat) : Option Nat :=
  -- The root of a quotient as a single power, without an inversion.
  let v3 := mul (mul v v) v
  let v7 := mul (mul v3 v3) v
  let r := mul (mul u v3) (pow (mul u v7) ((modulus - 5) / 8))
  -- If `u / v` is a square, then this is `u` or its negative.
  let check := mul v (mul r r)
  if check = u then some r
  else if check = sub 0 u then some (mul r rootOfMinusOne)
  else none

end Residue

open Residue

/-- The coefficient `d` of the curve. -/
def coefficient : Nat := mul (sub 0 121665) (inv 121666)

/-- A point `(x / z, y / z)` with `x·y = z·t`. -/
structure Point where
  x : Nat
  y : Nat
  z : Nat
  t : Nat

namespace Point

/-- The neutral point. -/
def zero : Point := ⟨0, 1, 1, 0⟩

/-- The sum of two points. -/
def add (p q : Point) : Point :=
  let a := mul (sub p.y p.x) (sub q.y q.x)
  let b := mul (Residue.add p.y p.x) (Residue.add q.y q.x)
  let c := mul (mul (mul 2 coefficient) p.t) q.t
  let d := mul (mul 2 p.z) q.z
  let e := sub b a
  let f := sub d c
  let g := Residue.add d c
  let h := Residue.add b a
  ⟨mul e f, mul g h, mul f g, mul e h⟩

/-- The opposite point. -/
def neg (p : Point) : Point := { p with x := sub 0 p.x, t := sub 0 p.t }

/-- A multiple of a point, the factor below `2²⁵⁶`. -/
def smul (n : Nat) (p : Point) : Point :=
  (bits 256 n).foldl (fun q b => let r := q.add q; if b then r.add p else r) zero

end Point

/-- The value of a little-endian byte sequence. -/
def littleEndianValue (s : Bytes) : Nat := s.foldr (fun b v => b.toNat + 256 * v) 0

/-- The `n` low bytes of a number, least significant byte first. -/
def littleEndian : Nat → Nat → Bytes
  | 0, _ => []
  | n + 1, v => v.toUInt8 :: littleEndian n (v / 256)

theorem length_littleEndian (n v : Nat) : (littleEndian n v).length = n := by
  induction n generalizing v with
  | zero => rfl
  | succ n ih => simp [littleEndian, ih]

namespace Point

/-- The 32 bytes of a point: `y`, and the parity of `x` in the highest bit. -/
def encode (p : Point) : Octets 32 :=
  -- Back to affine coordinates, in which a point has one form only.
  let w := inv p.z
  let x := mul p.x w
  let y := mul p.y w
  ⟨littleEndian 32 (y + x % 2 * Nat.pow 2 255), length_littleEndian ..⟩

/-- The point that 32 bytes stand for, if they stand for one. -/
def decode? (o : Octets 32) : Option Point :=
  let v := littleEndianValue o.bytes
  let parity := v / Nat.pow 2 255
  let y := v % Nat.pow 2 255
  let y2 := mul y y
  if modulus ≤ y then none
  else
    match sqrtRatio? (sub y2 1) (Residue.add (mul coefficient y2) 1) with
    | none => none
    | some r =>
      let x := if r % 2 = parity then r else sub 0 r
      -- Zero is its own negative and even, so no point has it with an odd parity.
      if x = 0 ∧ parity = 1 then none else some ⟨x, y, 1, mul x y⟩

/-- The base point: `y` is four fifths, and `x` is even. -/
def base : Point :=
  let y := mul 4 (inv 5)
  let y2 := mul y y
  let r := (sqrtRatio? (sub y2 1) (Residue.add (mul coefficient y2) 1)).getD 0
  let x := if r % 2 = 0 then r else sub 0 r
  ⟨x, y, 1, mul x y⟩

end Point

/-- The secret scalar and the nonce seed of a private key. -/
def expand (key : PrivateKey) : Nat × Bytes :=
  let h := Sha2.sha512 key.bytes
  let v := littleEndianValue (h.take 32)
  -- A multiple of the cofactor, with its highest bit in a fixed place.
  (v % Nat.pow 2 254 / 8 * 8 + Nat.pow 2 254, h.drop 32)

/-- The hash of some parts, as a scalar. -/
def hashScalar (parts : List Bytes) : Nat := littleEndianValue (Sha2.sha512 parts.flatten) % order

/-- The public key of a private key. -/
def publicKey (key : PrivateKey) : PublicKey := (Point.smul (expand key).1 Point.base).encode

/-- The signature of a message. -/
def sign (key : PrivateKey) (message : Bytes) : RawSignature :=
  let (scalar, seed) := expand key
  let nonce := hashScalar [seed, message]
  let commitment := (Point.smul nonce Point.base).encode
  let k := hashScalar [commitment.bytes, (publicKey key).bytes, message]
  ⟨commitment.bytes ++ littleEndian 32 ((nonce + k * scalar) % order), by
    simp [commitment.length_eq, length_littleEndian]⟩

/-- Is this the signature of the message under the key? -/
def verify (key : PublicKey) (message : Bytes) (signature : RawSignature) : Bool :=
  let commitment := signature.bytes.take 32
  let s := littleEndianValue (signature.bytes.drop 32)
  match Point.decode? key with
  | none => false
  | some a =>
    let k := hashScalar [commitment, key.bytes, message]
    -- Without the bound, `s` and `s + order` would both be accepted.
    decide (s < order)
      && ((Point.smul s Point.base).add (Point.smul k a).neg).encode.bytes == commitment

end Ed25519

end SignedHttp
