import ApiPages.Text.Bytes
import ApiPages.Text.Quoted

/-!
# SHA-256

The digest by which archived contents are addressed.

* `Digest.padded` fills a message up to whole blocks of 64 bytes;
* `Digest.compress` mixes one block into the eight working words;
* `Digest.ofBytes` is the digest of bytes as 64 hexadecimal digits.
-/

namespace ApiPages
namespace Digest

/-! ## Constants -/

/-- The first 32 bits of the fractional parts of the square roots of the first eight primes. -/
def initial : List UInt32 :=
  [0x6a09e667, 0xbb67ae85, 0x3c6ef372, 0xa54ff53a, 0x510e527f, 0x9b05688c, 0x1f83d9ab, 0x5be0cd19]

/-- The first 32 bits of the fractional parts of the cube roots of the first 64 primes. -/
def roundConstants : List UInt32 :=
  [0x428a2f98, 0x71374491, 0xb5c0fbcf, 0xe9b5dba5, 0x3956c25b, 0x59f111f1, 0x923f82a4, 0xab1c5ed5,
   0xd807aa98, 0x12835b01, 0x243185be, 0x550c7dc3, 0x72be5d74, 0x80deb1fe, 0x9bdc06a7, 0xc19bf174,
   0xe49b69c1, 0xefbe4786, 0x0fc19dc6, 0x240ca1cc, 0x2de92c6f, 0x4a7484aa, 0x5cb0a9dc, 0x76f988da,
   0x983e5152, 0xa831c66d, 0xb00327c8, 0xbf597fc7, 0xc6e00bf3, 0xd5a79147, 0x06ca6351, 0x14292967,
   0x27b70a85, 0x2e1b2138, 0x4d2c6dfc, 0x53380d13, 0x650a7354, 0x766a0abb, 0x81c2c92e, 0x92722c85,
   0xa2bfe8a1, 0xa81a664b, 0xc24b8b70, 0xc76c51a3, 0xd192e819, 0xd6990624, 0xf40e3585, 0x106aa070,
   0x19a4c116, 0x1e376c08, 0x2748774c, 0x34b0bcb5, 0x391c0cb3, 0x4ed8aa4a, 0x5b9cca4f, 0x682e6ff3,
   0x748f82ee, 0x78a5636f, 0x84c87814, 0x8cc70208, 0x90befffa, 0xa4506ceb, 0xbef9a3f7, 0xc67178f2]

/-! ## Words -/

def rotate (x : UInt32) (n : UInt32) : UInt32 := (x >>> n) ||| (x <<< (32 - n))

def word (a b c d : UInt8) : UInt32 :=
  (a.toUInt32 <<< 24) ||| (b.toUInt32 <<< 16) ||| (c.toUInt32 <<< 8) ||| d.toUInt32

def words : Bytes → List UInt32
  | a :: b :: c :: d :: rest => word a b c d :: words rest
  | _ => []

/-! ## Blocks -/

/-- A message with its padding: a one bit, zeros, and the length in bits. -/
def padded (bytes : Bytes) : Bytes :=
  let n := bytes.length
  let zeros := (119 - n % 64) % 64
  let size := (List.range 8).map fun i => UInt8.ofNat ((n * 8) >>> (8 * (7 - i)))
  bytes ++ 0x80 :: List.replicate zeros 0 ++ size

/-- The next word of the schedule, from the sixteen before it, latest first. -/
def nextWord (latest : List UInt32) : UInt32 :=
  let at? (i : Nat) := latest.getD i 0
  let x := at? 14
  let y := at? 1
  at? 15 + (rotate x 7 ^^^ rotate x 18 ^^^ (x >>> 3)) + at? 6 +
    (rotate y 17 ^^^ rotate y 19 ^^^ (y >>> 10))

/-- The schedule of a block, latest word first. -/
def extend : Nat → List UInt32 → List UInt32
  | 0, ws => ws
  | n + 1, ws => extend n (nextWord ws :: ws)

def schedule (block : List UInt32) : List UInt32 :=
  (extend 48 block.reverse).reverse

/-- One round on the eight working words. -/
def round (state : List UInt32) (input : UInt32 × UInt32) : List UInt32 :=
  match state with
  | [a, b, c, d, e, f, g, h] =>
      let t := h + (rotate e 6 ^^^ rotate e 11 ^^^ rotate e 25) + ((e &&& f) ^^^ (~~~e &&& g)) +
        input.1 + input.2
      let u :=
        (rotate a 2 ^^^ rotate a 13 ^^^ rotate a 22) + ((a &&& b) ^^^ (a &&& c) ^^^ (b &&& c))
      [t + u, a, b, c, d + t, e, f, g]
  | other => other

def compress (state : List UInt32) (block : List UInt32) : List UInt32 :=
  let mixed := (roundConstants.zip (schedule block)).foldl round state
  List.zipWith (· + ·) state mixed

/-- Mixes in a row of words, sixteen at a time. -/
def absorb : Nat → List UInt32 → List UInt32 → List UInt32
  | 0, state, _ => state
  | n + 1, state, ws => absorb n (compress state (ws.take 16)) (ws.drop 16)

/-! ## Digests -/

def digestWords (bytes : Bytes) : List UInt32 :=
  let ws := words (padded bytes)
  absorb (ws.length / 16) initial ws

def hex (w : UInt32) : List Char := Text.hexDigits 8 w.toNat

def ofBytes (bytes : Bytes) : String :=
  String.ofList ((digestWords bytes).flatMap hex)

/-- Whether a text has the form of a digest. -/
def isValid (s : String) : Bool :=
  s.length == 64 && s.toList.all fun c => c.isDigit || ('a' ≤ c && c ≤ 'f')

end Digest
end ApiPages
