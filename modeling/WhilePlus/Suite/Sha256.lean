import WhilePlus.Text.Quoted

namespace WhilePlus.Sha256

/-- The constants of the rounds. -/
def roundConstants : List UInt32 :=
  [0x428a2f98, 0x71374491, 0xb5c0fbcf, 0xe9b5dba5, 0x3956c25b, 0x59f111f1, 0x923f82a4, 0xab1c5ed5,
    0xd807aa98, 0x12835b01, 0x243185be, 0x550c7dc3, 0x72be5d74, 0x80deb1fe, 0x9bdc06a7, 0xc19bf174,
    0xe49b69c1, 0xefbe4786, 0x0fc19dc6, 0x240ca1cc, 0x2de92c6f, 0x4a7484aa, 0x5cb0a9dc, 0x76f988da,
    0x983e5152, 0xa831c66d, 0xb00327c8, 0xbf597fc7, 0xc6e00bf3, 0xd5a79147, 0x06ca6351, 0x14292967,
    0x27b70a85, 0x2e1b2138, 0x4d2c6dfc, 0x53380d13, 0x650a7354, 0x766a0abb, 0x81c2c92e, 0x92722c85,
    0xa2bfe8a1, 0xa81a664b, 0xc24b8b70, 0xc76c51a3, 0xd192e819, 0xd6990624, 0xf40e3585, 0x106aa070,
    0x19a4c116, 0x1e376c08, 0x2748774c, 0x34b0bcb5, 0x391c0cb3, 0x4ed8aa4a, 0x5b9cca4f, 0x682e6ff3,
    0x748f82ee, 0x78a5636f, 0x84c87814, 0x8cc70208, 0x90befffa, 0xa4506ceb, 0xbef9a3f7, 0xc67178f2]

/-- The eight words between blocks. -/
structure Chain where
  a : UInt32
  b : UInt32
  c : UInt32
  d : UInt32
  e : UInt32
  f : UInt32
  g : UInt32
  h : UInt32
  deriving DecidableEq, Repr

/-- The words before the first block. -/
def start : Chain :=
  ⟨0x6a09e667, 0xbb67ae85, 0x3c6ef372, 0xa54ff53a, 0x510e527f, 0x9b05688c, 0x1f83d9ab, 0x5be0cd19⟩

/-- A word with its bits moved to the right, those that fall off coming in at
    the left. -/
def rotate (x : UInt32) (n : UInt32) : UInt32 :=
  (x >>> n) ||| (x <<< (32 - n))

/-- The sixty-four words of a block; the list so far has the last word first. -/
def schedule (words : List UInt32) : Nat → List UInt32
  | 0 => words
  | n + 1 =>
    let x := words.getD 14 0
    let y := words.getD 1 0
    let s := rotate x 7 ^^^ rotate x 18 ^^^ (x >>> 3)
    let t := rotate y 17 ^^^ rotate y 19 ^^^ (y >>> 10)
    schedule ((words.getD 15 0 + s + words.getD 6 0 + t) :: words) n

/-- One round. -/
def round (v : Chain) (constant word : UInt32) : Chain :=
  let s₁ := rotate v.e 6 ^^^ rotate v.e 11 ^^^ rotate v.e 25
  let choice := (v.e &&& v.f) ^^^ ((v.e ^^^ 0xffffffff) &&& v.g)
  let t₁ := v.h + s₁ + choice + constant + word
  let s₀ := rotate v.a 2 ^^^ rotate v.a 13 ^^^ rotate v.a 22
  let majority := (v.a &&& v.b) ^^^ (v.a &&& v.c) ^^^ (v.b &&& v.c)
  ⟨t₁ + s₀ + majority, v.a, v.b, v.c, v.d + t₁, v.e, v.f, v.g⟩

/-- The words of some bytes, four to a word. -/
def wordsOf : List UInt8 → List UInt32
  | a :: b :: c :: d :: rest =>
    ((a.toUInt32 <<< 24) ||| (b.toUInt32 <<< 16) ||| (c.toUInt32 <<< 8) ||| d.toUInt32) ::
      wordsOf rest
  | _ => []

/-- The words after one more block. -/
def compress (v : Chain) (block : List UInt8) : Chain :=
  let words := (schedule (wordsOf block).reverse 48).reverse
  let w := (roundConstants.zip words).foldl (fun v kw => round v kw.1 kw.2) v
  ⟨v.a + w.a, v.b + w.b, v.c + w.c, v.d + w.d, v.e + w.e, v.f + w.f, v.g + w.g, v.h + w.h⟩

/-- The big-endian bytes of a number. -/
def bytesOf (n : Nat) : Nat → List UInt8
  | 0 => []
  | count + 1 => (n / Nat.pow 256 count).toUInt8 :: bytesOf n count

/-- The message with what fills its last block: a one, zeros and its length in
    bits. -/
def pad (message : List UInt8) : List UInt8 :=
  let zeros := (119 - message.length % 64) % 64
  message ++ 0x80 :: (List.replicate zeros 0 ++ bytesOf (8 * message.length) 8)

/-- Compresses the blocks of a padded message. -/
def compressAll (v : Chain) : Nat → List UInt8 → Chain
  | 0, _ => v
  | count + 1, bytes => compressAll (compress v (bytes.take 64)) count (bytes.drop 64)

/-- The SHA-256 digest of a message, in hexadecimal digits. -/
def hexDigest (message : List UInt8) : String :=
  let padded := pad message
  let v := compressAll start (padded.length / 64) padded
  String.ofList ([v.a, v.b, v.c, v.d, v.e, v.f, v.g, v.h].flatMap fun x => Text.hex 8 x.toNat)

end WhilePlus.Sha256
