/-
# Content digests

The SHA-256 digest of a text, and the version of a file that is read off it.
-/
import BarrelSynthesis.Disk.FileSystem

namespace BarrelSynthesis.Digest

/-- The first 32 bits of the fractional parts of the square roots of the first eight primes. -/
def initial : List UInt32 :=
  [0x6a09e667, 0xbb67ae85, 0x3c6ef372, 0xa54ff53a, 0x510e527f, 0x9b05688c, 0x1f83d9ab, 0x5be0cd19]

/-- The first 32 bits of the fractional parts of the cube roots of the first 64 primes. -/
def roundConstants : List UInt32 :=
  [0x428a2f98, 0x71374491, 0xb5c0fbcf, 0xe9b5dba5, 0x3956c25b, 0x59f111f1, 0x923f82a4, 0xab1c5ed5,
   0xd807aa98, 0x12835b01, 0x243185be, 0x550c7dc3, 0x72be5d74, 0x80deb1fe, 0x9bdc06a7, 0xc19bf174,
   0xe49b69c1, 0xefbe4786, 0x0fc19dc6, 0x240ca1cc, 0x2de92c6f, 0x4a7484aa, 0x5cb0a9dc, 0x76f988da,
   0x983e5152, 0xa831c66d, 0xb00327c8, 0xbf597fc7, 0xc6e00bf3, 0xd5a79147, 0x06ca6351, 0x14292967,
   0x27b70a85, 0x2e1b2138, 0x4d2c6dfc, 0x53380d13, 0x650a7354, 0x766a0abb, 0x81c2c92e, 0x92722c85,
   0xa2bfe8a1, 0xa81a664b, 0xc24b8b70, 0xc76c51a3, 0xd192e819, 0xd6990624, 0xf40e3585, 0x106aa070,
   0x19a4c116, 0x1e376c08, 0x2748774c, 0x34b0bcb5, 0x391c0cb3, 0x4ed8aa4a, 0x5b9cca4f, 0x682e6ff3,
   0x748f82ee, 0x78a5636f, 0x84c87814, 0x8cc70208, 0x90befffa, 0xa4506ceb, 0xbef9a3f7, 0xc67178f2]

/-- Rotates a word to the right. -/
def rotate (word : UInt32) (distance : UInt32) : UInt32 :=
  (word >>> distance) ||| (word <<< (32 - distance))

/-- The bytes of a number, the highest first. -/
def bytesOf (count n : Nat) : List UInt8 :=
  (List.range count).reverse.map fun i => UInt8.ofNat (n / Nat.pow 256 i % 256)

/-- A message filled up to whole blocks of 64 bytes, with its length in bits at the end. -/
def pad (message : List UInt8) : List UInt8 :=
  let length := message.length
  let zeros := (119 - length % 64) % 64
  message ++ 0x80 :: List.replicate zeros 0 ++ bytesOf 8 (8 * length)

/-- Reads words of four bytes. -/
def wordsOf : List UInt8 → List UInt32
  | a :: b :: c :: d :: rest =>
    ((a.toUInt32 <<< 24) ||| (b.toUInt32 <<< 16) ||| (c.toUInt32 <<< 8) ||| d.toUInt32)
      :: wordsOf rest
  | _ => []

/-- The word of the schedule that follows some earlier ones. -/
def nextWord (schedule : Array UInt32) : UInt32 :=
  let back := fun n => schedule.getD (schedule.size - n) 0
  let a := back 15
  let b := back 2
  let low := rotate a 7 ^^^ rotate a 18 ^^^ (a >>> 3)
  let high := rotate b 17 ^^^ rotate b 19 ^^^ (b >>> 10)
  back 16 + low + back 7 + high

/-- Extends the words of a block by a number of further ones. -/
def extend : Nat → Array UInt32 → Array UInt32
  | 0, schedule => schedule
  | n + 1, schedule => extend n (schedule.push (nextWord schedule))

/-- The eight words a block is mixed into. -/
structure Mixer where
  a : UInt32
  b : UInt32
  c : UInt32
  d : UInt32
  e : UInt32
  f : UInt32
  g : UInt32
  h : UInt32

/-- The words of a mixer. -/
def Mixer.words (m : Mixer) : List UInt32 :=
  [m.a, m.b, m.c, m.d, m.e, m.f, m.g, m.h]

/-- The mixer with given words; missing ones are zero. -/
def Mixer.ofWords : List UInt32 → Mixer
  | [a, b, c, d, e, f, g, h] => ⟨a, b, c, d, e, f, g, h⟩
  | _ => ⟨0, 0, 0, 0, 0, 0, 0, 0⟩

/-- Mixes one word of the schedule in. -/
def Mixer.round (m : Mixer) (word constant : UInt32) : Mixer :=
  let s1 := rotate m.e 6 ^^^ rotate m.e 11 ^^^ rotate m.e 25
  let choice := (m.e &&& m.f) ^^^ (~~~m.e &&& m.g)
  let t1 := m.h + s1 + choice + constant + word
  let s0 := rotate m.a 2 ^^^ rotate m.a 13 ^^^ rotate m.a 22
  let majority := (m.a &&& m.b) ^^^ (m.a &&& m.c) ^^^ (m.b &&& m.c)
  ⟨t1 + s0 + majority, m.a, m.b, m.c, m.d + t1, m.e, m.f, m.g⟩

/-- Mixes one block in. -/
def compress (digest block : List UInt32) : List UInt32 :=
  let schedule := (extend 48 block.toArray).toList
  let mixed := (schedule.zip roundConstants).foldl
    (fun m (word, constant) => m.round word constant) (Mixer.ofWords digest)
  digest.zipWith (· + ·) mixed.words

/-- Mixes a number of blocks of 16 words in. -/
def compressBlocks : Nat → List UInt32 → List UInt32 → List UInt32
  | 0, digest, _ => digest
  | n + 1, digest, words => compressBlocks n (compress digest (words.take 16)) (words.drop 16)

/-- The digits of a byte in lower-case hexadecimal. -/
def hexByte (byte : UInt8) : List Char :=
  [Nat.digitChar (byte.toNat / 16), Nat.digitChar (byte.toNat % 16)]

/-- The SHA-256 digest of a message. -/
def sha256 (message : List UInt8) : List UInt8 :=
  let words := wordsOf (pad message)
  (compressBlocks (words.length / 16) initial words).flatMap fun word => bytesOf 4 word.toNat

/-- The SHA-256 digest of a text in hexadecimal. -/
def ofText (text : String) : String :=
  String.ofList ((sha256 text.toUTF8.toList).flatMap hexByte)

/-- The version of a file that cannot be read. -/
def missingVersion : String := "missing"

/-- The version of a file: the one its project tracks, or the digest of its text. -/
def fileVersion (host : FileSystem) (scriptVersion : Option String) (path : Path) : String :=
  scriptVersion.getD <|
    match host.fileText path with
    | some text => "sha256:" ++ ofText text
    | none => missingVersion

end BarrelSynthesis.Digest
