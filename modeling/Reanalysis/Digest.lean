/-
Content hashes: XXH3 with 128 bits, seed zero and the default secret. Short
inputs are mixed directly, in five ranges of length; longer ones go through
eight accumulators, stripe by stripe.
-/

namespace Reanalysis

structure Digest where
  low : UInt64
  high : UInt64
deriving DecidableEq, Repr

namespace Digest

private def byteAt (bytes : Array UInt8) (position : Nat) : UInt64 :=
  (bytes.getD position 0).toUInt64

private def word32 (bytes : Array UInt8) (position : Nat) : UInt64 :=
  byteAt bytes position ||| byteAt bytes (position + 1) <<< 8 |||
    byteAt bytes (position + 2) <<< 16 ||| byteAt bytes (position + 3) <<< 24

private def word64 (bytes : Array UInt8) (position : Nat) : UInt64 :=
  word32 bytes position ||| word32 bytes (position + 4) <<< 32

private def lowHalf (word : UInt64) : UInt64 := word &&& 0xFFFFFFFF

private def byteOf (word : UInt64) (place : Nat) : UInt64 :=
  UInt64.ofNat (word.toNat / Nat.pow 2 (8 * place) % 256)

private def swap32 (word : UInt64) : UInt64 :=
  byteOf word 0 <<< 24 ||| byteOf word 1 <<< 16 ||| byteOf word 2 <<< 8 ||| byteOf word 3

private def swap64 (word : UInt64) : UInt64 :=
  swap32 (lowHalf word) <<< 32 ||| swap32 (word >>> 32)

private def product (left right : UInt64) : Digest :=
  let full := left.toNat * right.toNat
  ⟨UInt64.ofNat full, UInt64.ofNat (full / Nat.pow 2 64)⟩

private def foldedProduct (left right : UInt64) : UInt64 :=
  let full := product left right
  full.low ^^^ full.high

private def prime32A : UInt64 := 0x9E3779B1
private def prime32B : UInt64 := 0x85EBCA77
private def prime32C : UInt64 := 0xC2B2AE3D
private def prime64A : UInt64 := 0x9E3779B185EBCA87
private def prime64B : UInt64 := 0xC2B2AE3D27D4EB4F
private def prime64C : UInt64 := 0x165667B19E3779F9
private def prime64D : UInt64 := 0x85EBCA77C2B2AE63
private def prime64E : UInt64 := 0x27D4EB2F165667C5

private def secret : Array UInt8 := #[
  0xb8, 0xfe, 0x6c, 0x39, 0x23, 0xa4, 0x4b, 0xbe, 0x7c, 0x01, 0x81, 0x2c, 0xf7, 0x21, 0xad, 0x1c,
  0xde, 0xd4, 0x6d, 0xe9, 0x83, 0x90, 0x97, 0xdb, 0x72, 0x40, 0xa4, 0xa4, 0xb7, 0xb3, 0x67, 0x1f,
  0xcb, 0x79, 0xe6, 0x4e, 0xcc, 0xc0, 0xe5, 0x78, 0x82, 0x5a, 0xd0, 0x7d, 0xcc, 0xff, 0x72, 0x21,
  0xb8, 0x08, 0x46, 0x74, 0xf7, 0x43, 0x24, 0x8e, 0xe0, 0x35, 0x90, 0xe6, 0x81, 0x3a, 0x26, 0x4c,
  0x3c, 0x28, 0x52, 0xbb, 0x91, 0xc3, 0x00, 0xcb, 0x88, 0xd0, 0x65, 0x8b, 0x1b, 0x53, 0x2e, 0xa3,
  0x71, 0x64, 0x48, 0x97, 0xa2, 0x0d, 0xf9, 0x4e, 0x38, 0x19, 0xef, 0x46, 0xa9, 0xde, 0xac, 0xd8,
  0xa8, 0xfa, 0x76, 0x3f, 0xe3, 0x9c, 0x34, 0x3f, 0xf9, 0xdc, 0xbb, 0xc7, 0xc7, 0x0b, 0x4f, 0x1d,
  0x8a, 0x51, 0xe0, 0x4b, 0xcd, 0xb4, 0x59, 0x31, 0xc8, 0x9f, 0x7e, 0xc9, 0xd9, 0x78, 0x73, 0x64,
  0xea, 0xc5, 0xac, 0x83, 0x34, 0xd3, 0xeb, 0xc3, 0xc5, 0x81, 0xa0, 0xff, 0xfa, 0x13, 0x63, 0xeb,
  0x17, 0x0d, 0xdd, 0x51, 0xb7, 0xf0, 0xda, 0x49, 0xd3, 0x16, 0x55, 0x26, 0x29, 0xd4, 0x68, 0x9e,
  0x2b, 0x16, 0xbe, 0x58, 0x7d, 0x47, 0xa1, 0xfc, 0x8f, 0xf8, 0xb8, 0xd1, 0x7a, 0xd0, 0x31, 0xce,
  0x45, 0xcb, 0x3a, 0x8f, 0x95, 0x16, 0x04, 0x28, 0xaf, 0xd7, 0xfb, 0xca, 0xbb, 0x4b, 0x40, 0x7e]

private def key (position : Nat) : UInt64 := word64 secret position

private def scatter (word : UInt64) : UInt64 :=
  let first := (word ^^^ word >>> 37) * 0x165667919E3779F9
  first ^^^ first >>> 32

private def scatterShort (word : UInt64) : UInt64 :=
  let first := (word ^^^ word >>> 33) * prime64B
  let second := (first ^^^ first >>> 29) * prime64C
  second ^^^ second >>> 32

private def ofNone : Digest := ⟨scatterShort (key 64 ^^^ key 72), scatterShort (key 80 ^^^ key 88)⟩

private def upToThree (bytes : Array UInt8) : Digest :=
  let size := bytes.size
  let joined := byteAt bytes 0 <<< 16 ||| byteAt bytes (size / 2) <<< 24 |||
    byteAt bytes (size - 1) ||| UInt64.ofNat size <<< 8
  let swapped := swap32 joined
  let turned := lowHalf (swapped <<< 13 ||| swapped >>> 19)
  ⟨scatterShort (joined ^^^ (word32 secret 0 ^^^ word32 secret 4)),
    scatterShort (turned ^^^ (word32 secret 8 ^^^ word32 secret 12))⟩

private def upToEight (bytes : Array UInt8) : Digest :=
  let size := bytes.size
  let joined := word32 bytes 0 + word32 bytes (size - 4) <<< 32
  let keyed := joined ^^^ (key 16 ^^^ key 24)
  let full := product keyed (prime64A + UInt64.ofNat size <<< 2)
  let high := full.high + full.low <<< 1
  let first := full.low ^^^ high >>> 3
  let second := (first ^^^ first >>> 35) * 0x9FB21C651E98DF25
  ⟨second ^^^ second >>> 28, scatter high⟩

private def upToSixteen (bytes : Array UInt8) : Digest :=
  let size := bytes.size
  let front := word64 bytes 0
  let back := word64 bytes (size - 8)
  let full := product (front ^^^ back ^^^ (key 32 ^^^ key 40)) prime64A
  let low := full.low + UInt64.ofNat (size - 1) <<< 54
  let keyed := back ^^^ (key 48 ^^^ key 56)
  let high := full.high + keyed + lowHalf keyed * (prime32B - 1)
  let last := product (low ^^^ swap64 high) prime64B
  ⟨scatter last.low, scatter (last.high + high * prime64B)⟩

/-! ### Up to 240 bytes -/

private def mixSixteen (bytes : Array UInt8) (position secretAt : Nat) : UInt64 :=
  foldedProduct (word64 bytes position ^^^ key secretAt)
    (word64 bytes (position + 8) ^^^ key (secretAt + 8))

private def mixPair (bytes : Array UInt8) (state : Digest) (first second secretAt : Nat) :
    Digest :=
  ⟨(state.low + mixSixteen bytes first secretAt) ^^^
      (word64 bytes second + word64 bytes (second + 8)),
    (state.high + mixSixteen bytes second (secretAt + 16)) ^^^
      (word64 bytes first + word64 bytes (first + 8))⟩

private def finishMiddle (size : Nat) (state : Digest) : Digest :=
  ⟨scatter (state.low + state.high),
    0 - scatter (state.low * prime64A + state.high * prime64D + UInt64.ofNat size * prime64B)⟩

private def start (size : Nat) : Digest := ⟨UInt64.ofNat size * prime64A, 0⟩

private def upTo128 (bytes : Array UInt8) : Digest :=
  let size := bytes.size
  let pairs := (size - 1) / 32
  let mixed := (List.range (pairs + 1)).reverse.foldl
    (fun state pair => mixPair bytes state (16 * pair) (size - 16 * (pair + 1)) (32 * pair))
    (start size)
  finishMiddle size mixed

private def upTo240 (bytes : Array UInt8) : Digest :=
  let size := bytes.size
  let firstFour := (List.range 4).foldl
    (fun state pair => mixPair bytes state (32 * pair) (32 * pair + 16) (32 * pair)) (start size)
  let halfway : Digest := ⟨scatter firstFour.low, scatter firstFour.high⟩
  let others := (List.range (size / 32 - 4)).foldl
    (fun state pair =>
      mixPair bytes state (128 + 32 * pair) (144 + 32 * pair) (3 + 32 * pair)) halfway
  finishMiddle size (mixPair bytes others (size - 16) (size - 32) 103)

private def lanes : Array UInt64 :=
  #[prime32C, prime64A, prime64B, prime64C, prime64D, prime32B, prime64E, prime32A]

private def accumulate (bytes : Array UInt8) (state : Array UInt64)
    (position secretAt : Nat) : Array UInt64 :=
  Array.ofFn (fun lane : Fin 8 =>
    let keyed := word64 bytes (position + 8 * lane.val) ^^^ key (secretAt + 8 * lane.val)
    state.getD lane.val 0 + word64 bytes (position + 8 * (lane.val ^^^ 1)) +
      lowHalf keyed * (keyed >>> 32))

private def scramble (state : Array UInt64) : Array UInt64 :=
  Array.ofFn (fun lane : Fin 8 =>
    let held := state.getD lane.val 0
    (held ^^^ held >>> 47 ^^^ key (128 + 8 * lane.val)) * prime32A)

private def stripes (bytes : Array UInt8) (position count : Nat) (state : Array UInt64) :
    Array UInt64 :=
  (List.range count).foldl
    (fun state stripe => accumulate bytes state (position + 64 * stripe) (8 * stripe)) state

private def mergeLanes (state : Array UInt64) (secretAt : Nat) (first : UInt64) : UInt64 :=
  scatter ((List.range 4).foldl
    (fun sum pair =>
      sum + foldedProduct (state.getD (2 * pair) 0 ^^^ key (secretAt + 16 * pair))
        (state.getD (2 * pair + 1) 0 ^^^ key (secretAt + 16 * pair + 8)))
    first)

private def long (bytes : Array UInt8) : Digest :=
  let size := bytes.size
  let blocks := (size - 1) / 1024
  let blocked := (List.range blocks).foldl
    (fun state block => scramble (stripes bytes (1024 * block) 16 state)) lanes
  let striped := stripes bytes (1024 * blocks) ((size - 1 - 1024 * blocks) / 64) blocked
  let state := accumulate bytes striped (size - 64) 121
  ⟨mergeLanes state 11 (UInt64.ofNat size * prime64A),
    mergeLanes state 117 (~~~(UInt64.ofNat size * prime64B))⟩

def ofBytes (content : List UInt8) : Digest :=
  let bytes := content.toArray
  let size := bytes.size
  if size = 0 then ofNone
  else if size ≤ 3 then upToThree bytes
  else if size ≤ 8 then upToEight bytes
  else if size ≤ 16 then upToSixteen bytes
  else if size ≤ 128 then upTo128 bytes
  else if size ≤ 240 then upTo240 bytes
  else long bytes

private def hexDigit (value : Nat) : Char :=
  if value < 10 then Char.ofNat ('0'.toNat + value) else Char.ofNat ('a'.toNat + (value - 10))

private def hexBytes (word : UInt64) : List Char :=
  (List.range 8).flatMap (fun byte =>
    let value := (byteOf word byte).toNat
    [hexDigit (value / 16), hexDigit (value % 16)])

def text (digest : Digest) : String :=
  String.ofList (hexBytes digest.low ++ hexBytes digest.high)

def describe (digest : Digest) : String :=
  "ContentHash(" ++ String.ofList ((hexBytes digest.low).take 4) ++ "..)"

end Digest

end Reanalysis
