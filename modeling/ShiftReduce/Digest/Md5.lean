import ShiftReduce.Text.Bytes
import ShiftReduce.Text.Quoted

/-! # The MD5 digest — 128 bits of a byte string

    The message is padded to blocks of sixteen little-endian words; each block
    stirs a state of four words in sixty-four rounds. -/

namespace ShiftReduce

namespace Digest

/-- The four words of the state. -/
structure State where
  a : UInt32
  b : UInt32
  c : UInt32
  d : UInt32
  deriving DecidableEq, Repr

/-- The state before the first block. -/
def State.initial : State :=
  ⟨0x67452301, 0xEFCDAB89, 0x98BADCFE, 0x10325476⟩

/-- The amounts of rotation, four for every sixteen rounds. -/
def rotations : List UInt32 :=
  [7, 12, 17, 22, 5, 9, 14, 20, 4, 11, 16, 23, 6, 10, 15, 21]

/-- The constants of the rounds: the first 32 bits behind the binary point of
    the sine of 1, 2, …, 64, signs dropped. -/
def sines : List UInt32 :=
  [0xd76aa478, 0xe8c7b756, 0x242070db, 0xc1bdceee, 0xf57c0faf, 0x4787c62a, 0xa8304613, 0xfd469501,
   0x698098d8, 0x8b44f7af, 0xffff5bb1, 0x895cd7be, 0x6b901122, 0xfd987193, 0xa679438e, 0x49b40821,
   0xf61e2562, 0xc040b340, 0x265e5a51, 0xe9b6c7aa, 0xd62f105d, 0x02441453, 0xd8a1e681, 0xe7d3fbc8,
   0x21e1cde6, 0xc33707d6, 0xf4d50d87, 0x455a14ed, 0xa9e3e905, 0xfcefa3f8, 0x676f02d9, 0x8d2a4c8a,
   0xfffa3942, 0x8771f681, 0x6d9d6122, 0xfde5380c, 0xa4beea44, 0x4bdecfa9, 0xf6bb4b60, 0xbebfbc70,
   0x289b7ec6, 0xeaa127fa, 0xd4ef3085, 0x04881d05, 0xd9d4d039, 0xe6db99e5, 0x1fa27cf8, 0xc4ac5665,
   0xf4292244, 0x432aff97, 0xab9423a7, 0xfc93a039, 0x655b59c3, 0x8f0ccc92, 0xffeff47d, 0x85845dd1,
   0x6fa87e4f, 0xfe2ce6e0, 0xa3014314, 0x4e0811a1, 0xf7537e82, 0xbd3af235, 0x2ad7d2bb, 0xeb86d391]

/-- A word rotated to the left. -/
def rotateLeft (x n : UInt32) : UInt32 :=
  (x <<< n) ||| (x >>> (32 - n))

/-- The mixing function of a round and the word of the block that it reads. -/
def mix (s : State) (round : Nat) : UInt32 × Nat :=
  match round / 16 with
  | 0 => ((s.b &&& s.c) ||| (~~~s.b &&& s.d), round)
  | 1 => ((s.d &&& s.b) ||| (~~~s.d &&& s.c), (5 * round + 1) % 16)
  | 2 => (s.b ^^^ s.c ^^^ s.d, (3 * round + 5) % 16)
  | _ => (s.c ^^^ (s.b ||| ~~~s.d), (7 * round) % 16)

/-- One round on a block of sixteen words. -/
def round (block : List UInt32) (s : State) (n : Nat) (sine : UInt32) : State :=
  let (f, k) := mix s n
  let turn := rotations.getD (n / 16 * 4 + n % 4) 0
  { a := s.d
    b := s.b + rotateLeft (s.a + f + sine + block.getD k 0) turn
    c := s.b
    d := s.c }

/-- Stirs a block into the state. -/
def State.absorb (s : State) (block : List UInt32) : State :=
  let t := sines.zipIdx.foldl (fun t (sine, n) => round block t n sine) s
  ⟨s.a + t.a, s.b + t.b, s.c + t.c, s.d + t.d⟩

/-- The `count` low bytes of a number, least significant first. -/
def littleEndian : Nat → Nat → Bytes
  | 0, _ => []
  | count + 1, n => UInt8.ofNat (n % 256) :: littleEndian count (n / 256)

/-- The message padded to a multiple of 64 bytes, its length in bits last. -/
def padMessage (message : Bytes) : Bytes :=
  message ++ [0x80] ++ List.replicate ((119 - message.length % 64) % 64) 0
    ++ littleEndian 8 (message.length * 8)

/-- The words of a byte string, least significant byte first. -/
def toWords : Bytes → List UInt32
  | a :: b :: c :: d :: rest =>
    (a.toUInt32 ||| (b.toUInt32 <<< 8) ||| (c.toUInt32 <<< 16) ||| (d.toUInt32 <<< 24))
      :: toWords rest
  | _ => []

/-- Stirs as many blocks as the fuel says. -/
def absorbAll : Nat → State → List UInt32 → State
  | 0, s, _ => s
  | blocks + 1, s, ws => absorbAll blocks (s.absorb (ws.take 16)) (ws.drop 16)

/-- The digest in lower case hexadecimal digits. -/
def md5 (message : Bytes) : String :=
  let ws := toWords (padMessage message)
  let s := absorbAll (ws.length / 16) State.initial ws
  let bytes := [s.a, s.b, s.c, s.d].flatMap fun w => littleEndian 4 w.toNat
  String.ofList (bytes.flatMap fun b => Text.hex 2 b.toNat)

end Digest

end ShiftReduce
