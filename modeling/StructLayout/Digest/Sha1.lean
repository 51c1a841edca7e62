/-! The SHA-1 digest of a text. -/

namespace StructLayout.Sha1

/-- The five words of the state. -/
structure State where
  a : UInt32
  b : UInt32
  c : UInt32
  d : UInt32
  e : UInt32
  deriving DecidableEq, Repr

def start : State :=
  ⟨0x67452301, 0xEFCDAB89, 0x98BADCFE, 0x10325476, 0xC3D2E1F0⟩

def rotateLeft (x n : UInt32) : UInt32 :=
  (x <<< n) ||| (x >>> (32 - n))

/-- The bytes of a message, a one bit, and zeros up to 8 bytes below a multiple of 64 that hold the
length in bits. -/
def padded (bytes : List UInt8) : List UInt8 :=
  let bits := bytes.length * 8
  let zeros := (119 - bytes.length % 64) % 64
  let length := (List.range 8).map fun i => UInt8.ofNat (bits >>> (8 * (7 - i)))
  bytes ++ 0x80 :: List.replicate zeros 0 ++ length

/-- Words of four bytes, the highest byte in front. -/
def words : List UInt8 → List UInt32
  | a :: b :: c :: d :: rest =>
    ((a.toUInt32 <<< 24) ||| (b.toUInt32 <<< 16) ||| (c.toUInt32 <<< 8) ||| d.toUInt32)
      :: words rest
  | _ => []

/-- `n` more words of a message schedule; the words so far stand with the last in front. -/
def extend : Nat → List UInt32 → List UInt32
  | 0, ws => ws
  | n + 1, ws =>
    let at_ := fun i => ws[i]?.getD 0
    extend n (rotateLeft (at_ 2 ^^^ at_ 7 ^^^ at_ 13 ^^^ at_ 15) 1 :: ws)

/-- The function and the constant of a round. -/
def mix (round : Nat) (s : State) : UInt32 × UInt32 :=
  if round < 20 then ((s.b &&& s.c) ||| ((~~~s.b) &&& s.d), 0x5A827999)
  else if round < 40 then (s.b ^^^ s.c ^^^ s.d, 0x6ED9EBA1)
  else if round < 60 then ((s.b &&& s.c) ||| (s.b &&& s.d) ||| (s.c &&& s.d), 0x8F1BBCDC)
  else (s.b ^^^ s.c ^^^ s.d, 0xCA62C1D6)

def round (s : State) (i : Nat) (w : UInt32) : State :=
  let m := mix i s
  ⟨rotateLeft s.a 5 + m.1 + s.e + m.2 + w, s.a, rotateLeft s.b 30, s.c, s.d⟩

/-- Takes in one block of 16 words. -/
def block (s : State) (ws : List UInt32) : State :=
  let schedule := (extend 64 ws.reverse).reverse
  let r := (schedule.zipIdx).foldl (fun s w => round s w.2 w.1) s
  ⟨s.a + r.a, s.b + r.b, s.c + r.c, s.d + r.d, s.e + r.e⟩

/-- Takes in blocks, at most `n` of them. -/
def blocks : Nat → State → List UInt32 → State
  | 0, s, _ => s
  | _ + 1, s, [] => s
  | n + 1, s, ws => blocks n (block s (ws.take 16)) (ws.drop 16)

def hexDigits (w : UInt32) : List Char :=
  (List.range 8).map fun i => Nat.digitChar (w.toNat >>> (4 * (7 - i)) % 16)

/-- The digest of the UTF-8 bytes of a text, in hexadecimal. -/
def digest (text : String) : String :=
  let ws := words (padded text.toUTF8.toList)
  let s := blocks ws.length start ws
  String.ofList ([s.a, s.b, s.c, s.d, s.e].flatMap hexDigits)

end StructLayout.Sha1
