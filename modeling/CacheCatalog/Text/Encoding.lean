/-!
Text as bytes. Each character is kept as a piece of its own, so that a cut between pieces never
splits a character.
-/
namespace CacheCatalog.Text

inductive Encoding where
  | utf8
  | utf16le
  deriving DecidableEq, Repr

def littleEndian (width n : Nat) : List UInt8 :=
  (List.range width).map fun i => UInt8.ofNat (n >>> (8 * i))

namespace Encoding

def unit : Encoding → Nat
  | utf8 => 1
  | utf16le => 2

/-- The bytes of one character; in UTF-16 one beyond `U+FFFF` is a pair of surrogates. -/
def encode : Encoding → Char → List UInt8
  | utf8, c => String.utf8EncodeChar c
  | utf16le, c =>
    if c.toNat < 0x10000 then littleEndian 2 c.toNat
    else
      let v := c.toNat - 0x10000
      littleEndian 2 (0xD800 + v / 0x400) ++ littleEndian 2 (0xDC00 + v % 0x400)

def terminator (e : Encoding) : List UInt8 := List.replicate e.unit 0

def characters (e : Encoding) (s : String) : List (List UInt8) := s.toList.map e.encode

def bytes (e : Encoding) (s : String) : List UInt8 := (e.characters s).flatten

/-- The code units of little-endian bytes; a byte left over at the end is dropped. -/
def units16 : List UInt8 → List Nat
  | lo :: hi :: bs => (lo.toNat + 256 * hi.toNat) :: units16 bs
  | _ => []

/-- The characters of UTF-16 code units. A surrogate without its partner reads as `U+FFFD`. -/
def ofUnits16 : List Nat → List Char
  | [] => []
  | [u] => [if 0xD800 ≤ u && u < 0xE000 then '\uFFFD' else Char.ofNat u]
  | u :: v :: us =>
    if 0xD800 ≤ u && u < 0xDC00 && 0xDC00 ≤ v && v < 0xE000 then
      Char.ofNat (0x10000 + (u - 0xD800) * 0x400 + (v - 0xDC00)) :: ofUnits16 us
    else (if 0xD800 ≤ u && u < 0xE000 then '\uFFFD' else Char.ofNat u) :: ofUnits16 (v :: us)

/-- The text of bytes before their first zero unit. UTF-8 needs that unit to be there. -/
def decode? : Encoding → List UInt8 → Option String
  | utf8, bs => if bs.contains 0 then String.fromUTF8? (bs.takeWhile (· != 0)).toByteArray else none
  | utf16le, bs =>
    if bs.isEmpty then none
    else some (String.ofList (ofUnits16 ((units16 bs).takeWhile (· != 0))))

end Encoding

def ofLittleEndian (bs : List UInt8) : Int :=
  let n : Nat := bs.foldr (fun b n => b.toNat + 256 * n) 0
  let range : Nat := 1 <<< (8 * bs.length)
  if 2 * n < range then n else n - (range : Int)

def toLittleEndian (width : Nat) (v : Int) : List UInt8 :=
  littleEndian width (v % (1 <<< (8 * width) : Nat)).toNat

end CacheCatalog.Text
