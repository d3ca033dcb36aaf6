import CacheCatalog.Cell
import CacheCatalog.Target
import CacheCatalog.Text.Characters
import CacheCatalog.Text.Numeral

/-!
The way of a value into a buffer. A cell has its content in the form of a target; of a text, the
bytes that were read before are skipped, and of what is left as many whole characters are written as
the buffer takes beside a terminator. Memory is taken to be there for a buffer of every capacity, beyond
what an address space could hold as well, so no capacity is refused and none breaks a reading off.
-/
namespace CacheCatalog

/-- Why a value was not read: an error to report, or a start inside a UTF-8 character, on which
reading breaks off with nothing reported. -/
inductive Fault where
  | refused (error : Error)
  | splitCharacter
  deriving DecidableEq, Repr

structure Piece where
  data : List UInt8
  /-- The bytes that there were to read, terminator apart, or the mark of a NULL. -/
  indicator : Int
  truncated : Bool
  consumed : Nat
  deriving DecidableEq, Repr

inductive Content where
  | null
  | text (encoding : Text.Encoding) (characters : List (List UInt8))
  | fixed (bytes : List UInt8)
  deriving DecidableEq, Repr

namespace Content

def size (cs : List (List UInt8)) : Nat := cs.flatten.length

/-- What is left of a text after `n` bytes. Inside a UTF-8 character there is no such rest; inside a
UTF-16 pair it begins with the second surrogate. -/
def skipText (e : Text.Encoding) : Nat → List (List UInt8) → Option (List (List UInt8))
  | _, [] => some []
  | 0, cs => some cs
  | n, c :: cs =>
    if c.length ≤ n then skipText e (n - c.length) cs
    else match e with
      | .utf8 => none
      | .utf16le => some (c.drop n :: cs)

/-- What is left after `offset` bytes, counted in whole code units. Only texts are read in pieces. -/
def skip (offset : Nat) : Content → Option Content
  | text e cs => (skipText e (offset / e.unit * e.unit) cs).map (text e)
  | content => some content

def fit : Nat → List (List UInt8) → List (List UInt8)
  | _, [] => []
  | room, c :: cs => if c.length ≤ room then c :: fit (room - c.length) cs else []

/-- A buffer too small for a terminator stays empty. -/
def write (capacity : Nat) : Content → Piece
  | null => ⟨[], nullLength, false, 0⟩
  | fixed bs => ⟨bs, bs.length, false, bs.length⟩
  | text e cs =>
    if capacity < e.unit then ⟨[], size cs, !cs.isEmpty, 0⟩
    else
      let kept := fit (capacity - e.unit) cs
      ⟨kept.flatten ++ e.terminator, size cs, kept.length < cs.length, size kept⟩

end Content

namespace Cell

def integer? : Cell → Option Int
  | null => none
  | int v => some v
  | text s => Text.signedWord? 64 (Text.trim s.toList)

def content (c : Cell) (t : Target) : Except Error Content :=
  match c, t with
  | null, _ => .ok .null
  | c, .text e => .ok (.text e (e.characters c.display))
  | c, .integer w =>
    match c.integer? with
    | none => .error (.notInteger c.display)
    | some v =>
      if Text.fitsSigned (8 * w.bytes) v then .ok (.fixed (Text.toLittleEndian w.bytes v))
      else .error (.outOfRange v t.code)

def read (c : Cell) (t : Target) (capacity offset : Nat) : Except Fault Piece :=
  match c.content t with
  | .error e => .error (.refused e)
  | .ok content =>
    match content.skip offset with
    | none => .error .splitCharacter
    | some rest => .ok (rest.write capacity)

/-- Reads a cell in a form that may have been left to a column that is not there: only a NULL can do
without one. -/
def convert (c : Cell) (r : TargetRequest) (capacity offset : Nat) : Except Fault Piece :=
  match c, r with
  | c, .exact t => c.read t capacity offset
  | null, .byColumn => .ok (Content.null.write capacity)
  | _, .byColumn => .error (.refused (.targetCode r.code))

end Cell
end CacheCatalog
