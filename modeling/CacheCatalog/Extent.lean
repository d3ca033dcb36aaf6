import CacheCatalog.Column

/-!
How large the values of a column are. Types of fixed width take their sizes from the type; decimals,
strings and byte strings take what the column declares, and else the limits of the connection.
-/
namespace CacheCatalog

structure Limits where
  stringLength : Option Nat := some 65535
  bytesLength : Option Nat := some 65535
  precision : Nat := 38
  scale : Int := 18
  deriving DecidableEq, Repr

structure Extent where
  columnSize : Int
  octetLength : Int
  displaySize : Int
  precision : Int
  scale : Int
  deriving DecidableEq, Repr

namespace Extent

def ofDescriptor (d : Descriptor) : Extent :=
  let orNone (n : Option Nat) : Int := n.elim noTotal Int.ofNat
  { columnSize := orNone d.columnSize, octetLength := orNone d.octetLength,
    displaySize := orNone d.displaySize, precision := orNone d.columnSize,
    scale := (d.decimalDigits.getD 0 : Nat) }

/-- A scale counts as 0 where only the precision is declared; both are brought into their ranges. -/
def decimalDigits (size : SizeHint) (limits : Limits) : Nat × Nat :=
  let precision := max 1 (min (size.precision.getD limits.precision) maxPrecision)
  let scale := size.scale.getD (if size.precision.isSome then 0 else limits.scale)
  (precision, min scale.toNat precision)

/-- A sign and a point take two places beside the digits. -/
def ofDecimal (digits : Nat × Nat) : Extent :=
  { columnSize := digits.1, octetLength := (digits.1 + 2 : Nat),
    displaySize := (digits.1 + 2 : Nat), precision := digits.1, scale := digits.2 }

/-- Sizes that follow from one length, each byte of which shows in `places` places. -/
def ofLength (length : Option Nat) (places : Nat) : Extent :=
  let size : Int := length.elim noTotal fun n => (min n maxLength : Nat)
  let display : Int := length.elim noTotal fun n => (min (places * min n maxLength) maxLength : Nat)
  { columnSize := size, octetLength := size, displaySize := display, precision := noTotal,
    scale := 0 }

end Extent

def FieldType.extent (t : FieldType) (size : SizeHint) (limits : Limits) : Extent :=
  match t with
  | .decimal => .ofDecimal (Extent.decimalDigits size limits)
  | .string => .ofLength (size.length <|> limits.stringLength) 1
  | .bytes => .ofLength (size.length <|> limits.bytesLength) 2
  | .object | .array | .map => .ofLength (some maxLength) 1
  | _ => .ofDescriptor t.descriptor

def Column.extent (c : Column) (limits : Limits) : Extent := c.type.extent c.size limits

end CacheCatalog
