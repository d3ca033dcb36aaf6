import CacheCatalog.FieldType

/-!
How each field type looks in SQL: its name and codes, its sizes where they do not depend on the
column, and the literals that write its values. Types are listed by SQL code, and those of one code
(the binary family) keep their own order.
-/
namespace CacheCatalog

structure Descriptor where
  typeName : String
  sqlType : Int
  /-- The SQL code without the kind of date or time. -/
  verboseType : Int := sqlType
  datetimeSub : Option Int := none
  nullable : Int := 1
  unsigned : Bool := false
  autoUnique : Bool := false
  caseSensitive : Bool := false
  searchable : Int := 2
  columnSize : Option Nat := none
  octetLength : Option Nat := none
  displaySize : Option Nat := none
  decimalDigits : Option Nat := none
  minScale : Option Nat := none
  maxScale : Option Nat := none
  radix : Option Nat := none
  literalPrefix : Option String := none
  literalSuffix : Option String := none
  createParams : Option String := none
  fixedWidth : Bool := false
  deriving DecidableEq, Repr

namespace Descriptor

/-- A sign takes one place beside the digits. -/
def integer (typeName : String) (sqlType : Int) (digits octets : Nat) : Descriptor :=
  { typeName, sqlType, columnSize := some digits, octetLength := some octets,
    displaySize := some (digits + 1), decimalDigits := some 0, minScale := some 0,
    maxScale := some 0, radix := some 10, fixedWidth := true }

def floating (typeName : String) (sqlType : Int) (digits octets display : Nat) : Descriptor :=
  { typeName, sqlType, columnSize := some digits, octetLength := some octets,
    displaySize := some display, decimalDigits := some 0, radix := some 10, fixedWidth := true }

def temporal (typeName : String) (sqlType sub : Int) (size octets fraction : Nat) : Descriptor :=
  { typeName, sqlType, verboseType := 9, datetimeSub := some sub, columnSize := some size,
    octetLength := some octets, displaySize := some size, decimalDigits := some fraction,
    minScale := some 0, maxScale := some fraction, literalPrefix := some "'",
    literalSuffix := some "'", fixedWidth := true }

def unsearchable (typeName : String) : Descriptor := { typeName, sqlType := -3, searchable := 0 }

def isCharacter (d : Descriptor) : Bool := d.sqlType == 1 || d.sqlType == 12 || d.sqlType == -1

def isBinary (d : Descriptor) : Bool := d.sqlType == -2 || d.sqlType == -3 || d.sqlType == -4

def isNumeric (d : Descriptor) : Bool := d.radix.isSome

end Descriptor

namespace FieldType

def descriptor : FieldType → Descriptor
  | byte => .integer "TINYINT" (-6) 3 1
  | short => .integer "SMALLINT" 5 5 2
  | int => .integer "INTEGER" 4 10 4
  | long => .integer "BIGINT" (-5) 19 8
  | float => .floating "REAL" 7 7 4 14
  | double => .floating "DOUBLE" 8 15 8 24
  | bool =>
    { typeName := "BOOLEAN", sqlType := -7, columnSize := some 1, octetLength := some 1,
      displaySize := some 1, fixedWidth := true }
  | decimal =>
    { typeName := "DECIMAL", sqlType := 3, minScale := some 0, maxScale := some maxPrecision,
      radix := some 10, createParams := some "precision,scale" }
  | string =>
    { typeName := "VARCHAR", sqlType := 12, caseSensitive := true, searchable := 3,
      literalPrefix := some "'", literalSuffix := some "'", createParams := some "length" }
  | bytes =>
    { typeName := "VARBINARY", sqlType := -3, literalPrefix := some "X'",
      literalSuffix := some "'", createParams := some "length" }
  | date => .temporal "DATE" 91 1 10 6 0
  | time => .temporal "TIME" 92 2 8 6 0
  | timestamp => .temporal "TIMESTAMP" 93 3 29 16 9
  | uuid =>
    { typeName := "UUID", sqlType := -11, columnSize := some 36, octetLength := some 16,
      displaySize := some 36, literalPrefix := some "'", literalSuffix := some "'",
      fixedWidth := true }
  | object => .unsearchable "OBJECT"
  | array => .unsearchable "ARRAY"
  | map => .unsearchable "MAP"

def sqlType (t : FieldType) : Int := t.descriptor.sqlType

def sorted : List FieldType := all.mergeSort fun a b => a.sqlType ≤ b.sqlType

def ofSqlType (code : Int) : List FieldType := all.filter (·.sqlType == code)

def requested (code : Int) : List FieldType := if code == 0 then sorted else ofSqlType code

end FieldType
end CacheCatalog
