import CacheCatalog.Error

/-!
The types that a field of a cached object can have. A field carries its type as a one-byte
identifier; some types answer to two, of which one is canonical.
-/
namespace CacheCatalog

inductive FieldType where
  | byte
  | short
  | int
  | long
  | float
  | double
  | bool
  | decimal
  | string
  | bytes
  | date
  | time
  | timestamp
  | uuid
  | object
  | array
  | map
  deriving DecidableEq, Repr

namespace FieldType

/-- Every type, in the order that settles ties of SQL codes. -/
def all : List FieldType :=
  [byte, short, int, long, float, double, bool, decimal, string, bytes, date, time, timestamp,
    uuid, object, array, map]

def ofId? : Nat → Option FieldType
  | 1 => some byte
  | 2 => some short
  | 3 => some int
  | 4 => some long
  | 5 => some float
  | 6 => some double
  | 8 => some bool
  | 9 => some string
  | 10 => some uuid
  | 11 => some date
  | 12 => some bytes
  | 23 | 24 => some array
  | 25 => some map
  | 27 | 103 => some object
  | 30 => some decimal
  | 33 => some timestamp
  | 36 => some time
  | _ => none

def ofId (id : Nat) : Except Error FieldType :=
  match ofId? id with
  | some t => .ok t
  | none => .error (.schema (.typeId id))

def id : FieldType → Nat
  | byte => 1
  | short => 2
  | int => 3
  | long => 4
  | float => 5
  | double => 6
  | bool => 8
  | string => 9
  | uuid => 10
  | date => 11
  | bytes => 12
  | array => 23
  | map => 25
  | decimal => 30
  | timestamp => 33
  | time => 36
  | object => 103

def name : FieldType → String
  | byte => "byte"
  | short => "short"
  | int => "int"
  | long => "long"
  | float => "float"
  | double => "double"
  | bool => "bool"
  | decimal => "decimal"
  | string => "string"
  | bytes => "byte[]"
  | date => "date"
  | time => "time"
  | timestamp => "timestamp"
  | uuid => "uuid"
  | object => "object"
  | array => "array"
  | map => "map"

def ofName? (s : String) : Option FieldType := all.find? (·.name == s)

def isFixedNumeric : FieldType → Bool
  | byte | short | int | long | float | double | bool => true
  | _ => false

def isTemporal : FieldType → Bool
  | date | time | timestamp => true
  | _ => false

def isComposite : FieldType → Bool
  | object | array | map => true
  | _ => false

theorem mem_all (t : FieldType) : t ∈ all := by cases t <;> decide

theorem ofId?_id (t : FieldType) : ofId? t.id = some t := by cases t <;> rfl

end FieldType
end CacheCatalog
