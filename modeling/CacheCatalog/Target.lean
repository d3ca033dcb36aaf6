import CacheCatalog.Column
import CacheCatalog.Text.Encoding

/-!
The forms in which a caller takes a value: text in one of two encodings, or a signed integer of one
of three widths. A caller may also leave the form to the type of the column.
-/
namespace CacheCatalog

inductive IntegerWidth where
  | short
  | long
  | big
  deriving DecidableEq, Repr

def IntegerWidth.bytes : IntegerWidth → Nat
  | short => 2
  | long => 4
  | big => 8

inductive Target where
  | text (encoding : Text.Encoding)
  | integer (width : IntegerWidth)
  deriving DecidableEq, Repr

namespace Target

def code : Target → Int
  | text .utf8 => 1
  | text .utf16le => -8
  | integer .short => -15
  | integer .long => -16
  | integer .big => -25

def fixedWidth : Target → Option Nat
  | text _ => none
  | integer w => some w.bytes

end Target

def FieldType.target : FieldType → Target
  | byte | short | bool => .integer .short
  | int => .integer .long
  | long => .integer .big
  | _ => .text .utf8

inductive TargetRequest where
  | exact (target : Target)
  | byColumn
  deriving DecidableEq, Repr

namespace TargetRequest

def code : TargetRequest → Int
  | exact t => t.code
  | byColumn => 99

def ofCode (code : Int) : Except Error TargetRequest :=
  match code with
  | 1 => .ok (exact (.text .utf8))
  | -8 => .ok (exact (.text .utf16le))
  | -15 => .ok (exact (.integer .short))
  | -16 => .ok (exact (.integer .long))
  | -25 => .ok (exact (.integer .big))
  | 99 => .ok byColumn
  | code => .error (.targetCode code)

def resolve (r : TargetRequest) (type : FieldType) : Target :=
  match r with
  | exact t => t
  | byColumn => type.target

end TargetRequest
end CacheCatalog
