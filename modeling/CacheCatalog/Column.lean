import CacheCatalog.FieldType.Descriptor
import CacheCatalog.Text.Characters

/-!
Columns, first as a cache declares them and then as a result shows them. A cache answers, at one moment,
when it is asked for its tables and for the columns of one of them, and either answer can be a failure. A
result numbers its columns from 1, and a name finds the first column that carries it in any letter case.
-/
namespace CacheCatalog

structure SizeHint where
  length : Option Nat := none
  precision : Option Nat := none
  scale : Option Int := none
  deriving DecidableEq, Repr

structure DeclaredColumn where
  name : String
  typeId : Nat
  size : SizeHint := {}
  nullable : Bool := true
  deriving DecidableEq, Repr

structure TableRef where
  schema : String
  name : String
  deriving DecidableEq, Repr

structure Source where
  tables : Except Error (List TableRef)
  columns : TableRef → Except Error (List DeclaredColumn)

structure Column where
  ordinal : Nat
  name : String
  table : TableRef
  type : FieldType
  size : SizeHint
  /-- 0 for no nulls, 1 for nullable, anything else for unknown. -/
  nullable : Int
  deriving DecidableEq, Repr

def ordinalAt (index : Nat) : Except Error Nat :=
  if index < maxColumns then .ok (index + 1) else .error (.schema (.position index))

namespace Column

def descriptor (c : Column) : Descriptor := c.type.descriptor

def ofDeclared (table : TableRef) (index : Nat) (d : DeclaredColumn) : Except Error Column := do
  let ordinal ← ordinalAt index
  let type ← FieldType.ofId d.typeId
  return { ordinal, name := d.name, table, type, size := d.size,
           nullable := if d.nullable then 1 else 0 }

def position? (columns : List Column) (name : String) : Option Nat :=
  columns.findIdx? fun c => Text.sameName c.name name

def atOrdinal (columns : List Column) (ordinal : Nat) : Except Error Column :=
  match ordinal with
  | 0 => .error (.columnIndex 0 columns.length)
  | n + 1 =>
    match columns[n]? with
    | some c => .ok c
    | none => .error (.columnIndex (n + 1) columns.length)

end Column
end CacheCatalog
