import CacheCatalog.Column

/-!
The values of a result: NULL, an integer or a text. A row is a list of them and may be shorter or
longer than the list of its columns.
-/
namespace CacheCatalog

inductive Cell where
  | null
  | int (value : Int)
  | text (value : String)
  deriving DecidableEq, Repr

namespace Cell

def ofInt? : Option Int → Cell
  | none => null
  | some v => int v

def ofNat? (n : Option Nat) : Cell := ofInt? (n.map Int.ofNat)

def ofText? : Option String → Cell
  | none => null
  | some s => text s

def ofFlag (b : Bool) : Cell := int (if b then 1 else 0)

def display : Cell → String
  | null => "NULL"
  | int v => toString v
  | text s => s

end Cell

abbrev Row := List Cell

def Row.named? (row : Row) (columns : List Column) (name : String) : Option Cell := do
  row[← Column.position? columns name]?

end CacheCatalog
