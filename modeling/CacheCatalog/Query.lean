import CacheCatalog.Cursor
import CacheCatalog.Search
import CacheCatalog.Settings

/-!
The four questions about a cache. Three are answered by rows, and the last by the columns of a
projection alone: those that a query for some names of a table would show, numbered by their place in
the projection. For that all columns of the table have to be such as an answer can show, asked for or
not. An answer is complete when it is given: nothing is asked of the source later.
-/
namespace CacheCatalog

def TableRef.ofName (defaultSchema name : String) : TableRef :=
  match name.toList.dropWhile (· != '.') with
  | [] => ⟨defaultSchema, name⟩
  | _ :: table => ⟨String.ofList (name.toList.takeWhile (· != '.')), String.ofList table⟩

namespace Projection

def declared (source : Source) (table : TableRef) : Except Error (List Column) := do
  let columns ← source.columns table
  columns.zipIdx.mapM fun (d, i) => Column.ofDeclared table i d

def entry (columns : List Column) (name : String) (index : Nat) : Except Error Column :=
  match columns.find? fun c => Text.sameName c.name name with
  | none => .error (.unknownColumn name)
  | some c => (ordinalAt index).map fun ordinal => { c with ordinal }

def columns (source : Source) (table : TableRef) (names : List String) :
    Except Error (List Column) := do
  let columns ← declared source table
  if names.isEmpty then return columns
  names.zipIdx.mapM fun (name, i) => entry columns name i

end Projection

inductive ResultSet where
  | none
  | projection (columns : List Column)
  | rows (cursor : Cursor)
  deriving DecidableEq

inductive Query where
  | types (code : Int)
  | columns (search : ColumnSearch)
  | tables (search : TableSearch)
  | describe (table : String) (names : List String)
  deriving DecidableEq, Repr

namespace Query

def answer (q : Query) (settings : Settings) (source : Source) : Except Error ResultSet :=
  match q with
  | types code => .ok (rows (Layout.types settings.limits) (FieldType.requested code))
  | columns search => (search.run source).map (rows (Layout.columnList settings.limits))
  | tables search => (search.run source).map (rows Layout.tables)
  | describe table names =>
    (Projection.columns source (TableRef.ofName settings.schema table) names).map .projection
where
  rows {α : Type} (layout : Layout α) (entries : List α) : ResultSet :=
    .rows (Cursor.ofRows layout.columns (entries.map layout.row) true)

end Query

end CacheCatalog
