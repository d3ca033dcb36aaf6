import CacheCatalog.Layout
import CacheCatalog.Pattern

/-!
The searches for columns and for tables. Tables are taken in the order in which they are listed and
columns as they are declared; only the tables whose names fit are asked for their columns, and only the
columns whose names fit have to be such as an answer can show. Three special searches for tables list
catalogs, of which there are none, the schemas, or the kinds of table; every other one lists the tables
whose names fit, provided that it asks for that kind at all.
-/
namespace CacheCatalog

structure ColumnSearch where
  catalog : Option String := none
  schema : Option String := none
  table : Option String := none
  column : Option String := none
  deriving DecidableEq, Repr

/-- There are no catalogs: a search that names one finds nothing. -/
def noCatalog (catalog : Option String) : Bool :=
  match catalog with
  | none => true
  | some s => s.isEmpty || s == "%"

def TableRef.fits (t : TableRef) (schema table : Option String) : Bool :=
  (Pattern.ofOption schema).accepts t.schema && (Pattern.ofOption table).accepts t.name

namespace ColumnSearch

def inTable (s : ColumnSearch) (source : Source) (t : TableRef) : Except Error (List Column) := do
  let declared ← source.columns t
  let fitting := declared.zipIdx.filter fun (d, _) => (Pattern.ofOption s.column).accepts d.name
  fitting.mapM fun (d, i) => Column.ofDeclared t i d

def collect (s : ColumnSearch) (source : Source) : Except Error (List Column) := do
  let tables ← source.tables
  let found ← (tables.filter fun t => t.fits s.schema s.table).mapM (s.inTable source)
  return found.flatten

def run (s : ColumnSearch) (source : Source) : Except Error (List Column) :=
  if noCatalog s.catalog then s.collect source else .ok []

end ColumnSearch

structure TableSearch where
  catalog : Option String := none
  schema : Option String := none
  table : Option String := none
  kinds : Option String := none
  deriving DecidableEq, Repr

namespace TableSearch

def listed : List Char → List (List Char)
  | [] => [[]]
  | c :: cs =>
    match listed cs with
    | [] => [[]]
    | part :: parts => if c == ',' then [] :: part :: parts else (c :: part) :: parts

def unquote (cs : List Char) : List Char := Text.stripped (· == '\'') cs

def admitsTables (s : TableSearch) : Bool :=
  match s.kinds with
  | none => true
  | some kinds =>
    kinds.isEmpty || kinds == "%" || (listed kinds.toList).any fun part =>
      Text.sameName (String.ofList (unquote (Text.trim part))) tableKind

def listsCatalogs (s : TableSearch) : Bool :=
  s.catalog == some "%" && s.schema == some "" && s.table == some ""

def listsSchemas (s : TableSearch) : Bool :=
  s.schema == some "%" && s.catalog == some "" && s.table == some ""

def listsKinds (s : TableSearch) : Bool :=
  s.kinds == some "%" && s.catalog == some "" && s.schema == some "" && s.table == some ""

def run (s : TableSearch) (source : Source) : Except Error (List TableEntry) :=
  if s.listsCatalogs then .ok []
  else if s.listsSchemas then
    source.tables.map fun tables => (tables.map TableRef.schema).eraseDups.map .schema
  else if s.listsKinds then .ok [.kind]
  -- the source is not asked for tables that could not be shown
  else if noCatalog s.catalog && s.admitsTables then
    source.tables.map fun tables => (tables.filter fun t => t.fits s.schema s.table).map .table
  else .ok []

end TableSearch

end CacheCatalog
