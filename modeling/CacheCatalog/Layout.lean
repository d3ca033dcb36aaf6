import CacheCatalog.Cell
import CacheCatalog.Extent

/-!
Layouts of catalog answers. A layout pairs each heading with the cell that an entry shows under it,
so the rows of an answer have a cell for every column. There are three: one for types, one for the columns
of tables, and one for tables or else the schemas or the kinds of table that there are.
-/
namespace CacheCatalog

inductive TableEntry where
  | schema (name : String)
  | table (table : TableRef)
  | kind
  deriving DecidableEq, Repr

def tableKind : String := "TABLE"

structure LayoutField (α : Type) where
  name : String
  type : FieldType
  required : Bool
  cell : α → Cell

abbrev Layout (α : Type) := List (LayoutField α)

def LayoutField.optional {α : Type} (name : String) (type : FieldType) (cell : α → Cell) :
    LayoutField α := ⟨name, type, false, cell⟩

def LayoutField.always {α : Type} (name : String) (type : FieldType) (cell : α → Cell) :
    LayoutField α := ⟨name, type, true, cell⟩

namespace Layout
variable {α : Type}

def textLength : Nat := 128

def columnAt (f : LayoutField α) (index : Nat) : Column :=
  { ordinal := index + 1, name := f.name, table := ⟨"", ""⟩, type := f.type,
    size := if f.type = .string then { length := some textLength } else {},
    nullable := if f.required then 0 else 1 }

def columns (l : Layout α) : List Column := l.zipIdx.map fun (f, i) => columnAt f i

def row (l : Layout α) (entry : α) : Row := l.map (·.cell entry)

theorem length_columns (l : Layout α) : (columns l).length = l.length := by simp [columns]

/-! Types show with the sizes of a column that declares none; the size of a decimal is the most that any can
have. -/

def ofNumeric (type : FieldType) (cell : Cell) : Cell :=
  if type.descriptor.isNumeric then cell else .null

def types (limits : Limits) : Layout FieldType :=
  [.always "TYPE_NAME" .string fun t => .text t.descriptor.typeName,
   .always "DATA_TYPE" .short fun t => .int t.sqlType,
   .optional "COLUMN_SIZE" .int fun t =>
     .int (if t = .decimal then (maxPrecision : Nat) else (t.extent {} limits).columnSize),
   .optional "LITERAL_PREFIX" .string fun t => .ofText? t.descriptor.literalPrefix,
   .optional "LITERAL_SUFFIX" .string fun t => .ofText? t.descriptor.literalSuffix,
   .optional "CREATE_PARAMS" .string fun t => .ofText? t.descriptor.createParams,
   .always "NULLABLE" .short fun t => .int t.descriptor.nullable,
   .always "CASE_SENSITIVE" .short fun t => .ofFlag t.descriptor.caseSensitive,
   .always "SEARCHABLE" .short fun t => .int t.descriptor.searchable,
   .optional "UNSIGNED_ATTRIBUTE" .short fun t => ofNumeric t (.ofFlag t.descriptor.unsigned),
   .always "FIXED_PREC_SCALE" .short fun _ => .ofFlag false,
   .optional "AUTO_UNIQUE_VALUE" .short fun t => ofNumeric t (.ofFlag t.descriptor.autoUnique),
   .optional "LOCAL_TYPE_NAME" .string fun t => .text t.descriptor.typeName,
   .optional "MINIMUM_SCALE" .short fun t => .ofNat? t.descriptor.minScale,
   .optional "MAXIMUM_SCALE" .short fun t => .ofNat? t.descriptor.maxScale,
   .always "SQL_DATA_TYPE" .short fun t => .int t.descriptor.verboseType,
   .optional "SQL_DATETIME_SUB" .short fun t => .ofInt? t.descriptor.datetimeSub,
   .optional "NUM_PREC_RADIX" .int fun t => .ofNat? t.descriptor.radix,
   .optional "INTERVAL_PRECISION" .short fun _ => .null]

def typeRows (limits : Limits) (code : Int) : List Row :=
  (FieldType.requested code).map (types limits).row

/-! Of columns, digits after the point show for types that have a fixed number of them and for decimals, and a
length in octets only for texts and byte strings. -/

def columnList (limits : Limits) : Layout Column :=
  [.optional "TABLE_CAT" .string fun _ => .null,
   .optional "TABLE_SCHEM" .string fun c => .text c.table.schema,
   .always "TABLE_NAME" .string fun c => .text c.table.name,
   .always "COLUMN_NAME" .string fun c => .text c.name,
   .always "DATA_TYPE" .short fun c => .int c.descriptor.sqlType,
   .always "TYPE_NAME" .string fun c => .text c.descriptor.typeName,
   .optional "COLUMN_SIZE" .int fun c => .int (c.extent limits).columnSize,
   .optional "BUFFER_LENGTH" .int fun c => .int (c.extent limits).octetLength,
   .optional "DECIMAL_DIGITS" .short fun c =>
     if c.descriptor.decimalDigits.isSome || c.type = .decimal then .int (c.extent limits).scale
     else .null,
   .optional "NUM_PREC_RADIX" .short fun c => .ofNat? c.descriptor.radix,
   .always "NULLABLE" .short fun c => .int c.nullable,
   .optional "REMARKS" .string fun _ => .null,
   .optional "COLUMN_DEF" .string fun _ => .null,
   .always "SQL_DATA_TYPE" .short fun c => .int c.descriptor.verboseType,
   .optional "SQL_DATETIME_SUB" .short fun c => .ofInt? c.descriptor.datetimeSub,
   .optional "CHAR_OCTET_LENGTH" .int fun c =>
     if c.descriptor.isCharacter || c.descriptor.isBinary then .int (c.extent limits).octetLength
     else .null,
   .always "ORDINAL_POSITION" .int fun c => .int c.ordinal,
   .optional "IS_NULLABLE" .string fun c =>
     .text (if c.nullable = 0 then "NO" else if c.nullable = 1 then "YES" else "")]

def columnRows (limits : Limits) (columns : List Column) : List Row :=
  columns.map (columnList limits).row

def tables : Layout TableEntry :=
  [.optional "TABLE_CAT" .string fun _ => .null,
   .optional "TABLE_SCHEM" .string fun
     | .schema name => .text name
     | .table t => .text t.schema
     | .kind => .null,
   .optional "TABLE_NAME" .string fun
     | .table t => .text t.name
     | _ => .null,
   .optional "TABLE_TYPE" .string fun
     | .schema _ => .null
     | _ => .text tableKind,
   .optional "REMARKS" .string fun _ => .null]

def tableRows (entries : List TableEntry) : List Row := entries.map tables.row

end Layout
end CacheCatalog
