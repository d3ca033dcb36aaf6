import CacheCatalog.Extent

/-!
The attributes of a result column that a caller can ask for by number. Older and newer numbers of
one attribute name the same field.
-/
namespace CacheCatalog

inductive AttributeField where
  | count
  | name
  | label
  | baseColumnName
  | unnamed
  | conciseType
  | verboseType
  | typeName
  | localTypeName
  | oldLength
  | length
  | octetLength
  | oldPrecision
  | precision
  | scale
  | displaySize
  | nullable
  | unsigned
  | searchable
  | caseSensitive
  | autoUnique
  | fixedScale
  | updatable
  | tableName
  | baseTableName
  | schemaName
  | catalogName
  | radix
  | literalPrefix
  | literalSuffix
  deriving DecidableEq, Repr

inductive AttributeValue where
  | int (value : Int)
  | text (value : String)
  deriving DecidableEq, Repr

namespace AttributeField

def ofNumber? : Nat → Option AttributeField
  | 0 | 1001 => some count
  | 1 | 1011 => some name
  | 2 => some conciseType
  | 3 => some oldLength
  | 4 => some oldPrecision
  | 5 | 1006 => some scale
  | 6 => some displaySize
  | 7 | 1008 => some nullable
  | 8 => some unsigned
  | 9 => some fixedScale
  | 10 => some updatable
  | 11 => some autoUnique
  | 12 => some caseSensitive
  | 13 => some searchable
  | 14 => some typeName
  | 15 => some tableName
  | 16 => some schemaName
  | 17 => some catalogName
  | 18 => some label
  | 22 => some baseColumnName
  | 23 => some baseTableName
  | 27 => some literalPrefix
  | 28 => some literalSuffix
  | 29 => some localTypeName
  | 32 => some radix
  | 1002 => some verboseType
  | 1003 => some length
  | 1005 => some precision
  | 1012 => some unnamed
  | 1013 => some octetLength
  | _ => none

def ofNumber (n : Nat) : Except Error AttributeField :=
  match ofNumber? n with
  | some f => .ok f
  | none => .error (.unknownField n)

/-- The newer precision of a date or time is its fraction digits, and a type that is no number counts
as unsigned. -/
def valueIn (count : Nat) (limits : Limits) (c : Column) : AttributeField → AttributeValue
  | .count => .int count
  | name | label | baseColumnName => .text c.name
  | unnamed => .int 0
  | conciseType => .int c.descriptor.sqlType
  | verboseType => .int c.descriptor.verboseType
  | typeName | localTypeName => .text c.descriptor.typeName
  | length => .int (c.extent limits).columnSize
  | oldLength | octetLength => .int (c.extent limits).octetLength
  | oldPrecision => .int (c.extent limits).precision
  | precision =>
    if c.type.isTemporal then .int (c.extent limits).scale else .int (c.extent limits).precision
  | scale => .int (c.extent limits).scale
  | displaySize => .int (c.extent limits).displaySize
  | nullable => .int c.nullable
  | unsigned => flag (c.descriptor.unsigned || !c.descriptor.isNumeric)
  | searchable => .int c.descriptor.searchable
  | caseSensitive => flag c.descriptor.caseSensitive
  | autoUnique => flag c.descriptor.autoUnique
  | fixedScale | updatable => .int 0
  | tableName | baseTableName => .text c.table.name
  | schemaName => .text c.table.schema
  | catalogName => .text ""
  | radix => .int (c.descriptor.radix.getD 0 : Nat)
  | literalPrefix => .text (c.descriptor.literalPrefix.getD "")
  | literalSuffix => .text (c.descriptor.literalSuffix.getD "")
where
  flag (b : Bool) : AttributeValue := .int (if b then 1 else 0)

end AttributeField

/-- The count of the columns belongs to no column, so any number will do for it. -/
def Column.attributeValue (columns : List Column) (limits : Limits) (ordinal : Nat)
    (field : AttributeField) : Except Error AttributeValue :=
  match field with
  | .count => .ok (.int columns.length)
  | field => (atOrdinal columns ordinal).map fun c => field.valueIn columns.length limits c

end CacheCatalog
