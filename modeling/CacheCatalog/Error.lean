/-!
What can go wrong, by cause. Each cause has one wording and one SQLSTATE, and counts either as a
call made wrongly or as a failure of what the call asked for.
-/
namespace CacheCatalog

/-! What an answer can carry. Columns are numbered by sixteen-bit words, and lengths are signed words of
thirty-two bits, with two marks below zero that are no lengths. -/

def maxColumns : Nat := 65535

def maxPrecision : Nat := 38

def maxLength : Nat := 2147483647

/-- Stands for a length that is not known or not bounded. -/
def noTotal : Int := -4

def nullLength : Int := -1

/-! The causes -/

inductive SettingFault where
  | missingValue (key : String)
  | missingKey
  | openBrace (key : String)
  | number (key value : String)
  | emptyAddress
  | port (text : String)
  | precision (precision : Nat)
  | scale (precision : Nat) (scale : Int)
  deriving DecidableEq, Repr

inductive SchemaFault where
  | typeId (id : Nat)
  | position (index : Nat)
  | columnCount (count : Nat)
  deriving DecidableEq, Repr

inductive Error where
  | columnIndex (index count : Nat)
  | unknownColumn (name : String)
  | unknownTable (schema table : String)
  | unknownField (field : Nat)
  | targetCode (code : Int)
  | cursorClosed
  | noCurrentRow
  | noResultSet
  | schema (fault : SchemaFault)
  | outOfRange (value code : Int)
  | notInteger (text : String)
  | setting (fault : SettingFault)
  | provider (message : String)
  deriving DecidableEq, Repr

def SettingFault.message : SettingFault → String
  | missingValue key => s!"Missing value for key: {key}"
  | missingKey => "Missing key before '='"
  | openBrace key => s!"Unterminated braces for key: {key}"
  | number key value => s!"Invalid value for {key}: {value}"
  | emptyAddress => "ADDRESS is empty"
  | port text => s!"Invalid port: {text}"
  | precision p => s!"DECIMAL_PRECISION must be between 1 and {maxPrecision}: {p}"
  | scale p s => s!"DECIMAL_SCALE must be between 0 and {p}: {s}"

def SchemaFault.message : SchemaFault → String
  | typeId id => s!"unknown binary type id {id}"
  | position index => s!"column position {index} exceeds {maxColumns} columns"
  | columnCount count => s!"{count} result columns exceed {maxColumns}"

namespace Error

def message : Error → String
  | columnIndex index count => s!"Column index {index} out of bounds (columns: {count})"
  | unknownColumn name => s!"Column not found: {name}"
  | unknownTable s t => s!"Table not found: {s}.{t}"
  | unknownField field => s!"Invalid descriptor field identifier: {field}"
  | targetCode code => s!"Invalid application buffer type: {code}"
  | cursorClosed => "Invalid cursor state: cursor is closed"
  | noCurrentRow => "Invalid cursor state: no current row"
  | noResultSet => "Function sequence error: no result set"
  | schema fault => s!"Schema inconsistency: {fault.message}"
  | outOfRange value code => s!"Numeric value out of range: {value} does not fit C type {code}"
  | notInteger text => s!"Invalid character value for cast specification: '{text}'"
  | setting fault => s!"Invalid connect string: {fault.message}"
  | provider message => s!"Schema provider error: {message}"

def sqlState : Error → String
  | columnIndex .. => "07009"
  | unknownColumn _ => "42S22"
  | unknownTable .. => "42S02"
  | unknownField _ => "HY091"
  | targetCode _ => "HY003"
  | cursorClosed | noCurrentRow => "24000"
  | noResultSet => "HY010"
  | outOfRange .. => "22003"
  | notInteger _ => "22018"
  | schema _ | setting _ | provider _ => "HY000"

def isInvalidArgument : Error → Bool
  | columnIndex .. | unknownField _ | targetCode _ | cursorClosed | noCurrentRow
  | noResultSet => true
  | _ => false

end Error
end CacheCatalog
