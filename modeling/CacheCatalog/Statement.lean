import CacheCatalog.Attribute
import CacheCatalog.Diagnostic
import CacheCatalog.Query

/-!
Statements: one result at a time, and the diagnostic records of the last call. A query replaces
whatever the statement had, even where it fails; every other call works on what is there. What a call
has to report follows from its outcome, and nothing of an earlier call is kept.
-/
namespace CacheCatalog

structure ColumnDescription where
  name : String
  sqlType : Int
  columnSize : Int
  scale : Int
  nullable : Int
  deriving DecidableEq, Repr

inductive Call where
  | columnCount
  | describeColumn (ordinal : Nat)
  | columnAttribute (ordinal field : Nat)
  | attributeText (ordinal field capacity : Nat)
  | bind (ordinal : Nat) (target : Int) (capacity : Nat)
  | fetch
  | getData (ordinal : Nat) (target : Int) (capacity : Nat)
  | moreResults
  | closeCursor
  | unbind
  | close
  | takeCursor
  deriving DecidableEq, Repr

inductive Reply where
  | done
  | noData
  | count (columns : Nat)
  | description (column : ColumnDescription)
  | value (value : AttributeValue)
  | fetched (truncated : List Nat)
  | piece (ordinal : Nat) (piece : Piece)
  | cursor (cursor : Option Cursor)
  deriving DecidableEq

abbrev Outcome := Except Fault Reply

namespace Reply

def diagnostics : Reply → List Diagnostic
  | fetched ns => ns.map .truncated
  | piece n p => if p.truncated then [.truncated n] else []
  | _ => []

def status (r : Reply) : Status :=
  match r with
  | noData => .noData
  | r => if r.diagnostics.isEmpty then .success else .successWithInfo

end Reply

namespace Outcome

def diagnostics : Outcome → List Diagnostic
  | .ok reply => reply.diagnostics
  | .error (.refused e) => [.failure e]
  | .error .splitCharacter => []

def ofExcept (r : Except Error Reply) : Outcome := r.mapError .refused

end Outcome

namespace ResultSet

def columns : ResultSet → Except Error (List Column)
  | rows c => if c.isClosed then .error .noResultSet else .ok c.columns
  | projection cs => .ok cs
  | none => .error .noResultSet

def cursor? : ResultSet → Option Cursor
  | rows c => some c
  | _ => Option.none

def cursor (r : ResultSet) : Except Error Cursor :=
  match r.cursor? with
  | some c => .ok c
  | Option.none => .error .noResultSet

def mapCursor (f : Cursor → Cursor) : ResultSet → ResultSet
  | rows c => rows (f c)
  | r => r

def count (r : ResultSet) : Except Error Reply := do
  let columns ← r.columns
  if columns.length ≤ maxColumns then return .count columns.length
  throw (.schema (.columnCount columns.length))

def describeColumn (r : ResultSet) (limits : Limits) (ordinal : Nat) : Except Error Reply := do
  let column ← Column.atOrdinal (← r.columns) ordinal
  let extent := column.extent limits
  return .description ⟨column.name, column.descriptor.sqlType, extent.columnSize, extent.scale,
    column.nullable⟩

def attributeValue (r : ResultSet) (limits : Limits) (ordinal field : Nat) :
    Except Error AttributeValue := do
  let field ← AttributeField.ofNumber field
  Column.attributeValue (← r.columns) limits ordinal field

def attributeText (r : ResultSet) (limits : Limits) (ordinal field capacity : Nat) :
    Except Error Reply := do
  match ← r.attributeValue limits ordinal field with
  | .int v => return .value (.int v)
  | .text s =>
    return .piece ordinal ((Content.text .utf8 (Text.Encoding.utf8.characters s)).write capacity)

def bind (r : ResultSet) (ordinal : Nat) (target : Int) (capacity : Nat) : Outcome × ResultSet :=
  let bound : Except Error Cursor := do
    let request ← TargetRequest.ofCode target
    (← r.cursor).bind ordinal request capacity
  match bound with
  | .ok c => (.ok .done, rows c)
  | .error e => (.error (.refused e), r)

def fetch (r : ResultSet) : Outcome × ResultSet :=
  match r.cursor with
  | .error e => (.error (.refused e), r)
  | .ok c =>
    match c.fetch with
    | (.error e, c) => (.error (.refused e), rows c)
    | (.ok .noData, c) => (.ok .noData, rows c)
    | (.ok (.row truncated), c) => (.ok (.fetched truncated), rows c)

def getData (r : ResultSet) (ordinal : Nat) (target : Int) (capacity : Nat) :
    Outcome × ResultSet :=
  let asked : Except Error (TargetRequest × Cursor) := do
    let request ← TargetRequest.ofCode target
    return (request, ← r.cursor)
  match asked with
  | .error e => (.error (.refused e), r)
  | .ok (request, c) =>
    match c.getData ordinal request capacity with
    | .error fault => (.error fault, r)
    | .ok (Option.none, c) => (.ok .noData, rows c)
    | .ok (some piece, c) => (.ok (.piece ordinal piece), rows c)

def answer (limits : Limits) (r : ResultSet) : Call → Outcome × ResultSet
  | .columnCount => (.ofExcept r.count, r)
  | .describeColumn ordinal => (.ofExcept (r.describeColumn limits ordinal), r)
  | .columnAttribute ordinal field => (.ofExcept ((r.attributeValue limits ordinal field).map .value), r)
  | .attributeText ordinal field capacity =>
    (.ofExcept (r.attributeText limits ordinal field capacity), r)
  | .bind ordinal target capacity => r.bind ordinal target capacity
  | .fetch => r.fetch
  | .getData ordinal target capacity => r.getData ordinal target capacity
  | .moreResults => (.ok .noData, r.mapCursor Cursor.close)
  | .closeCursor => (.ok .done, r.mapCursor Cursor.close)
  | .unbind => (.ok .done, r.mapCursor Cursor.unbindAll)
  | .close => (.ok .done, none)
  | .takeCursor =>
    match r with
    | rows c => (.ok (.cursor (some c)), none)
    | r => (.ok (.cursor Option.none), r)

end ResultSet

structure Statement where
  result : ResultSet := .none
  diagnostics : List Diagnostic := []
  deriving DecidableEq

namespace Statement

def cleared (s : Statement) : Statement := { s with result := .none, diagnostics := [] }

def query (settings : Settings) (source : Source) (s : Statement) (q : Query) :
    Outcome × Statement :=
  match q.answer settings source with
  | .ok result => (.ok .done, { s.cleared with result })
  | .error e => (.error (.refused e), { s.cleared with diagnostics := [.failure e] })

theorem query_of_ok {settings : Settings} {source : Source} {q : Query} {result : ResultSet}
    (h : q.answer settings source = .ok result) (s : Statement) :
    s.query settings source q = (.ok .done, { s.cleared with result }) := by
  unfold query
  rw [h]

theorem query_of_error {settings : Settings} {source : Source} {q : Query} {e : Error}
    (h : q.answer settings source = .error e) (s : Statement) :
    s.query settings source q =
      (.error (.refused e), { s.cleared with diagnostics := [.failure e] }) := by
  unfold query
  rw [h]

def call (settings : Settings) (s : Statement) (c : Call) : Outcome × Statement :=
  let (outcome, result) := s.result.answer settings.limits c
  (outcome, ⟨result, outcome.diagnostics⟩)

def cursor? (s : Statement) : Option Cursor := s.result.cursor?

def binding? (s : Statement) (ordinal : Nat) : Option Binding := do
  (← s.cursor?).bindings.get? ordinal

def currentRow? (s : Statement) : Option Row := do (← s.cursor?).currentRow?

def cell? (s : Statement) (name : String) : Option Cell := do
  let c ← s.cursor?
  (← c.currentRow?).named? c.columns name

end Statement
end CacheCatalog
