import CacheCatalog.Binding

/-!
Forward-only cursors. Rows come one at a time and each of them once; the row last fetched can be
read column by column, a text in pieces that go on where the last one ended. A cursor that has run
out goes on giving no row, and one that is closed refuses everything but being closed again.
-/
namespace CacheCatalog

inductive Progress where
  | consumed (bytes : Nat)
  | finished
  deriving DecidableEq, Repr

structure CurrentRow where
  row : Row
  reads : Keyed Nat Progress
  deriving DecidableEq

inductive Phase where
  | active (pending : List Row) (current : Option CurrentRow)
  | exhausted
  | closed
  deriving DecidableEq

structure Cursor where
  columns : List Column
  position : Nat
  total : Option Nat
  phase : Phase
  bindings : Bindings
  deriving DecidableEq

inductive Fetched where
  | row (truncated : List Nat)
  | noData
  deriving DecidableEq, Repr

namespace Cursor

/-- The number of rows as it is known before the first of them. Where they are not counted there are
only bounds for it, and these meet where there is no row at all. -/
def announced (rows : List Row) (sized : Bool) : Option Nat :=
  if sized || rows.isEmpty then some rows.length else none

def ofRows (columns : List Column) (rows : List Row) (sized : Bool) : Cursor :=
  ⟨columns, 0, announced rows sized, .active rows none, Keyed.empty⟩

def isClosed (c : Cursor) : Bool := c.phase == .closed

def isExhausted (c : Cursor) : Bool := c.phase == .exhausted

def current? (c : Cursor) : Option CurrentRow :=
  match c.phase with
  | .active _ current => current
  | _ => none

def currentRow? (c : Cursor) : Option Row := c.current?.map CurrentRow.row

def pending (c : Cursor) : List Row :=
  match c.phase with
  | .active rows _ => rows
  | _ => []

def hasMore (c : Cursor) : Bool :=
  match c.phase with
  | .active _ _ => c.total.all fun n => c.position < n
  | _ => false

def close (c : Cursor) : Cursor := { c with phase := .closed, bindings := Keyed.empty }

def column (c : Cursor) (ordinal : Nat) : Except Error Column :=
  match c.phase with
  | .closed => .error .cursorClosed
  | _ => Column.atOrdinal c.columns ordinal

def bind (c : Cursor) (ordinal : Nat) (r : TargetRequest) (capacity : Nat) : Except Error Cursor := do
  let column ← c.column ordinal
  return { c with
    bindings := c.bindings.insert ordinal (.fresh (r.resolve column.type) capacity) }

def unbind (c : Cursor) (ordinal : Nat) : Cursor :=
  { c with bindings := c.bindings.erase ordinal }

def unbindAll (c : Cursor) : Cursor := { c with bindings := Keyed.empty }

def next (c : Cursor) : Except Error (Option Row × Cursor) :=
  match c.phase with
  | .closed => .error .cursorClosed
  | .exhausted => .ok (none, c)
  | .active [] _ => .ok (none, { c with phase := .exhausted, total := some c.position })
  | .active (row :: rows) _ =>
    .ok (some row,
      { c with position := c.position + 1, phase := .active rows (some ⟨row, Keyed.empty⟩) })

/-- A buffer that cannot take its cell fails the fetch but keeps the cursor on the new row. -/
def fetch (c : Cursor) : Except Error Fetched × Cursor :=
  match c.next with
  | .error e => (.error e, c)
  | .ok (none, c) => (.ok .noData, c)
  | .ok (some row, c) =>
    let (outcome, bindings) := c.bindings.refresh row
    (outcome.map .row, { c with bindings })

def fetchAll (c : Cursor) : Except Error (List Row × Cursor) :=
  match c.phase with
  | .closed => .error .cursorClosed
  | .exhausted => .ok ([], c)
  | .active rows _ =>
    -- rows that are taken all at once go past the buffers
    let position := c.position + rows.length
    .ok (rows, { c with position, total := some position, phase := .exhausted })

def take : Nat → Cursor → List (Except Error Row)
  | 0, _ => []
  | n + 1, c =>
    match c.next with
    | .error e => [.error e]
    | .ok (none, _) => []
    | .ok (some row, c) => .ok row :: take n c

def stream (c : Cursor) : List (Except Error Row) := c.take (c.pending.length + 1)

def getData (c : Cursor) (ordinal : Nat) (r : TargetRequest) (capacity : Nat) :
    Except Fault (Option Piece × Cursor) :=
  match c.column ordinal with
  | .error e => .error (.refused e)
  | .ok column =>
    match c.phase with
    | .active rows (some current) =>
      match current.row[ordinal - 1]? with
      | none => .error (.refused (.columnIndex ordinal current.row.length))
      | some cell =>
        -- a column that has not been read is read from its start
        match (current.reads.get? ordinal).getD (.consumed 0) with
        | .finished => .ok (none, c)
        | .consumed offset => do
          let piece ← cell.read (r.resolve column.type) capacity offset
          let progress :=
            if piece.truncated then Progress.consumed (offset + piece.consumed) else .finished
          let reads := current.reads.insert ordinal progress
          return (some piece, { c with phase := .active rows (some { current with reads }) })
    | _ => .error (.refused .noCurrentRow)

end Cursor
end CacheCatalog
