import CacheCatalog.Keyed
import CacheCatalog.Transfer

/-!
Buffers bound to result columns. A row refreshes them in the order of the columns, as far as the
first cell that its buffer cannot take; a column that the row does not reach leaves its buffer as it
was. Memory is taken to be there for a buffer of every capacity that is asked for.
-/
namespace CacheCatalog

structure Binding where
  target : Target
  capacity : Nat
  data : List UInt8
  indicator : Option Int
  truncated : Bool
  deriving DecidableEq, Repr

namespace Binding

/-- A buffer for integers is as large as they are. -/
def fresh (target : Target) (capacity : Nat) : Binding :=
  ⟨target, target.fixedWidth.getD capacity, [], none, false⟩

def store (b : Binding) (p : Piece) : Binding :=
  { b with data := p.data, indicator := some p.indicator, truncated := p.truncated }

def text? (b : Binding) : Option String :=
  match b.target with
  | .text e => e.decode? b.data
  | .integer _ => none

def integer? (b : Binding) : Option Int :=
  match b.target with
  | .text _ => none
  | .integer w => if b.data.length == w.bytes then some (Text.ofLittleEndian b.data) else none

def refresh (row : Row) : List (Nat × Binding) → Except Error (List Nat) × List (Nat × Binding)
  | [] => (.ok [], [])
  | (n, b) :: bs =>
    match row[n - 1]? with
    | none =>
      let (outcome, rest) := refresh row bs
      (outcome, (n, b) :: rest)
    | some cell =>
      match cell.content b.target with
      | .error e => (.error e, (n, b) :: bs)
      | .ok content =>
        let piece := content.write b.capacity
        let (outcome, rest) := refresh row bs
        (if piece.truncated then outcome.map (n :: ·) else outcome, (n, b.store piece) :: rest)

theorem keys_refresh (row : Row) (bs : List (Nat × Binding)) :
    (refresh row bs).2.map Prod.fst = bs.map Prod.fst := by
  induction bs with
  | nil => rfl
  | cons e bs ih =>
    simp only [refresh]
    split
    · simp only [List.map_cons, ih]
    · split <;> simp only [List.map_cons, ih]

end Binding

abbrev Bindings := Keyed Nat Binding

def Bindings.refresh (row : Row) (bs : Bindings) : Except Error (List Nat) × Bindings :=
  let outcome := Binding.refresh row bs.entries
  (outcome.1, ⟨outcome.2, Binding.keys_refresh row bs.entries ▸ bs.ascending⟩)

end CacheCatalog
