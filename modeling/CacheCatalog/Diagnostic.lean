import CacheCatalog.Error

/-! What a caller sees of a call beside its answer: a return status and diagnostic records. -/
namespace CacheCatalog

inductive Status where
  | success
  | successWithInfo
  | noData
  | error
  deriving DecidableEq, Repr

namespace Status

def code : Status → Int
  | success => 0
  | successWithInfo => 1
  | noData => 100
  | error => -1

def succeeded : Status → Bool
  | success | successWithInfo => true
  | noData | error => false

end Status

inductive Diagnostic where
  | failure (error : Error)
  | truncated (column : Nat)
  deriving DecidableEq, Repr

namespace Diagnostic

def sqlState : Diagnostic → String
  | failure e => e.sqlState
  | truncated _ => "01004"

def message : Diagnostic → String
  | failure e => e.message
  | truncated n => s!"String data, right truncated (column {n})"

def column : Diagnostic → Option Nat
  | failure (.columnIndex index _) => some index
  | failure _ => none
  | truncated n => some n

end Diagnostic
end CacheCatalog
