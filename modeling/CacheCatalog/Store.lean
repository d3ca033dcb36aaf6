import CacheCatalog.Keyed
import CacheCatalog.Column

/-!
Tables kept in memory. A table is registered under its exact schema and name; its columns are found
under any letter case of the two, the first fitting table in order of code points winning.
-/
namespace CacheCatalog

instance : Ord TableRef := ⟨compareLex (compareOn TableRef.schema) (compareOn TableRef.name)⟩

instance : Std.TransOrd TableRef :=
  inferInstanceAs (Std.TransCmp (compareLex (compareOn TableRef.schema) (compareOn TableRef.name)))

instance : Std.LawfulEqOrd TableRef where
  eq_of_compare {a b} h := by
    change (compare a.schema b.schema).then (compare a.name b.name) = .eq at h
    rw [Ordering.then_eq_eq, Std.compare_eq_iff_eq, Std.compare_eq_iff_eq] at h
    cases a
    cases b
    simp_all

abbrev Store := Keyed TableRef (List DeclaredColumn)

def TableRef.same (a b : TableRef) : Bool :=
  Text.sameName a.schema b.schema && Text.sameName a.name b.name

theorem TableRef.same_refl (t : TableRef) : t.same t = true := by
  rw [TableRef.same, Text.sameName_refl, Text.sameName_refl]
  rfl

namespace Store

def register (s : Store) (table : TableRef) (columns : List DeclaredColumn) : Store :=
  s.insert table columns

def drop (s : Store) (table : TableRef) : Store := s.erase table

def remove (s : Store) (table : TableRef) : Bool × Store := (s.contains table, s.drop table)

def tables (s : Store) : List TableRef := s.keys

def columns (s : Store) (table : TableRef) : Except Error (List DeclaredColumn) :=
  match s.entries.find? fun e => e.1.same table with
  | some e => .ok e.2
  | none => .error (.unknownTable table.schema table.name)

def source (s : Store) : Source := ⟨.ok s.tables, s.columns⟩

end Store

structure Service where
  store : Store := Keyed.empty
  listFailure : Option String := none
  describeFailure : Option String := none

def Service.source (s : Service) : Source where
  tables := s.listFailure.elim s.store.source.tables fun m => .error (.provider m)
  columns table := s.describeFailure.elim (s.store.source.columns table) fun m => .error (.provider m)

end CacheCatalog
