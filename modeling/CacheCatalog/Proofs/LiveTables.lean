import CacheCatalog.Proofs.Denotation
import CacheCatalog.Proofs.Histories

/-! What a store answers after any history of changes. A table is live if the last change that names it
exactly has registered it. A store lists the live tables, each of them once and in their order, and a
drop tells whether its table was live. A table is described by the first live one that has its names
but for letter case, and not at all where there is none. -/
namespace CacheCatalog

namespace StoreChange

def LastRegistered (history : List StoreChange) (t : TableRef) (columns : List DeclaredColumn) : Prop :=
  ∃ before after, history = before ++ register t columns :: after ∧ ∀ c ∈ after, c.table ≠ t

def Live (history : List StoreChange) (t : TableRef) : Prop :=
  ∃ columns, LastRegistered history t columns

theorem registered?_eq_some_iff {history : List StoreChange} {t : TableRef}
    {columns : List DeclaredColumn} :
    registered? history t = some columns ↔ LastRegistered history t columns := by
  unfold registered? LastRegistered
  rw [Option.bind_eq_some_iff]
  constructor
  · rintro ⟨change, hfind, hcolumns⟩
    obtain ⟨htable, later, earlier, hhistory, hlater⟩ := List.find?_eq_some_iff_append.1 hfind
    cases change with
    | drop _ => cases hcolumns
    | register table own =>
      obtain rfl : own = columns := Option.some.inj hcolumns
      obtain rfl : table = t := of_decide_eq_true htable
      -- the search goes through the history backwards
      refine ⟨earlier.reverse, later.reverse, ?_, fun c hc => ?_⟩
      · rw [← List.reverse_reverse history, hhistory, List.reverse_append, List.reverse_cons,
          List.append_assoc, List.singleton_append]
      · simpa using hlater c (List.mem_reverse.1 hc)
  · rintro ⟨before, after, rfl, hafter⟩
    refine ⟨register t columns, List.find?_eq_some_iff_append.2 ⟨decide_eq_true rfl, after.reverse,
      before.reverse, ?_, fun c hc => ?_⟩, rfl⟩
    · rw [List.reverse_append, List.reverse_cons, List.append_assoc, List.singleton_append]
    · simpa using hafter c (List.mem_reverse.1 hc)

end StoreChange

open StoreChange (LastRegistered Live registered? registered?_eq_some_iff)

theorem Text.compare_eq_lt_iff {a b : String} : compare a b = .lt ↔ a < b := by
  show compareOfLessAndEq a b = .lt ↔ a < b
  unfold compareOfLessAndEq
  split
  · next hlt => exact iff_of_true rfl hlt
  · next hlt =>
    refine iff_of_false ?_ hlt
    split <;> exact nofun

namespace TableRef

def Precedes (a b : TableRef) : Prop := a.schema < b.schema ∨ a.schema = b.schema ∧ a.name < b.name

theorem compare_eq_lt_iff {a b : TableRef} : compare a b = .lt ↔ a.Precedes b := by
  show (compare a.schema b.schema).then (compare a.name b.name) = .lt ↔ _
  rw [Ordering.then_eq_lt, Text.compare_eq_lt_iff, Text.compare_eq_lt_iff, Std.compare_eq_iff_eq,
    Precedes]

def AlikeButCase (a b : TableRef) : Prop :=
  Text.AlikeButCase a.schema b.schema ∧ Text.AlikeButCase a.name b.name

theorem same_iff_alikeButCase {a b : TableRef} : a.same b = true ↔ a.AlikeButCase b := by
  rw [same, Bool.and_eq_true, Text.sameName_iff_alikeButCase, Text.sameName_iff_alikeButCase,
    AlikeButCase]

end TableRef

structure FirstLive (history : List StoreChange) (t first : TableRef) : Prop where
  live : Live history first
  alike : first.AlikeButCase t
  least : ∀ r, Live history r → r.AlikeButCase t → r = first ∨ first.Precedes r

namespace Store

theorem FirstSame.unique {s : Store} {t first other : TableRef} (h : s.FirstSame t first)
    (h' : s.FirstSame t other) : first = other := by
  obtain rfl | hlt := h.least other h'.listed h'.same
  · rfl
  · obtain rfl | hgt := h'.least first h.listed h.same
    · rfl
    · rw [Std.OrientedCmp.gt_of_lt hgt] at hlt
      cases hlt

theorem columns_cases (s : Store) (t : TableRef) :
    (∃ first columns, s.FirstSame t first ∧ s.get? first = some columns ∧ s.columns t = .ok columns) ∨
      ((∀ r ∈ s.tables, r.same t = false) ∧
        s.columns t = .error (.unknownTable t.schema t.name)) := by
  cases hcolumns : s.columns t with
  | ok columns =>
    obtain ⟨first, hfirst, hget⟩ := exists_firstSame hcolumns
    exact .inl ⟨first, columns, hfirst, hget, rfl⟩
  | error e =>
    unfold Store.columns at hcolumns
    split at hcolumns
    · cases hcolumns
    · next hnone =>
      refine .inr ⟨fun r hr => ?_, hcolumns.symm⟩
      obtain ⟨x, hx, rfl⟩ := List.mem_map.1 hr
      exact Bool.eq_false_iff.2 (List.find?_eq_none.1 hnone x hx)

theorem columns_eq_ok_iff {s : Store} {t : TableRef} {columns : List DeclaredColumn} :
    s.columns t = .ok columns ↔ ∃ first, s.FirstSame t first ∧ s.get? first = some columns := by
  refine ⟨exists_firstSame, ?_⟩
  rintro ⟨first, hfirst, hget⟩
  obtain ⟨other, own, hother, hown, hcolumns⟩ | ⟨hnone, -⟩ := s.columns_cases t
  · obtain rfl := hfirst.unique hother
    obtain rfl := Option.some.inj (hget.symm.trans hown)
    exact hcolumns
  · have hnot := hnone first hfirst.listed
    rw [hfirst.same] at hnot
    cases hnot

theorem columns_eq_error_iff {s : Store} {t : TableRef} {e : Error} :
    s.columns t = .error e ↔
      e = .unknownTable t.schema t.name ∧ ∀ r ∈ s.tables, r.same t = false := by
  obtain ⟨first, columns, hfirst, -, hcolumns⟩ | ⟨hnone, hcolumns⟩ := s.columns_cases t
  · rw [hcolumns]
    refine iff_of_false nofun ?_
    rintro ⟨-, hnone⟩
    have hnot := hnone first hfirst.listed
    rw [hfirst.same] at hnot
    cases hnot
  · rw [hcolumns, Except.error.injEq]
    exact ⟨fun h => ⟨h.symm, hnone⟩, fun h => h.1.symm⟩

section History
variable {history : List StoreChange} {t first : TableRef}

theorem get?_ofChanges_eq_some_iff {columns : List DeclaredColumn} :
    (ofChanges history).get? t = some columns ↔ LastRegistered history t columns := by
  rw [get?_ofChanges, registered?_eq_some_iff]

theorem mem_tables_iff_live : t ∈ (ofChanges history).tables ↔ Live history t := by
  rw [mem_tables_ofChanges_iff, Live]
  simp only [registered?_eq_some_iff]

theorem firstSame_iff_firstLive : (ofChanges history).FirstSame t first ↔ FirstLive history t first := by
  constructor
  · rintro ⟨hlisted, hsame, hleast⟩
    refine ⟨mem_tables_iff_live.1 hlisted, TableRef.same_iff_alikeButCase.1 hsame, fun r hr halike => ?_⟩
    rw [← TableRef.compare_eq_lt_iff]
    exact hleast r (mem_tables_iff_live.2 hr) (TableRef.same_iff_alikeButCase.2 halike)
  · rintro ⟨hlive, halike, hleast⟩
    refine ⟨mem_tables_iff_live.2 hlive, TableRef.same_iff_alikeButCase.2 halike, fun r hr hsame => ?_⟩
    rw [TableRef.compare_eq_lt_iff]
    exact hleast r (mem_tables_iff_live.1 hr) (TableRef.same_iff_alikeButCase.1 hsame)

theorem contains_iff_live : (ofChanges history).contains t = true ↔ Live history t := by
  rw [Keyed.contains, Option.isSome_iff_exists, Live]
  simp only [get?_ofChanges_eq_some_iff]

end History

/-- After any history of changes: the tables listed are the live ones, each once and in their order; a
drop tells whether its table was live; and a table is described by the columns last registered for the
first live table of its names in any letter case, or is unknown if no live table has these. -/
theorem answers_after_history (history : List StoreChange) :
    let s := ofChanges history
    (∃ tables, s.source.tables = .ok tables ∧ tables.Pairwise TableRef.Precedes ∧ tables.Nodup ∧
      ∀ t, t ∈ tables ↔ Live history t) ∧
    (∀ t, ((s.remove t).1 = true ↔ Live history t) ∧
      (s.remove t).2 = ofChanges (history ++ [.drop t])) ∧
    (∀ t columns, s.source.columns t = .ok columns ↔
      ∃ first, FirstLive history t first ∧ LastRegistered history first columns) ∧
    ∀ t e, s.source.columns t = .error e ↔
      e = .unknownTable t.schema t.name ∧ ¬ ∃ r, Live history r ∧ r.AlikeButCase t := by
  intro s
  refine ⟨⟨s.tables, rfl, ?ascending, s.nodup_keys, fun t => mem_tables_iff_live⟩, fun t => ⟨?found, ?_⟩,
    fun t columns => ?described, fun t e => ?unknown⟩
  case ascending => exact s.ascending.imp TableRef.compare_eq_lt_iff.1
  case found => exact contains_iff_live
  case described =>
    rw [show s.source.columns t = s.columns t from rfl, columns_eq_ok_iff]
    simp only [s, firstSame_iff_firstLive, get?_ofChanges_eq_some_iff]
  case unknown =>
    rw [show s.source.columns t = s.columns t from rfl, columns_eq_error_iff]
    refine and_congr_right fun _ => ⟨?_, fun hnone r hr => ?_⟩
    · rintro hnone ⟨r, hlive, halike⟩
      have hnot := hnone r (mem_tables_iff_live.2 hlive)
      rw [TableRef.same_iff_alikeButCase.2 halike] at hnot
      cases hnot
    · refine Bool.eq_false_iff.2 fun hsame => hnone ⟨r, mem_tables_iff_live.1 hr, ?_⟩
      exact TableRef.same_iff_alikeButCase.1 hsame
  · rw [ofChanges_concat]
    rfl

example :
    let s := ofChanges [.register ⟨"S", "t"⟩ [⟨"A", 9, {}, true⟩], .register ⟨"S", "T"⟩ [],
      .register ⟨"R", "T"⟩ [], .drop ⟨"S", "T"⟩]
    s.tables = [⟨"R", "T"⟩, ⟨"S", "t"⟩] ∧ (s.remove ⟨"S", "T"⟩).1 = false ∧
      s.columns ⟨"s", "T"⟩ = .ok [⟨"A", 9, {}, true⟩] := by decide +kernel

end Store
end CacheCatalog
