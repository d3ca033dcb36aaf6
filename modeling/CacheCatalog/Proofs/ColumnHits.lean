import CacheCatalog.Proofs.Denotation
import CacheCatalog.Proofs.Results
import CacheCatalog.Statement

/-! What a search for columns comes to. Its hits are the columns whose own names fit in the tables whose
names fit, table after table as they are listed and in each of them as it declares them; its faults
stand in the same order. A search without a fault shows each hit once, and any other fails with its
first fault; tables and columns that do not fit have no part in it. -/
namespace CacheCatalog

structure ColumnHit where
  table : TableRef
  declared : DeclaredColumn
  index : Nat

namespace ColumnHit

/-- What keeps a column from being shown; its place comes before its type. -/
def fault? (h : ColumnHit) : Option Error :=
  if maxColumns ≤ h.index then some (.schema (.position h.index))
  else if FieldType.ofId? h.declared.typeId = none then some (.schema (.typeId h.declared.typeId))
  else none

structure Shows (h : ColumnHit) (c : Column) : Prop where
  table : c.table = h.table
  name : c.name = h.declared.name
  ordinal : c.ordinal = h.index + 1
  type : FieldType.ofId? h.declared.typeId = some c.type
  size : c.size = h.declared.size
  nullable : c.nullable = if h.declared.nullable then 1 else 0

def column (h : ColumnHit) : Except Error Column := Column.ofDeclared h.table h.index h.declared

theorem Shows.unique : Relator.RightUnique Shows := by
  rintro h ⟨ordinal, name, table, type, size, nullable⟩ ⟨ordinal', name', table', type', size',
    nullable'⟩ hc hc'
  obtain ⟨rfl, rfl, rfl, htype, rfl, rfl⟩ := hc
  obtain ⟨rfl, rfl, rfl, htype', rfl, rfl⟩ := hc'
  obtain rfl := Option.some.inj (htype.symm.trans htype')
  rfl

theorem column_cases (h : ColumnHit) :
    (∃ c, h.column = .ok c ∧ h.Shows c ∧ h.fault? = none) ∨
      ∃ e, h.column = .error e ∧ h.fault? = some e := by
  unfold column Column.ofDeclared ordinalAt fault? FieldType.ofId
  by_cases hplace : h.index < maxColumns
  · rw [if_pos hplace, if_neg (Nat.not_le.2 hplace)]
    cases htype : FieldType.ofId? h.declared.typeId with
    | none => exact .inr ⟨_, rfl, rfl⟩
    | some type => exact .inl ⟨_, rfl, ⟨rfl, rfl, rfl, htype, rfl, rfl⟩, rfl⟩
  · rw [if_neg hplace, if_pos (Nat.not_lt.1 hplace)]
    exact .inr ⟨_, rfl, rfl⟩

theorem column_eq_error_iff (h : ColumnHit) (e : Error) :
    h.column = .error e ↔ h.fault?.toList.head? = some e := by
  obtain ⟨c, hc, -, hfault⟩ | ⟨e', he', hfault⟩ := h.column_cases
  · rw [hc, hfault]
    exact iff_of_false nofun nofun
  · rw [he', hfault, Except.error.injEq]
    exact Option.some_inj.symm

theorem exists_fault_iff (h : ColumnHit) :
    (∃ e, h.fault? = some e) ↔ maxColumns ≤ h.index ∨ FieldType.ofId? h.declared.typeId = none := by
  unfold fault?
  by_cases hplace : maxColumns ≤ h.index
  · rw [if_pos hplace]
    exact iff_of_true ⟨_, rfl⟩ (.inl hplace)
  · rw [if_neg hplace, or_iff_right hplace]
    by_cases htype : FieldType.ofId? h.declared.typeId = none
    · rw [if_pos htype]
      exact iff_of_true ⟨_, rfl⟩ htype
    · rw [if_neg htype]
      exact iff_of_false nofun htype

theorem shows_of_column {h : ColumnHit} {c : Column} (hc : h.column = .ok c) : h.Shows c := by
  obtain ⟨c', hc', hshows, -⟩ | ⟨e, he, -⟩ := h.column_cases
  · obtain rfl := Except.ok.inj (hc'.symm.trans hc)
    exact hshows
  · cases he.symm.trans hc

end ColumnHit

namespace Statement

def showing (columns : List Column) (rows : List Row) : Statement :=
  ⟨.rows (Cursor.ofRows columns rows true), []⟩

def failed (e : Error) : Statement := ⟨.none, [.failure e]⟩

section Search
variable {α : Type} {layout : Layout α} {search : Except Error (List α)} {q : Query}
  {settings : Settings} {source : Source}

theorem query_of_found {found : List α}
    (hq : q.answer settings source = search.map (Query.answer.rows layout))
    (h : search = .ok found) (s : Statement) :
    s.query settings source q = (.ok .done, showing layout.columns (found.map layout.row)) := by
  rw [h] at hq
  exact query_of_ok hq s

theorem query_of_not_found {e : Error}
    (hq : q.answer settings source = search.map (Query.answer.rows layout))
    (h : search = .error e) (s : Statement) :
    s.query settings source q = (.error (.refused e), failed e) := by
  rw [h] at hq
  exact query_of_error hq s

end Search

end Statement

def NoCatalog (catalog : Option String) : Prop :=
  catalog = none ∨ catalog = some "" ∨ catalog = some "%"

theorem noCatalog_iff {catalog : Option String} : noCatalog catalog = true ↔ NoCatalog catalog := by
  cases catalog with
  | none => simp [noCatalog, NoCatalog]
  | some s => simp [noCatalog, NoCatalog]

namespace TableRef

def Fits (t : TableRef) (schema table : Option String) : Prop :=
  Pattern.Takes schema t.schema ∧ Pattern.Takes table t.name

instance (t : TableRef) (schema table : Option String) : Decidable (t.Fits schema table) :=
  inferInstanceAs (Decidable (_ ∧ _))

theorem fits_iff {t : TableRef} {schema table : Option String} :
    t.fits schema table = true ↔ t.Fits schema table := by
  rw [fits, Bool.and_eq_true, Pattern.accepts_ofOption_iff, Pattern.accepts_ofOption_iff, Fits]

theorem filter_fits (schema table : Option String) (tables : List TableRef) :
    tables.filter (fun t => t.fits schema table) = tables.filter fun t => t.Fits schema table :=
  List.filter_congr fun _ _ => Bool.eq_iff_iff.2 (fits_iff.trans decide_eq_true_iff.symm)

end TableRef

namespace ColumnSearch

def hitsAmong (s : ColumnSearch) (t : TableRef) (declared : List DeclaredColumn) : List ColumnHit :=
  (declared.zipIdx.map fun x => ⟨t, x.1, x.2⟩).filter fun h => Pattern.Takes s.column h.declared.name

def hitsIn (s : ColumnSearch) (source : Source) (t : TableRef) : List ColumnHit :=
  match source.columns t with
  | .error _ => []
  | .ok declared => s.hitsAmong t declared

def faultsIn (s : ColumnSearch) (source : Source) (t : TableRef) : List Error :=
  match source.columns t with
  | .error e => [e]
  | .ok declared => (s.hitsAmong t declared).filterMap ColumnHit.fault?

def selected (s : ColumnSearch) (tables : List TableRef) : List TableRef :=
  tables.filter fun t => t.Fits s.schema s.table

def hits (s : ColumnSearch) (source : Source) : List ColumnHit :=
  match source.tables with
  | .error _ => []
  | .ok tables => (s.selected tables).flatMap (s.hitsIn source)

def faults (s : ColumnSearch) (source : Source) : List Error :=
  match source.tables with
  | .error e => [e]
  | .ok tables => (s.selected tables).flatMap (s.faultsIn source)

def FailsIn (s : ColumnSearch) (source : Source) (t : TableRef) : Prop :=
  (∃ e, source.columns t = .error e) ∨
    ∃ declared i d, source.columns t = .ok declared ∧ declared[i]? = some d ∧
      Pattern.Takes s.column d.name ∧ (maxColumns ≤ i ∨ FieldType.ofId? d.typeId = none)

def Fails (s : ColumnSearch) (source : Source) : Prop :=
  (∃ e, source.tables = .error e) ∨
    ∃ tables t, source.tables = .ok tables ∧ t ∈ tables ∧ t.Fits s.schema s.table ∧ s.FailsIn source t

structure AsksAlike (s : ColumnSearch) (source other : Source) : Prop where
  tables : other.tables = source.tables
  columns : ∀ tables, source.tables = .ok tables → ∀ t ∈ tables, t.Fits s.schema s.table →
    other.columns t = source.columns t

section Traversal
variable {s : ColumnSearch} {source : Source} {t : TableRef}

theorem inTable_of_described {declared : List DeclaredColumn} (h : source.columns t = .ok declared) :
    s.inTable source t = (s.hitsAmong t declared).mapM ColumnHit.column := by
  unfold inTable hitsAmong
  rw [h, List.filter_map, List.mapM_map]
  show (declared.zipIdx.filter _).mapM _ = _
  congr 1
  refine List.filter_congr fun x _ => ?_
  rw [Bool.eq_iff_iff, Pattern.accepts_ofOption_iff]
  exact decide_eq_true_iff.symm

theorem inTable_eq_error_iff (e : Error) :
    s.inTable source t = .error e ↔ (s.faultsIn source t).head? = some e := by
  cases hcolumns : source.columns t with
  | error e' =>
    unfold inTable faultsIn
    rw [hcolumns]
    show Except.error e' = Except.error e ↔ some e' = some e
    rw [Except.error.injEq, Option.some.injEq]
  | ok declared =>
    rw [inTable_of_described hcolumns, faultsIn, hcolumns]
    dsimp only
    rw [List.filterMap_eq_flatMap_toList]
    exact mapM_eq_error_iff fun h _ e => h.column_eq_error_iff e

theorem shows_of_inTable {columns : List Column} (h : s.inTable source t = .ok columns) :
    List.Forall₂ ColumnHit.Shows (s.hitsIn source t) columns := by
  cases hcolumns : source.columns t with
  | error e =>
    unfold inTable at h
    rw [hcolumns] at h
    cases h
  | ok declared =>
    rw [inTable_of_described hcolumns] at h
    rw [hitsIn, hcolumns]
    exact (mapM_eq_ok.1 h).imp fun _ _ => ColumnHit.shows_of_column

theorem collect_eq_error_iff (e : Error) :
    s.collect source = .error e ↔ (s.faults source).head? = some e := by
  unfold collect faults
  cases source.tables with
  | error e' =>
    show Except.error e' = Except.error e ↔ some e' = some e
    rw [Except.error.injEq, Option.some.injEq]
  | ok tables =>
    rw [← mapM_eq_error_iff fun t _ e => inTable_eq_error_iff e, selected,
      ← TableRef.filter_fits]
    show ((tables.filter fun t => t.fits s.schema s.table).mapM (s.inTable source) >>=
      fun found => Except.ok (List.flatten found)) = Except.error e ↔ _
    cases (tables.filter fun t => t.fits s.schema s.table).mapM (s.inTable source) with
    | error e' =>
      show Except.error e' = Except.error e ↔ Except.error e' = Except.error e
      rw [Except.error.injEq, Except.error.injEq]
    | ok found => exact iff_of_false nofun nofun

theorem shows_of_collect {found : List Column} (h : s.collect source = .ok found) :
    List.Forall₂ ColumnHit.Shows (s.hits source) found := by
  obtain ⟨tables, htables, h⟩ := bind_eq_ok.1 h
  obtain ⟨parts, hparts, h⟩ := bind_eq_ok.1 h
  obtain rfl := Except.ok.inj h
  rw [TableRef.filter_fits, ← selected] at hparts
  rw [hits, htables]
  have hall : List.Forall₂ (List.Forall₂ ColumnHit.Shows) ((s.selected tables).map (s.hitsIn source))
      parts :=
    List.forall₂_map_left_iff.2 ((mapM_eq_ok.1 hparts).imp fun _ _ => shows_of_inTable)
  dsimp only
  rw [List.flatMap_def]
  exact List.rel_flatten hall

theorem mem_hitsAmong {declared : List DeclaredColumn} {h : ColumnHit} :
    h ∈ s.hitsAmong t declared ↔
      h.table = t ∧ declared[h.index]? = some h.declared ∧ Pattern.Takes s.column h.declared.name := by
  rw [hitsAmong, List.mem_filter, List.mem_map, decide_eq_true_iff, ← and_assoc]
  refine and_congr_left' ⟨?_, ?_⟩
  · rintro ⟨⟨d, i⟩, hd, rfl⟩
    exact ⟨rfl, List.mem_zipIdx_iff_getElem?.1 hd⟩
  · rintro ⟨rfl, hd⟩
    exact ⟨(h.declared, h.index), List.mem_zipIdx_iff_getElem?.2 hd, rfl⟩

theorem exists_faultIn_iff : (∃ e, e ∈ s.faultsIn source t) ↔ s.FailsIn source t := by
  unfold faultsIn FailsIn
  cases hcolumns : source.columns t with
  | error e => exact iff_of_true ⟨e, List.mem_singleton_self e⟩ (.inl ⟨e, rfl⟩)
  | ok declared =>
    simp only [List.mem_filterMap, mem_hitsAmong]
    constructor
    · rintro ⟨e, h, ⟨-, hplace, htakes⟩, hfault⟩
      refine .inr ⟨declared, h.index, h.declared, rfl, hplace, htakes, ?_⟩
      exact h.exists_fault_iff.1 ⟨e, hfault⟩
    · rintro (⟨e, he⟩ | ⟨declared', i, d, hdeclared, hplace, htakes, hwrong⟩)
      · cases he
      · obtain rfl := Except.ok.inj hdeclared
        obtain ⟨e, he⟩ := (ColumnHit.mk t d i).exists_fault_iff.2 hwrong
        exact ⟨e, _, ⟨rfl, hplace, htakes⟩, he⟩

theorem mem_selected {tables : List TableRef} : t ∈ s.selected tables ↔ t ∈ tables ∧ t.Fits s.schema s.table := by
  rw [selected, List.mem_filter, decide_eq_true_iff]

theorem exists_fault_iff : (∃ e, e ∈ s.faults source) ↔ s.Fails source := by
  unfold faults Fails
  cases source.tables with
  | error e => exact iff_of_true ⟨e, List.mem_singleton_self e⟩ (.inl ⟨e, rfl⟩)
  | ok tables =>
    simp only [List.mem_flatMap, mem_selected]
    constructor
    · rintro ⟨e, t, ⟨ht, hselects⟩, he⟩
      exact .inr ⟨tables, t, rfl, ht, hselects, exists_faultIn_iff.1 ⟨e, he⟩⟩
    · rintro (⟨e, he⟩ | ⟨tables', t, htables, ht, hselects, hfails⟩)
      · cases he
      · obtain rfl := Except.ok.inj htables
        obtain ⟨e, he⟩ := exists_faultIn_iff.2 hfails
        exact ⟨e, t, ⟨ht, hselects⟩, he⟩

theorem collect_eq_ok_iff {found : List Column} :
    s.collect source = .ok found ↔
      s.faults source = [] ∧ List.Forall₂ ColumnHit.Shows (s.hits source) found := by
  constructor
  · intro h
    refine ⟨List.head?_eq_none_iff.1 (Option.eq_none_iff_forall_ne_some.2 fun e he => ?_),
      shows_of_collect h⟩
    cases h.symm.trans ((collect_eq_error_iff e).2 he)
  · rintro ⟨hfaults, hshows⟩
    cases hcollect : s.collect source with
    | error e =>
      have he := (collect_eq_error_iff e).1 hcollect
      rw [hfaults] at he
      cases he
    | ok found' =>
      have hsame := ColumnHit.Shows.unique.forall₂ hshows (shows_of_collect hcollect)
      rw [hsame]

theorem collect_fails_iff : (∃ e, s.collect source = .error e) ↔ s.Fails source := by
  rw [← exists_fault_iff]
  constructor
  · rintro ⟨e, he⟩
    exact ⟨e, List.mem_of_mem_head? ((collect_eq_error_iff e).1 he)⟩
  · rintro ⟨e, he⟩
    obtain ⟨first, hfirst⟩ :=
      Option.isSome_iff_exists.1 (List.isSome_head?.2 (List.ne_nil_of_mem he))
    exact ⟨first, (collect_eq_error_iff first).2 hfirst⟩

theorem AsksAlike.collect_eq {other : Source} (h : s.AsksAlike source other) :
    s.collect other = s.collect source := by
  unfold collect
  rw [h.tables]
  cases htables : source.tables with
  | error e => rfl
  | ok tables =>
    -- only the tables that fit are asked for their columns
    have hall : ∀ t ∈ tables.filter (fun t => t.fits s.schema s.table),
        s.inTable other t = s.inTable source t := by
      intro t ht
      rw [TableRef.filter_fits, ← selected, mem_selected] at ht
      unfold inTable
      rw [h.columns tables htables t ht.1 ht.2]
    exact congrArg (fun parts => parts >>= fun found => Except.ok (List.flatten found))
      (mapM_congr_left hall)

end Traversal

/-- A search for columns gives every hit as a column, in order, unless there is a fault; then it fails
with the first. What is wrong with a table or a column that does not fit is no fault, and no such table
is asked for its columns. In a named catalog a statement finds nothing, whatever its source answers. -/
theorem collect_shows_hits (s : ColumnSearch) (source : Source) :
    (∀ found, s.collect source = .ok found ↔
      s.faults source = [] ∧ List.Forall₂ ColumnHit.Shows (s.hits source) found) ∧
    (∀ e, s.collect source = .error e ↔ (s.faults source).head? = some e) ∧
    ((∃ e, s.collect source = .error e) ↔ s.Fails source) ∧
    (∀ other, s.AsksAlike source other → s.collect other = s.collect source) ∧
    ∀ (settings : Settings) (statement : Statement),
      let layout := Layout.columnList settings.limits
      (NoCatalog s.catalog → ∀ found, s.collect source = .ok found →
        statement.query settings source (.columns s) =
          (.ok .done, .showing layout.columns (found.map layout.row))) ∧
      (NoCatalog s.catalog → ∀ e, s.collect source = .error e →
        statement.query settings source (.columns s) = (.error (.refused e), .failed e)) ∧
      (¬ NoCatalog s.catalog →
        statement.query settings source (.columns s) = (.ok .done, .showing layout.columns [])) := by
  have hrun (settings : Settings) : (Query.columns s).answer settings source =
      (s.run source).map (Query.answer.rows (Layout.columnList settings.limits)) := rfl
  have hopen (h : NoCatalog s.catalog) : s.run source = s.collect source := if_pos (noCatalog_iff.2 h)
  refine ⟨fun found => collect_eq_ok_iff, collect_eq_error_iff, collect_fails_iff,
    fun other h => h.collect_eq, fun settings statement => ⟨?_, ?_, ?_⟩⟩
  · intro hcatalog found hfound
    exact Statement.query_of_found (hrun settings) ((hopen hcatalog).trans hfound) statement
  · intro hcatalog e he
    exact Statement.query_of_not_found (hrun settings) ((hopen hcatalog).trans he) statement
  · intro hcatalog
    have hnone : s.run source = .ok [] := if_neg (hcatalog ∘ noCatalog_iff.1)
    exact Statement.query_of_found (hrun settings) hnone statement

/-- The other table cannot be described in one of the sources, and in both a column that does not fit has a
type that there is not. -/
theorem collect_reads_fitting_tables :
    let s : ColumnSearch := { table := some "T", column := some "y" }
    let columns : List DeclaredColumn := [⟨"x", 999, {}, true⟩, ⟨"y", 9, {}, false⟩]
    let source : Source := ⟨.ok [⟨"a", "S"⟩, ⟨"a", "T"⟩], fun _ => .ok columns⟩
    let other : Source := ⟨.ok [⟨"a", "S"⟩, ⟨"a", "T"⟩], fun t =>
      if t.name = "T" then .ok columns else .error (.provider "gone")⟩
    s.AsksAlike source other ∧ s.collect other = s.collect source ∧
      (s.collect other).map (List.map Column.ordinal) = .ok [2] := by
  intro s columns source other
  have hfits : ¬ TableRef.Fits ⟨"a", "S"⟩ s.schema s.table := by decide +kernel
  have halike : s.AsksAlike source other := by
    refine ⟨rfl, fun tables htables t ht hfit => ?_⟩
    obtain rfl := Except.ok.inj htables
    obtain rfl | ht := List.mem_cons.1 ht
    · exact absurd hfit hfits
    · obtain rfl := List.mem_singleton.1 ht
      rfl
  have hcollect := (collect_shows_hits s source).2.2.2.1 other halike
  exact ⟨halike, hcollect, by rw [hcollect]; decide +kernel⟩

end ColumnSearch
end CacheCatalog
