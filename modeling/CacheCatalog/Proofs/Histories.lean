import CacheCatalog.Proofs.Answers
import CacheCatalog.Proofs.SingleTable

/-! A store after any changes. It lists the tables whose last change, by their exact names, was a
registration, and keeps the columns of that one; but a table is described by the first of those that
have its names in any letter case, which need not be the table itself. -/
namespace CacheCatalog

inductive StoreChange where
  | register (table : TableRef) (columns : List DeclaredColumn)
  | drop (table : TableRef)
  deriving DecidableEq, Repr

namespace StoreChange

def table : StoreChange → TableRef
  | register t _ => t
  | drop t => t

def columns? : StoreChange → Option (List DeclaredColumn)
  | register _ columns => some columns
  | drop _ => none

def registered? (changes : List StoreChange) (t : TableRef) : Option (List DeclaredColumn) :=
  (changes.reverse.find? fun change => change.table = t).bind columns?

theorem registered?_concat (changes : List StoreChange) (change : StoreChange) (t : TableRef) :
    registered? (changes ++ [change]) t =
      if change.table = t then change.columns? else registered? changes t := by
  unfold registered?
  rw [List.reverse_concat, List.find?_cons]
  by_cases h : change.table = t <;> simp [h]

end StoreChange

open StoreChange (registered?)

namespace Store

def change (s : Store) : StoreChange → Store
  | .register t columns => s.register t columns
  | .drop t => s.drop t

def ofChanges (changes : List StoreChange) : Store := changes.foldl change Keyed.empty

theorem ofChanges_concat (changes : List StoreChange) (c : StoreChange) :
    ofChanges (changes ++ [c]) = (ofChanges changes).change c := by
  rw [ofChanges, ofChanges, List.foldl_append]
  rfl

theorem get?_change (s : Store) (c : StoreChange) (t : TableRef) :
    (s.change c).get? t = if c.table = t then c.columns? else s.get? t := by
  cases c with
  | register table columns =>
    rw [change, register, Keyed.get?_insert]
    simp only [Std.compare_eq_iff_eq]
    rfl
  | drop table =>
    rw [change, drop, Keyed.get?_erase]
    simp only [Std.compare_eq_iff_eq]
    rfl

theorem get?_ofChanges (changes : List StoreChange) (t : TableRef) :
    (ofChanges changes).get? t = registered? changes t := by
  induction changes using List.reverseRecOn with
  | nil => exact Keyed.get?_empty t
  | append_singleton changes c ih =>
    rw [ofChanges_concat, get?_change, StoreChange.registered?_concat, ih]

structure FirstSame (s : Store) (t first : TableRef) : Prop where
  listed : first ∈ s.tables
  same : first.same t = true
  least : ∀ r ∈ s.tables, r.same t = true → r = first ∨ compare first r = .lt

theorem FirstSame.eq {s : Store} {t first : TableRef} (h : s.FirstSame t first)
    (honly : ∀ r ∈ s.tables, r.same t = true → r = t) : first = t :=
  honly first h.listed h.same

theorem exists_firstSame {s : Store} {t : TableRef} {columns : List DeclaredColumn}
    (h : s.columns t = .ok columns) : ∃ first, s.FirstSame t first ∧ s.get? first = some columns := by
  unfold Store.columns at h
  split at h
  · next e hfind =>
    obtain rfl := Except.ok.inj h
    obtain ⟨hsame, earlier, later, hentries, hearlier⟩ := List.find?_eq_some_iff_append.1 hfind
    have hmem : e ∈ s.entries := by simp [hentries]
    refine ⟨e.1, ⟨List.mem_map_of_mem hmem, hsame, fun r hr hother => ?_⟩,
      Keyed.get?_eq_some_iff.2 hmem⟩
    -- what is listed before the first fitting table does not fit, what is listed after it is greater
    have hascending := s.ascending
    rw [hentries, List.map_append, List.map_cons, List.pairwise_append, List.pairwise_cons]
      at hascending
    obtain ⟨x, hx, rfl⟩ := List.mem_map.1 hr
    rw [hentries, List.mem_append, List.mem_cons] at hx
    obtain hx | rfl | hx := hx
    · have hnot := hearlier x hx
      rw [hother] at hnot
      cases hnot
    · exact .inl rfl
    · exact .inr (hascending.2.1.1 x.1 (List.mem_map_of_mem hx))
  · cases h

theorem exists_columns {s : Store} {t : TableRef} (h : t ∈ s.tables) :
    ∃ columns, s.columns t = .ok columns := by
  unfold Store.columns
  split
  · exact ⟨_, rfl⟩
  · next hnone =>
    obtain ⟨e, he, rfl⟩ := List.mem_map.1 h
    have hnot := List.find?_eq_none.1 hnone e he
    exact absurd e.1.same_refl hnot

theorem mem_tables_ofChanges_iff {changes : List StoreChange} {t : TableRef} :
    t ∈ (ofChanges changes).tables ↔ ∃ columns, registered? changes t = some columns := by
  rw [← get?_ofChanges]
  exact Keyed.mem_keys_iff

/-- After any changes: a listed table is described by the columns last registered for the first table
of its names in any letter case, and so by its own if no other listed table has these; and what a
search shows of a table is made from the columns that it is described by. -/
theorem columns_of_firstSame (changes : List StoreChange) :
    let s := ofChanges changes
    (∀ t, t ∈ s.tables ↔ ∃ own, registered? changes t = some own) ∧
    (∀ t ∈ s.tables, ∃ first columns, s.FirstSame t first ∧
      registered? changes first = some columns ∧ s.columns t = .ok columns) ∧
    (∀ t ∈ s.tables, (∀ r ∈ s.tables, r.same t = true → r = t) →
      ∃ own, registered? changes t = some own ∧ s.columns t = .ok own) ∧
    ∀ (search : ColumnSearch) (found : List Column), search.run s.source = .ok found →
      ∀ c ∈ found, ∃ first columns i d, c.table ∈ s.tables ∧ s.FirstSame c.table first ∧
        registered? changes first = some columns ∧ columns[i]? = some d ∧
        Column.ofDeclared c.table i d = .ok c := by
  intro s
  have hdescribed : ∀ t columns, s.columns t = .ok columns →
      ∃ first, s.FirstSame t first ∧ registered? changes first = some columns := by
    intro t columns hcolumns
    obtain ⟨first, hfirst, hget⟩ := exists_firstSame hcolumns
    exact ⟨first, hfirst, get?_ofChanges changes first ▸ hget⟩
  refine ⟨fun t => mem_tables_ofChanges_iff, fun t ht => ?_, fun t ht honly => ?_, ?_⟩
  · obtain ⟨columns, hcolumns⟩ := exists_columns ht
    obtain ⟨first, hfirst, hregistered⟩ := hdescribed t columns hcolumns
    exact ⟨first, columns, hfirst, hregistered, hcolumns⟩
  · obtain ⟨columns, hcolumns⟩ := exists_columns ht
    obtain ⟨first, hfirst, hregistered⟩ := hdescribed t columns hcolumns
    rw [hfirst.eq honly] at hregistered
    exact ⟨columns, hregistered, hcolumns⟩
  · intro search found hfound c hc
    obtain ⟨_, t, columns, i, d, htables, ht, hcolumns, hd, hcolumn⟩ :=
      ColumnSearch.exists_declared_of_run hfound hc
    obtain rfl := Except.ok.inj htables
    obtain ⟨-, _, -, rfl⟩ := Column.of_ofDeclared_eq_ok hcolumn
    obtain ⟨first, hfirst, hregistered⟩ := hdescribed t columns hcolumns
    exact ⟨first, columns, i, d, ht, hfirst, hregistered, hd, hcolumn⟩

theorem columns_after_drop :
    let changes : List StoreChange := [.register ⟨"S", "T"⟩ [⟨"A", 9, {}, true⟩],
      .register ⟨"S", "t"⟩ [⟨"B", 9, {}, true⟩], .register ⟨"S", "t"⟩ [⟨"C", 4, {}, true⟩],
      .drop ⟨"S", "T"⟩]
    let s := ofChanges changes
    (⟨"S", "t"⟩ : TableRef) ∈ s.tables ∧ (∀ r ∈ s.tables, r.same ⟨"S", "t"⟩ = true → r = ⟨"S", "t"⟩) ∧
    (∃ own, registered? changes ⟨"S", "t"⟩ = some own ∧ s.columns ⟨"S", "t"⟩ = .ok own) ∧
    registered? changes ⟨"S", "t"⟩ = some [⟨"C", 4, {}, true⟩] := by
  intro changes s
  have hlisted : (⟨"S", "t"⟩ : TableRef) ∈ s.tables := by decide +kernel
  have honly : ∀ r ∈ s.tables, r.same ⟨"S", "t"⟩ = true → r = ⟨"S", "t"⟩ := by decide +kernel
  obtain ⟨-, -, hown, -⟩ := columns_of_firstSame changes
  exact ⟨hlisted, honly, hown _ hlisted honly, by decide +kernel⟩

theorem not_every_table_is_described_by_its_columns :
    ¬ ∀ (changes : List StoreChange) (t : TableRef), t ∈ (ofChanges changes).tables →
      ∃ own, registered? changes t = some own ∧ (ofChanges changes).columns t = .ok own := by
  intro h
  let changes : List StoreChange := [.register ⟨"S", "T"⟩ [⟨"A", 9, {}, true⟩],
    .register ⟨"S", "t"⟩ [⟨"B", 9, {}, true⟩]]
  have hlisted : (⟨"S", "t"⟩ : TableRef) ∈ (ofChanges changes).tables := by decide +kernel
  have hregistered : registered? changes ⟨"S", "t"⟩ = some [⟨"B", 9, {}, true⟩] := by decide +kernel
  have hcolumns : (ofChanges changes).columns ⟨"S", "t"⟩ = .ok [⟨"A", 9, {}, true⟩] := by
    decide +kernel
  obtain ⟨own, hown, hsame⟩ := h changes ⟨"S", "t"⟩ hlisted
  rw [hregistered] at hown
  rw [hcolumns] at hsame
  obtain rfl := Option.some.inj hown
  simp at hsame

end Store
end CacheCatalog
