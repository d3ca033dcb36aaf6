import CacheCatalog.Proofs.Numbering
import CacheCatalog.Proofs.Patterns
import CacheCatalog.Search
import CacheCatalog.Store
import Mathlib.Data.List.Nodup

/-! Two ways to the columns of one table. In a store where no other table has its names in another
letter case, a search for these names, escaped, finds what a projection of the whole table shows, or
fails as that does. -/
namespace CacheCatalog

theorem Keyed.nodup_keys {κ ν : Type} [Ord κ] [Std.ReflOrd κ] (m : Keyed κ ν) : m.keys.Nodup := by
  refine m.ascending.imp fun {a b} hlt heq => ?_
  have heq' : compare a b = .eq := heq ▸ Std.ReflOrd.compare_self
  rw [heq'] at hlt
  cases hlt

theorem filter_eq_singleton {α : Type} [DecidableEq α] {l : List α} {a : α} {p : α → Bool}
    (hnodup : l.Nodup) (hmem : a ∈ l) (hp : ∀ b ∈ l, p b = true ↔ b = a) : l.filter p = [a] := by
  have hfilter : l.filter p = l.filter (· == a) := by
    refine List.filter_congr fun b hb => ?_
    rw [Bool.eq_iff_iff, hp b hb, beq_iff_eq]
  rw [hfilter, List.filter_beq, List.count_eq_one_of_mem hnodup hmem]
  rfl

theorem TableRef.ofName_append {schema : String} (defaultSchema name : String)
    (h : '.' ∉ schema.toList) :
    TableRef.ofName defaultSchema (schema ++ "." ++ name) = ⟨schema, name⟩ := by
  have hplain : ∀ c ∈ schema.toList, (c != '.') = true := by
    intro c hc
    rw [bne_iff_ne]
    rintro rfl
    exact h hc
  have htext : (schema ++ "." ++ name).toList = schema.toList ++ '.' :: name.toList := by
    simp [String.toList_append]
  obtain ⟨htake, hdrop⟩ := takeWhile_dropWhile_of_separator name.toList hplain (c := '.') rfl
  rw [← htext] at htake hdrop
  unfold TableRef.ofName
  rw [hdrop, htake]
  simp only [String.ofList_toList]

def ColumnSearch.ofTable (t : TableRef) : ColumnSearch :=
  { schema := some (Pattern.escape t.schema), table := some (Pattern.escape t.name) }

theorem TableRef.fits_escape {t r : TableRef} (hschema : t.schema ≠ "") (hname : t.name ≠ "") :
    r.fits (some (Pattern.escape t.schema)) (some (Pattern.escape t.name)) = r.same t := by
  unfold TableRef.fits TableRef.same
  rw [Pattern.accepts_escape hschema, Pattern.accepts_escape hname, Text.sameName_comm t.schema,
    Text.sameName_comm t.name]

theorem ColumnSearch.inTable_eq_declared (search : ColumnSearch) (h : search.column = none)
    (source : Source) (t : TableRef) : search.inTable source t = Projection.declared source t := by
  unfold ColumnSearch.inTable Projection.declared
  cases source.columns t with
  | error e => rfl
  | ok columns =>
    have hall : columns.zipIdx.filter (fun x => (Pattern.ofOption search.column).accepts x.1.name) =
        columns.zipIdx := by
      rw [h]
      exact List.filter_eq_self.2 fun _ _ => Pattern.every_accepts _
    show (columns.zipIdx.filter _).mapM _ = _
    rw [hall]
    rfl

theorem ColumnSearch.run_of_one_table {search : ColumnSearch} {source : Source} {t : TableRef}
    {tables : List TableRef} (hcatalog : search.catalog = none) (htables : source.tables = .ok tables)
    (hone : tables.filter (fun t => t.fits search.schema search.table) = [t]) :
    search.run source = search.inTable source t := by
  unfold ColumnSearch.run ColumnSearch.collect
  rw [hcatalog, htables]
  show (tables.filter fun t => t.fits search.schema search.table).mapM (search.inTable source) >>=
    (fun found => pure found.flatten) = _
  -- one table gives one list to join
  rw [hone, List.mapM_cons, List.mapM_nil]
  cases search.inTable source t with
  | error e => rfl
  | ok columns => exact congrArg Except.ok (List.append_nil columns)

theorem Projection.columns_nil (source : Source) (t : TableRef) :
    Projection.columns source t [] = Projection.declared source t := by
  unfold Projection.columns
  cases Projection.declared source t <;> rfl

theorem Store.run_ofTable {store : Store} {t : TableRef} (hlisted : t ∈ store.tables)
    (hschema : t.schema ≠ "") (hname : t.name ≠ "")
    (honly : ∀ r ∈ store.tables, r.same t = true → r = t) :
    (ColumnSearch.ofTable t).run store.source = Projection.columns store.source t [] := by
  rw [Projection.columns_nil, ← ColumnSearch.inTable_eq_declared (.ofTable t) rfl]
  refine ColumnSearch.run_of_one_table rfl rfl (filter_eq_singleton store.nodup_keys hlisted ?_)
  intro r hr
  rw [ColumnSearch.ofTable, TableRef.fits_escape hschema hname]
  refine ⟨honly r hr, ?_⟩
  rintro rfl
  exact r.same_refl

theorem Projection.ordinal_of_declared {source : Source} {t : TableRef} {columns : List Column}
    (h : Projection.declared source t = .ok columns) {i : Nat} {c : Column}
    (hc : columns[i]? = some c) : c.ordinal = i + 1 ∧ i < maxColumns := by
  obtain ⟨hlength, hordinal⟩ := numbered_declared h
  obtain ⟨hi, -⟩ := List.getElem?_eq_some_iff.1 hc
  exact ⟨hordinal i c hc, Nat.lt_of_lt_of_le hi hlength⟩

theorem Projection.length_declared_le {source : Source} {t : TableRef} {columns : List Column}
    (h : Projection.declared source t = .ok columns) : columns.length ≤ maxColumns :=
  (numbered_declared h).length_le

end CacheCatalog
