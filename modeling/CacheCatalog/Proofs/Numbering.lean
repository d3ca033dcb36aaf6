import CacheCatalog.Layout
import CacheCatalog.Query
import CacheCatalog.Proofs.Results

/-! Columns numbered by their places. Whatever a list of columns is made from, the headings of an
answer, a declared table or a projection that names columns again and again, each column has the number
of its place, and there are no more of them than numbers. -/
namespace CacheCatalog

structure Column.Numbered (columns : List Column) : Prop where
  length_le : columns.length ≤ maxColumns
  ordinal : ∀ i c, columns[i]? = some c → c.ordinal = i + 1

theorem ordinalAt_eq_ok {index ordinal : Nat} :
    ordinalAt index = .ok ordinal ↔ index < maxColumns ∧ ordinal = index + 1 := by
  unfold ordinalAt
  split
  · next h => simp [h, eq_comm]
  · next h => simp [h]

theorem of_getElem?_zipIdx {α : Type} {xs : List α} {x : α} {i j : Nat}
    (h : xs.zipIdx[i]? = some (x, j)) : xs[i]? = some x ∧ j = i := by
  obtain ⟨y, hy, he⟩ := Option.map_eq_some_iff.1 (List.getElem?_zipIdx ▸ h)
  obtain ⟨rfl, rfl⟩ := Prod.mk.inj he
  exact ⟨hy, Nat.zero_add i⟩

theorem Column.of_ofDeclared_eq_ok {table : TableRef} {index : Nat} {d : DeclaredColumn} {c : Column}
    (h : Column.ofDeclared table index d = .ok c) :
    index < maxColumns ∧ ∃ type, FieldType.ofId d.typeId = .ok type ∧
      c = ⟨index + 1, d.name, table, type, d.size, if d.nullable then 1 else 0⟩ := by
  obtain ⟨ordinal, hordinal, h⟩ := bind_eq_ok.1 h
  obtain ⟨hbound, rfl⟩ := ordinalAt_eq_ok.1 hordinal
  obtain ⟨type, htype, h⟩ := bind_eq_ok.1 h
  exact ⟨hbound, type, htype, (Except.ok.inj h).symm⟩

namespace Column.Numbered

theorem nil : Numbered [] := ⟨Nat.zero_le _, fun _ _ h => by cases h⟩

theorem of_mapM {α : Type} {f : α × Nat → Except Error Column} {xs : List α} {columns : List Column}
    (h : xs.zipIdx.mapM f = .ok columns)
    (hf : ∀ x i c, f (x, i) = .ok c → i < maxColumns ∧ c.ordinal = i + 1) : Numbered columns := by
  have hplace : ∀ i c, columns[i]? = some c → i < maxColumns ∧ c.ordinal = i + 1 := by
    intro i c hc
    obtain ⟨⟨x, j⟩, hx, hcolumn⟩ := getElem?_of_mapM h hc
    obtain ⟨-, rfl⟩ := of_getElem?_zipIdx hx
    exact hf x j c hcolumn
  refine ⟨?_, fun i c hc => (hplace i c hc).2⟩
  rcases Nat.eq_zero_or_pos columns.length with hnone | hsome
  · rw [hnone]
    exact Nat.zero_le _
  · -- the last column has a number, and so have all before it
    have hlast := List.getElem?_eq_getElem (l := columns) (i := columns.length - 1) (by omega)
    have hbound := (hplace _ _ hlast).1
    omega

end Column.Numbered

open Column (Numbered)

theorem Layout.numbered_columns {α : Type} {l : Layout α} (h : l.length ≤ maxColumns) :
    Numbered l.columns := by
  refine ⟨by rwa [length_columns], fun i c hc => ?_⟩
  rw [columns, List.getElem?_map] at hc
  obtain ⟨⟨f, j⟩, hf, rfl⟩ := Option.map_eq_some_iff.1 hc
  obtain ⟨-, rfl⟩ := of_getElem?_zipIdx hf
  rfl

namespace Projection
variable {source : Source} {t : TableRef} {columns : List Column}

theorem numbered_declared (h : declared source t = .ok columns) : Numbered columns := by
  obtain ⟨d, -, h⟩ := bind_eq_ok.1 h
  refine .of_mapM h fun x i c hc => ?_
  obtain ⟨hbound, type, -, rfl⟩ := Column.of_ofDeclared_eq_ok hc
  exact ⟨hbound, rfl⟩

theorem numbered_columns {names : List String} (h : Projection.columns source t names = .ok columns) :
    Numbered columns := by
  obtain ⟨all, hall, h⟩ := bind_eq_ok.1 h
  split at h
  · obtain rfl := Except.ok.inj h
    exact numbered_declared hall
  · refine .of_mapM h fun name i c hc => ?_
    dsimp only [entry] at hc
    split at hc
    · cases hc
    · obtain ⟨n, hn, rfl⟩ := map_eq_ok.1 hc
      exact ordinalAt_eq_ok.1 hn

end Projection
end CacheCatalog
