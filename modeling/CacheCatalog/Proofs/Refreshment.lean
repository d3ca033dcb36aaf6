import CacheCatalog.Proofs.Buffers

/-! What a row does to bound buffers, one by one. The buffers take their cells in the order of their
columns, as far as the first cell that does not convert: the buffers before it hold what reading their
cells gives, and it and those after it are as they were, like all whose columns the row does not reach. -/
namespace CacheCatalog

namespace Bindings

structure StopsAt (bs : Bindings) (row : Row) (k : Nat) (e : Error) : Prop where
  fails : ∃ b cell, bs.get? k = some b ∧ row[k - 1]? = some cell ∧
    cell.read b.target b.capacity 0 = .error (.refused e)
  least : ∀ n b cell, n < k → bs.get? n = some b → row[n - 1]? = some cell →
    ∃ p, cell.read b.target b.capacity 0 = .ok p

structure Refreshed (row : Row) (reached : Nat → Prop) (old new : Bindings) : Prop where
  unbound : ∀ n, old.get? n = none → new.get? n = none
  stored : ∀ n b, old.get? n = some b → reached n → n ≤ row.length →
    ∃ cell p, row[n - 1]? = some cell ∧ cell.read b.target b.capacity 0 = .ok p ∧
      new.get? n = some ⟨b.target, b.capacity, p.data, some p.indicator, p.truncated⟩
  kept : ∀ n b, old.get? n = some b → ¬ (reached n ∧ n ≤ row.length) → new.get? n = some b

section Refresh
variable {row : Row} {bs new : Bindings} {before rest : List (Nat × Binding)}

theorem refreshed_of_split {reached : Nat → Prop} (hold : bs.entries = before ++ rest)
    (hnew : new.entries = before.map (fun x => (x.1, x.2.taking row x.1)) ++ rest)
    (htakes : ∀ x ∈ before, ∀ e, ¬ row.Stops x.1 x.2 e) (hfirst : ∀ x ∈ before, 1 ≤ x.1)
    (hbefore : ∀ x ∈ before, reached x.1) (hrest : ∀ x ∈ rest, ¬ reached x.1) :
    Refreshed row reached bs new := by
  -- a number stands once among the entries, so what is in either part is found under it
  have htaken : ∀ n b, (n, b) ∈ before → new.get? n = some (b.taking row n) := by
    intro n b hb
    rw [Keyed.get?_eq_some_iff, hnew]
    exact List.mem_append_left rest (List.mem_map_of_mem hb)
  have hleft : ∀ n b, (n, b) ∈ rest → new.get? n = some b := by
    intro n b hb
    rw [Keyed.get?_eq_some_iff, hnew]
    exact List.mem_append_right _ hb
  have hmem : ∀ n b, bs.get? n = some b → (n, b) ∈ before ∨ (n, b) ∈ rest := by
    intro n b hb
    rw [Keyed.get?_eq_some_iff, hold] at hb
    exact List.mem_append.1 hb
  refine ⟨fun n hn => ?unbound, fun n b hb hreached hrow => ?stored, fun n b hb hnot => ?kept⟩
  case unbound =>
    refine Option.eq_none_iff_forall_ne_some.2 fun b hb => ?_
    rw [Keyed.get?_eq_some_iff, hnew, List.mem_append, List.mem_map] at hb
    have hbound : ∃ b, (n, b) ∈ bs.entries := by
      rw [hold]
      obtain ⟨⟨m, a⟩, ha, heq⟩ | hb := hb
      · obtain ⟨rfl, -⟩ := Prod.mk.inj heq
        exact ⟨a, List.mem_append_left rest ha⟩
      · exact ⟨b, List.mem_append_right before hb⟩
    obtain ⟨a, ha⟩ := hbound
    rw [Keyed.get?_eq_some_iff.2 ha] at hn
    cases hn
  case stored =>
    obtain hb | hb := hmem n b hb
    · have hpos := hfirst (n, b) hb
      have hcell := List.getElem?_eq_getElem (l := row) (i := n - 1) (by omega)
      obtain ⟨p, hread⟩ := (Cell.exists_read_zero_iff (k := b.capacity)).2 fun e hunfit =>
        htakes (n, b) hb e ⟨_, hcell, hunfit⟩
      refine ⟨_, p, hcell, hread, ?_⟩
      rw [htaken n b hb, Binding.taking_of_read hcell hread]
      rfl
    · exact absurd hreached (hrest (n, b) hb)
  case kept =>
    obtain hb | hb := hmem n b hb
    · have hpos := hfirst (n, b) hb
      have hbeyond : ¬ n ≤ row.length := fun hrow => hnot ⟨hbefore (n, b) hb, hrow⟩
      have hnone : row[n - 1]? = none := List.getElem?_eq_none_iff.2 (by omega)
      rw [htaken n b hb, Binding.taking_of_none hnone]
    · exact hleft n b hb

theorem refresh_of_taking (hfirst : ∀ n ∈ bs.keys, 1 ≤ n)
    (htakes : ∀ x ∈ bs.entries, ∀ e, ¬ row.Stops x.1 x.2 e) :
    ∃ ns, (bs.refresh row).1 = .ok ns ∧ Refreshed row (fun _ => True) bs (bs.refresh row).2 ∧
      ns.Pairwise (· < ·) ∧
      ∀ n, n ∈ ns ↔ n ≤ row.length ∧ ∃ b, (bs.refresh row).2.get? n = some b ∧ b.truncated = true := by
  have hpos : ∀ x ∈ bs.entries, 1 ≤ x.1 := fun x hx => hfirst x.1 (List.mem_map_of_mem hx)
  obtain ⟨houtcome, hentries⟩ := Prod.ext_iff.1 (Binding.refresh_of_taking htakes)
  have hnew : (bs.refresh row).2.entries = bs.entries.map fun x => (x.1, x.2.taking row x.1) := hentries
  refine ⟨_, houtcome, ?refreshed, ?ascending, fun n => ?truncated⟩
  case refreshed =>
    exact refreshed_of_split (List.append_nil _).symm (hnew.trans (List.append_nil _).symm) htakes hpos
      (fun _ _ => trivial) fun _ hx => by cases hx
  case ascending => exact bs.keys_ascending.sublist (List.filter_sublist.map Prod.fst)
  case truncated =>
    -- columns count from one, the cells of a row from zero
    have hplace : ∀ x ∈ bs.entries, x.2.truncates row x.1 = true ↔
        x.1 ≤ row.length ∧ (x.2.taking row x.1).truncated = true := by
      intro x hx
      have := hpos x hx
      rw [Binding.truncates, Bool.and_eq_true, decide_eq_true_iff]
      exact and_congr_left' ⟨fun h => by omega, fun h => by omega⟩
    simp only [Keyed.get?_eq_some_iff, hnew, List.mem_map, List.mem_filter]
    constructor
    · rintro ⟨x, ⟨hx, htruncates⟩, rfl⟩
      obtain ⟨hrow, htruncated⟩ := (hplace x hx).1 htruncates
      exact ⟨hrow, _, ⟨x, hx, rfl⟩, htruncated⟩
    · rintro ⟨hrow, b, ⟨x, hx, heq⟩, htruncated⟩
      obtain ⟨rfl, rfl⟩ := Prod.mk.inj heq
      exact ⟨x, ⟨hx, (hplace x hx).2 ⟨hrow, htruncated⟩⟩, rfl⟩

theorem refresh_of_stops {k : Nat} {b : Binding} {e : Error} (hfirst : ∀ n ∈ bs.keys, 1 ≤ n)
    (hsplit : bs.entries = before ++ (k, b) :: rest)
    (htakes : ∀ x ∈ before, ∀ e, ¬ row.Stops x.1 x.2 e) (hstops : row.Stops k b e)
    (hnew : (bs.refresh row).2.entries =
      before.map (fun x => (x.1, x.2.taking row x.1)) ++ (k, b) :: rest) :
    bs.StopsAt row k e ∧ Refreshed row (· < k) bs (bs.refresh row).2 := by
  obtain ⟨hearlier, hlater⟩ := keys_around hsplit
  have hpos : ∀ x ∈ before, 1 ≤ x.1 := by
    intro x hx
    refine hfirst x.1 (List.mem_map_of_mem ?_)
    rw [hsplit]
    exact List.mem_append_left _ hx
  refine ⟨⟨?fails, ?least⟩, refreshed_of_split hsplit hnew htakes hpos hearlier hlater⟩
  case fails =>
    obtain ⟨cell, hcell, hunfit⟩ := hstops
    exact ⟨b, cell, get?_of_split hsplit, hcell, Cell.read_zero_of_unfit hunfit b.capacity⟩
  case least =>
    intro n a cell hn ha hcell
    have hbefore := mem_before_of_lt hsplit ha hn
    exact Cell.exists_read_zero_iff.2 fun e' hunfit => htakes (n, a) hbefore e' ⟨cell, hcell, hunfit⟩

theorem refresh_spec (hfirst : ∀ n ∈ bs.keys, 1 ≤ n) (row : Row) :
    (∃ k e, bs.StopsAt row k e ∧ (bs.refresh row).1 = .error e ∧
      Refreshed row (· < k) bs (bs.refresh row).2) ∨
    (∀ k e, ¬ bs.StopsAt row k e) ∧ ∃ ns, (bs.refresh row).1 = .ok ns ∧
      Refreshed row (fun _ => True) bs (bs.refresh row).2 ∧ ns.Pairwise (· < ·) ∧
      ∀ n, n ∈ ns ↔ n ≤ row.length ∧ ∃ b, (bs.refresh row).2.get? n = some b ∧ b.truncated = true := by
  obtain ⟨before, k, b, rest, e, hsplit, htakes, hstops, hrefresh⟩ | ⟨htakes, -⟩ :=
    Binding.refresh_cases row bs.entries
  · obtain ⟨houtcome, hnew⟩ := Prod.ext_iff.1 hrefresh
    obtain ⟨hstopsAt, hrefreshed⟩ := refresh_of_stops hfirst hsplit htakes hstops hnew
    exact .inl ⟨k, e, hstopsAt, houtcome, hrefreshed⟩
  · refine .inr ⟨?_, refresh_of_taking hfirst htakes⟩
    rintro k e ⟨⟨b, cell, hb, hcell, hread⟩, -⟩
    rw [Keyed.get?_eq_some_iff] at hb
    exact htakes (k, b) hb e ⟨cell, hcell, Cell.read_zero_eq_refused_iff.1 hread⟩

end Refresh
end Bindings
end CacheCatalog
