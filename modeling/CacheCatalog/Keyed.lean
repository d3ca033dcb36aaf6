/-!
Finite maps kept as lists in the ascending order of their keys, so that what is listed comes out
in one order whatever the order in which it was put in.
-/
namespace CacheCatalog

structure Keyed (κ : Type) (ν : Type) [Ord κ] where
  entries : List (κ × ν)
  ascending : (entries.map Prod.fst).Pairwise fun a b => compare a b = .lt
  deriving DecidableEq

namespace Keyed
variable {κ ν : Type} [Ord κ]

def empty : Keyed κ ν := ⟨[], List.Pairwise.nil⟩

instance : Inhabited (Keyed κ ν) := ⟨empty⟩

def keys (m : Keyed κ ν) : List κ := m.entries.map Prod.fst

def get? (m : Keyed κ ν) (k : κ) : Option ν :=
  (m.entries.find? fun e => compare e.1 k == .eq).map Prod.snd

def put (k : κ) (v : ν) : List (κ × ν) → List (κ × ν)
  | [] => [(k, v)]
  | e :: es =>
    match compare k e.1 with
    | .lt => (k, v) :: e :: es
    | .eq => (k, v) :: es
    | .gt => e :: put k v es

theorem mem_keys_put {k a : κ} {v : ν} {es : List (κ × ν)}
    (h : a ∈ (put k v es).map Prod.fst) : a = k ∨ a ∈ es.map Prod.fst := by
  induction es with
  | nil => simpa [put] using h
  | cons e es ih =>
    simp only [put] at h
    split at h <;> simp only [List.map_cons, List.mem_cons] at h ih ⊢
    · exact h
    · exact h.imp id Or.inr
    · exact h.elim (Or.inr ∘ Or.inl) fun h => (ih h).imp id Or.inr

theorem ascending_put [Std.TransOrd κ] [Std.LawfulEqOrd κ] (k : κ) (v : ν) {es : List (κ × ν)}
    (h : (es.map Prod.fst).Pairwise fun a b => compare a b = .lt) :
    ((put k v es).map Prod.fst).Pairwise fun a b => compare a b = .lt := by
  induction es with
  | nil => simp [put]
  | cons e es ih =>
    rw [List.map_cons, List.pairwise_cons] at h
    simp only [put]
    split <;> rename_i hk <;> simp only [List.map_cons, List.pairwise_cons]
    · refine ⟨fun a ha => ?_, h⟩
      rcases List.mem_cons.1 ha with rfl | ha
      · exact hk
      · exact Std.TransCmp.lt_trans hk (h.1 a ha)
    · exact ⟨fun a ha => Std.LawfulEqCmp.eq_of_compare hk ▸ h.1 a ha, h.2⟩
    · refine ⟨fun a ha => ?_, ih h.2⟩
      rcases mem_keys_put ha with rfl | ha
      · exact Std.OrientedCmp.lt_of_gt hk
      · exact h.1 a ha

def insert [Std.TransOrd κ] [Std.LawfulEqOrd κ] (m : Keyed κ ν) (k : κ) (v : ν) : Keyed κ ν :=
  ⟨put k v m.entries, ascending_put k v m.ascending⟩

def erase (m : Keyed κ ν) (k : κ) : Keyed κ ν :=
  ⟨m.entries.filter fun e => compare e.1 k != .eq,
    m.ascending.sublist (List.filter_sublist.map Prod.fst)⟩

def contains (m : Keyed κ ν) (k : κ) : Bool := (m.get? k).isSome

theorem get?_eq_some_iff [Std.LawfulEqOrd κ] {m : Keyed κ ν} {k : κ} {v : ν} :
    m.get? k = some v ↔ (k, v) ∈ m.entries := by
  obtain ⟨es, hes⟩ := m
  simp only [get?]
  induction es with
  | nil => simp
  | cons e es ih =>
    obtain ⟨a, w⟩ := e
    rw [List.map_cons, List.pairwise_cons] at hes
    rw [List.mem_cons]
    by_cases h : compare a k = .eq
    · obtain rfl := Std.LawfulEqCmp.eq_of_compare h
      have hlater : (a, v) ∉ es := by
        intro hmem
        have hlt := hes.1 a (List.mem_map_of_mem hmem)
        rw [h] at hlt
        cases hlt
      simp [hlater, eq_comm]
    · have hne : k ≠ a := by
        rintro rfl
        exact h Std.ReflCmp.compare_self
      rw [List.find?_cons_of_neg (by simp [h]), ih hes.2]
      simp [hne]

theorem mem_keys_iff [Std.LawfulEqOrd κ] {m : Keyed κ ν} {k : κ} :
    k ∈ m.keys ↔ ∃ v, m.get? k = some v := by
  simp only [keys, List.mem_map, get?_eq_some_iff]
  constructor
  · rintro ⟨⟨a, v⟩, hmem, rfl⟩
    exact ⟨v, hmem⟩
  · rintro ⟨v, hmem⟩
    exact ⟨(k, v), hmem, rfl⟩

theorem get?_empty (k : κ) : (empty : Keyed κ ν).get? k = none := rfl

theorem get?_insert [Std.TransOrd κ] [Std.LawfulEqOrd κ] (m : Keyed κ ν) (k : κ) (v : ν) (a : κ) :
    (m.insert k v).get? a = if compare k a = .eq then some v else m.get? a := by
  simp only [get?, insert]
  induction m.entries with
  | nil => by_cases h : compare k a = .eq <;> simp [put, h]
  | cons e es ih =>
    simp only [put]
    split <;> rename_i hk
    · by_cases h : compare k a = .eq <;> simp [h]
    · by_cases h : compare k a = .eq
      · simp [h]
      · have : compare e.1 a ≠ .eq := by
          rwa [← Std.LawfulEqCmp.eq_of_compare hk]
        simp [h, this]
    · by_cases he : compare e.1 a = .eq
      · have h : compare k a ≠ .eq := by
          rw [← Std.LawfulEqCmp.eq_of_compare he, hk]
          decide
        simp [h, he]
      · simpa [List.find?_cons, he] using ih

theorem get?_erase [Std.TransOrd κ] [Std.LawfulEqOrd κ] (m : Keyed κ ν) (k a : κ) :
    (m.erase k).get? a = if compare k a = .eq then none else m.get? a := by
  simp only [get?, erase]
  induction m.entries with
  | nil => simp
  | cons e es ih =>
    by_cases hk : compare e.1 k = .eq
    · by_cases h : compare k a = .eq
      · simpa [hk, h] using ih
      · have he : compare e.1 a ≠ .eq := by rwa [Std.LawfulEqCmp.eq_of_compare hk]
        simpa [hk, h, he] using ih
    · by_cases he : compare e.1 a = .eq
      · have h : compare k a ≠ .eq := fun h =>
          hk (by rw [Std.LawfulEqCmp.eq_of_compare he, ← Std.LawfulEqCmp.eq_of_compare h]; simp)
        simp [hk, he, h]
      · simpa [hk, he] using ih

end Keyed
end CacheCatalog
