import CacheCatalog.Binding
import CacheCatalog.Proofs.Results

/-! What a row does to bound buffers as a whole. It leaves the columns, the forms and the sizes of the
buffers alone, and it comes to an error only at a buffer that cannot take its cell. -/
namespace CacheCatalog

inductive Cell.Unfit (cell : Cell) : Target → Error → Prop
  | notInteger {w : IntegerWidth} (hcell : cell ≠ .null) (hvalue : cell.integer? = none) :
    Unfit cell (.integer w) (.notInteger cell.display)
  | outOfRange {w : IntegerWidth} {v : Int} (hvalue : cell.integer? = some v)
      (hwidth : Text.fitsSigned (8 * w.bytes) v = false) :
    Unfit cell (.integer w) (.outOfRange v (Target.integer w).code)

theorem Cell.content_eq_error_iff {cell : Cell} {t : Target} {e : Error} :
    cell.content t = .error e ↔ cell.Unfit t e := by
  constructor
  · intro h
    cases t with
    | text encoding => cases cell <;> cases h
    | integer w =>
      have hcell : cell ≠ .null := by
        rintro rfl
        cases h
      unfold content at h
      split at h
      · exact absurd rfl hcell
      · next heq => cases heq
      · next w' _ heq =>
        obtain rfl := Target.integer.inj heq
        split at h
        · next hvalue =>
          obtain rfl := Except.error.inj h
          exact .notInteger hcell hvalue
        · next v hvalue =>
          split at h
          · cases h
          · next hwidth =>
            obtain rfl := Except.error.inj h
            exact .outOfRange hvalue (Bool.eq_false_iff.2 hwidth)
  · intro h
    cases h with
    | notInteger hcell hvalue =>
      cases cell with
      | null => exact absurd rfl hcell
      | int v => cases hvalue
      | text s => simp only [content, hvalue]
    | outOfRange hvalue hwidth =>
      cases cell with
      | null => cases hvalue
      | int v | text s => simp [content, hvalue, hwidth]

theorem Cell.Unfit.unique {cell : Cell} {t : Target} {e e' : Error} (h : cell.Unfit t e)
    (h' : cell.Unfit t e') : e = e' :=
  Except.error.inj ((content_eq_error_iff.2 h).symm.trans (content_eq_error_iff.2 h'))

theorem Content.skip_zero (content : Content) : content.skip 0 = some content := by
  cases content with
  | null => rfl
  | fixed bytes => rfl
  | text e cs =>
    dsimp only [Content.skip]
    rw [Nat.zero_div, Nat.zero_mul]
    cases cs <;> rfl

namespace Cell
variable {cell : Cell} {t : Target}

theorem read_zero_of_content {content : Content} (h : cell.content t = .ok content) (k : Nat) :
    cell.read t k 0 = .ok (content.write k) := by
  simp only [read, h, content.skip_zero]

theorem read_of_unfit {e : Error} (h : cell.Unfit t e) (k offset : Nat) :
    cell.read t k offset = .error (.refused e) := by
  simp only [read, content_eq_error_iff.2 h]

theorem read_zero_of_unfit {e : Error} (h : cell.Unfit t e) (k : Nat) :
    cell.read t k 0 = .error (.refused e) := read_of_unfit h k 0

theorem exists_read_zero_iff {k : Nat} :
    (∃ p, cell.read t k 0 = .ok p) ↔ ∀ e, ¬ cell.Unfit t e := by
  constructor
  · rintro ⟨p, hp⟩ e hunfit
    cases hp.symm.trans (read_zero_of_unfit hunfit k)
  · intro hfit
    cases hcontent : cell.content t with
    | error e => exact absurd (content_eq_error_iff.1 hcontent) (hfit e)
    | ok content => exact ⟨_, read_zero_of_content hcontent k⟩

theorem read_zero_eq_refused_iff {k : Nat} {e : Error} :
    cell.read t k 0 = .error (.refused e) ↔ cell.Unfit t e := by
  refine ⟨fun h => ?_, fun h => read_zero_of_unfit h k⟩
  cases hcontent : cell.content t with
  | error e' =>
    have hunfit := content_eq_error_iff.1 hcontent
    rw [read_zero_of_unfit hunfit] at h
    obtain rfl := Fault.refused.inj (Except.error.inj h)
    exact hunfit
  | ok content =>
    rw [read_zero_of_content hcontent] at h
    cases h

end Cell

def Row.Stops (row : Row) (n : Nat) (b : Binding) (e : Error) : Prop :=
  ∃ cell, row[n - 1]? = some cell ∧ cell.Unfit b.target e

theorem Row.Stops.unique {row : Row} {n : Nat} {b : Binding} {e e' : Error} (h : row.Stops n b e)
    (h' : row.Stops n b e') : e = e' := by
  obtain ⟨cell, hcell, hunfit⟩ := h
  obtain ⟨cell', hcell', hunfit'⟩ := h'
  obtain rfl : cell = cell' := Option.some.inj (hcell.symm.trans hcell')
  exact hunfit.unique hunfit'

def Bindings.forms (bs : Bindings) : List (Nat × Target × Nat) :=
  bs.entries.map fun x => (x.1, x.2.target, x.2.capacity)

namespace Binding

theorem forms_refresh (row : Row) (bs : List (Nat × Binding)) :
    (refresh row bs).2.map (fun x => (x.1, x.2.target, x.2.capacity)) =
      bs.map fun x => (x.1, x.2.target, x.2.capacity) := by
  induction bs with
  | nil => rfl
  | cons x bs ih =>
    unfold refresh
    split
    · rw [List.map_cons, ih, List.map_cons]
    · split
      · rfl
      · rw [List.map_cons, ih, List.map_cons]
        rfl

def taking (row : Row) (n : Nat) (b : Binding) : Binding :=
  match row[n - 1]? with
  | none => b
  | some cell =>
    match cell.read b.target b.capacity 0 with
    | .ok p => b.store p
    | .error _ => b

def truncates (row : Row) (n : Nat) (b : Binding) : Bool :=
  decide (n - 1 < row.length) && (b.taking row n).truncated

section Taking
variable {row : Row} {n : Nat} {b : Binding}

theorem taking_of_none (h : row[n - 1]? = none) : b.taking row n = b := by
  unfold taking
  rw [h]

theorem taking_of_read {cell : Cell} {p : Piece} (hcell : row[n - 1]? = some cell)
    (hread : cell.read b.target b.capacity 0 = .ok p) : b.taking row n = b.store p := by
  unfold taking
  rw [hcell]
  dsimp only
  rw [hread]

theorem refresh_cons_of_taking (h : ∀ e, ¬ row.Stops n b e) (bs : List (Nat × Binding)) :
    refresh row ((n, b) :: bs) =
      (if b.truncates row n then (refresh row bs).1.map (n :: ·) else (refresh row bs).1,
        (n, b.taking row n) :: (refresh row bs).2) := by
  cases hcell : row[n - 1]? with
  | none =>
    have hbeyond : ¬ n - 1 < row.length := Nat.not_lt.2 (List.getElem?_eq_none_iff.1 hcell)
    have htruncates : b.truncates row n = false := by
      rw [truncates, decide_eq_false hbeyond, Bool.false_and]
    rw [htruncates, taking_of_none hcell]
    simp only [refresh, hcell]
    rfl
  | some cell =>
    have hreached : n - 1 < row.length := (List.getElem?_eq_some_iff.1 hcell).1
    cases hcontent : cell.content b.target with
    | error e => exact absurd ⟨cell, hcell, Cell.content_eq_error_iff.1 hcontent⟩ (h e)
    | ok content =>
      have htaking : b.taking row n = b.store (content.write b.capacity) :=
        taking_of_read hcell (Cell.read_zero_of_content hcontent b.capacity)
      have htruncates : b.truncates row n = (content.write b.capacity).truncated := by
        rw [truncates, decide_eq_true hreached, Bool.true_and, htaking]
        rfl
      rw [htruncates, htaking]
      simp only [refresh, hcell, hcontent]

theorem refresh_append {before : List (Nat × Binding)} (h : ∀ x ∈ before, ∀ e, ¬ row.Stops x.1 x.2 e)
    (bs : List (Nat × Binding)) :
    refresh row (before ++ bs) =
      ((refresh row bs).1.map (((before.filter fun x => x.2.truncates row x.1).map Prod.fst) ++ ·),
        before.map (fun x => (x.1, x.2.taking row x.1)) ++ (refresh row bs).2) := by
  induction before with
  | nil =>
    show refresh row bs = ((refresh row bs).1.map ([] ++ ·), (refresh row bs).2)
    cases houtcome : (refresh row bs).1 <;> rw [Prod.ext_iff] <;> exact ⟨houtcome, rfl⟩
  | cons x before ih =>
    rw [List.forall_mem_cons] at h
    rw [List.cons_append, refresh_cons_of_taking h.1, ih h.2, List.filter_cons]
    cases x.2.truncates row x.1 <;> cases (refresh row bs).1 <;> rfl

theorem refresh_of_taking {bs : List (Nat × Binding)} (h : ∀ x ∈ bs, ∀ e, ¬ row.Stops x.1 x.2 e) :
    refresh row bs = (.ok ((bs.filter fun x => x.2.truncates row x.1).map Prod.fst),
      bs.map fun x => (x.1, x.2.taking row x.1)) := by
  have happend := refresh_append h []
  rw [List.append_nil] at happend
  simpa [refresh, Except.map] using happend

theorem refresh_of_stops {e : Error} (h : row.Stops n b e) (bs : List (Nat × Binding)) :
    refresh row ((n, b) :: bs) = (.error e, (n, b) :: bs) := by
  obtain ⟨cell, hcell, hunfit⟩ := h
  simp only [refresh, hcell, Cell.content_eq_error_iff.2 hunfit]

theorem refresh_cases (row : Row) (bs : List (Nat × Binding)) :
    (∃ before n b rest e, bs = before ++ (n, b) :: rest ∧ (∀ x ∈ before, ∀ e, ¬ row.Stops x.1 x.2 e) ∧
      row.Stops n b e ∧ refresh row bs =
        (.error e, before.map (fun x => (x.1, x.2.taking row x.1)) ++ (n, b) :: rest)) ∨
    (∀ x ∈ bs, ∀ e, ¬ row.Stops x.1 x.2 e) ∧
      refresh row bs = (.ok ((bs.filter fun x => x.2.truncates row x.1).map Prod.fst),
        bs.map fun x => (x.1, x.2.taking row x.1)) := by
  classical
  obtain ⟨before, rest, rfl, hbefore, hrest⟩ :=
    exists_split_while (fun x => decide (∀ e, ¬ row.Stops x.1 x.2 e)) bs
  have htakes : ∀ x ∈ before, ∀ e, ¬ row.Stops x.1 x.2 e := fun x hx => of_decide_eq_true (hbefore x hx)
  -- what is left begins with the first buffer that stops the row
  cases rest with
  | nil =>
    rw [List.append_nil]
    exact .inr ⟨htakes, refresh_of_taking htakes⟩
  | cons x rest =>
    obtain ⟨n, b⟩ := x
    have hnot := of_decide_eq_false (hrest (n, b) rfl)
    simp only [not_forall, not_not] at hnot
    obtain ⟨e, hstops⟩ := hnot
    refine .inl ⟨before, n, b, rest, e, rfl, htakes, hstops, ?_⟩
    rw [refresh_append htakes, refresh_of_stops hstops]
    rfl

end Taking
end Binding

namespace Bindings

theorem forms_refresh (row : Row) (bs : Bindings) : (bs.refresh row).2.forms = bs.forms :=
  Binding.forms_refresh row bs.entries

theorem keys_ascending (bs : Bindings) : bs.keys.Pairwise (· < ·) :=
  bs.ascending.imp fun hlt => Nat.compare_eq_lt.1 hlt

section Split
variable {bs : Bindings} {before rest : List (Nat × Binding)} {n : Nat} {b : Binding}
  (h : bs.entries = before ++ (n, b) :: rest)
include h

theorem keys_around : (∀ x ∈ before, x.1 < n) ∧ ∀ x ∈ (n, b) :: rest, ¬ x.1 < n := by
  have hascending : (bs.entries.map Prod.fst).Pairwise (· < ·) := bs.keys_ascending
  rw [h, List.map_append, List.map_cons, List.pairwise_append, List.pairwise_cons] at hascending
  obtain ⟨-, ⟨hafter, -⟩, hbetween⟩ := hascending
  refine ⟨fun x hx => hbetween x.1 (List.mem_map_of_mem hx) n List.mem_cons_self, fun x hx => ?_⟩
  obtain rfl | hx := List.mem_cons.1 hx
  · exact Nat.lt_irrefl n
  · exact Nat.lt_asymm (hafter x.1 (List.mem_map_of_mem hx))

theorem get?_of_split : bs.get? n = some b := by
  rw [Keyed.get?_eq_some_iff, h]
  exact List.mem_append_right before List.mem_cons_self

theorem mem_before_of_lt {m : Nat} {a : Binding} (ha : bs.get? m = some a) (hlt : m < n) :
    (m, a) ∈ before := by
  rw [Keyed.get?_eq_some_iff, h] at ha
  obtain ha | ha := List.mem_append.1 ha
  · exact ha
  · exact absurd hlt ((keys_around h).2 (m, a) ha)

end Split

def StoppedBy (bs : Bindings) (row : Row) (e : Error) : Prop :=
  ∃ n b, bs.get? n = some b ∧ row.Stops n b e ∧
    ∀ m a, bs.get? m = some a → m < n → ∀ e', ¬ row.Stops m a e'

theorem StoppedBy.unique {bs : Bindings} {row : Row} {e e' : Error} (h : bs.StoppedBy row e)
    (h' : bs.StoppedBy row e') : e = e' := by
  obtain ⟨n, b, hb, hstop, hleast⟩ := h
  obtain ⟨m, a, ha, hstop', hleast'⟩ := h'
  -- the later of two such buffers would not have been reached
  obtain hlt | rfl | hgt := Nat.lt_trichotomy n m
  · exact absurd hstop (hleast' n b hb hlt e)
  · obtain rfl := Option.some.inj (hb.symm.trans ha)
    exact hstop.unique hstop'
  · exact absurd hstop' (hleast m a ha hgt e')

theorem refresh_cases (row : Row) (bs : Bindings) :
    (∃ e, bs.StoppedBy row e ∧ (bs.refresh row).1 = .error e) ∨
    ((∀ n b, bs.get? n = some b → ∀ e, ¬ row.Stops n b e) ∧ ∃ ns, (bs.refresh row).1 = .ok ns) := by
  obtain ⟨before, n, b, rest, e, hsplit, htakes, hstops, hrefresh⟩ | ⟨htakes, hrefresh⟩ :=
    Binding.refresh_cases row bs.entries
  · exact .inl ⟨e, ⟨n, b, get?_of_split hsplit, hstops, fun m a ha hlt =>
      htakes (m, a) (mem_before_of_lt hsplit ha hlt)⟩, congrArg Prod.fst hrefresh⟩
  · exact .inr ⟨fun n b hb => htakes (n, b) (Keyed.get?_eq_some_iff.1 hb), _, congrArg Prod.fst hrefresh⟩

theorem refresh_ok {row : Row} {bs : Bindings}
    (h : ∀ x ∈ bs.forms, ∀ cell ∈ row[x.1 - 1]?, ∃ content, cell.content x.2.1 = .ok content) :
    ∃ ns, (bs.refresh row).1 = .ok ns := by
  obtain ⟨e, ⟨n, b, hb, ⟨cell, hcell, hunfit⟩, -⟩, -⟩ | ⟨-, hok⟩ := refresh_cases row bs
  · have hform : (n, b.target, b.capacity) ∈ bs.forms :=
      List.mem_map_of_mem (Keyed.get?_eq_some_iff.1 hb)
    obtain ⟨content, hcontent⟩ := h _ hform cell hcell
    rw [Cell.content_eq_error_iff.2 hunfit] at hcontent
    cases hcontent
  · exact hok

theorem mem_put {n : Nat} {b : Binding} {es : List (Nat × Binding)} {x : Nat × Binding}
    (h : x ∈ Keyed.put n b es) : x = (n, b) ∨ x ∈ es := by
  induction es with
  | nil => simpa [Keyed.put] using h
  | cons e es ih =>
    unfold Keyed.put at h
    split at h
    · exact List.mem_cons.1 h
    · exact (List.mem_cons.1 h).imp id (List.mem_cons_of_mem _)
    · rcases List.mem_cons.1 h with rfl | h
      · exact .inr (List.mem_cons_self ..)
      · exact (ih h).imp id (List.mem_cons_of_mem _)

theorem mem_forms_insert {n : Nat} {b : Binding} {bs : Bindings} {x : Nat × Target × Nat}
    (h : x ∈ Bindings.forms (bs.insert n b)) : x = (n, b.target, b.capacity) ∨ x ∈ bs.forms := by
  obtain ⟨y, hy, rfl⟩ := List.mem_map.1 h
  rcases mem_put hy with rfl | hy
  · exact .inl rfl
  · exact .inr (List.mem_map_of_mem hy)

theorem mem_forms_erase {n : Nat} {bs : Bindings} {x : Nat × Target × Nat}
    (h : x ∈ Bindings.forms (bs.erase n)) : x ∈ bs.forms := by
  obtain ⟨y, hy, rfl⟩ := List.mem_map.1 h
  exact List.mem_map_of_mem (List.mem_filter.1 hy).1

end Bindings
end CacheCatalog
