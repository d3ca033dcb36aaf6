import CacheCatalog.Layout
import CacheCatalog.Proofs.Extents
import CacheCatalog.Proofs.Results
import CacheCatalog.Search

/-! Rows that conform to their columns. A column says of its cells whether they can be NULL, whether
they are texts or numbers, and how large the numbers are; the layouts of the catalog answers keep to
what they say, for every entry that an answer can have. -/
namespace CacheCatalog

def Column.admits (column : Column) : Cell → Bool
  | .null => column.nullable != 0
  | .text _ => column.type == .string
  | .int v =>
    match column.type with
    | .short => Text.fitsSigned 16 v
    | .int => Text.fitsSigned 32 v
    | _ => false

def Row.Conforms (columns : List Column) (row : Row) : Prop :=
  List.Forall₂ (fun column cell => column.admits cell = true) columns row

namespace Layout
variable {α : Type}

def admits (entry : α) (f : LayoutField α) : Bool := (columnAt f 0).admits (f.cell entry)

theorem conforms_row {l : Layout α} {entry : α} (h : ∀ f ∈ l, admits entry f = true) :
    Row.Conforms (columns l) (row l entry) := by
  unfold Row.Conforms columns row
  generalize 0 = start
  induction l generalizing start with
  | nil => exact List.Forall₂.nil
  | cons f l ih =>
    rw [List.forall_mem_cons] at h
    rw [List.zipIdx_cons, List.map_cons, List.map_cons]
    exact List.Forall₂.cons h.1 (ih h.2 (start + 1))

theorem fitsSigned_of_digits {n : Int} (h : 0 ≤ n ∧ n ≤ maxPrecision) :
    Text.fitsSigned 16 n = true := by
  unfold maxPrecision at h
  simp only [Text.fitsSigned, Bool.and_eq_true, decide_eq_true_eq]
  omega

theorem admits_optional_ite {name : String} {type : FieldType} {p : α → Bool} {cell : α → Cell}
    {entry : α} (h : admits entry (.optional name type cell) = true) :
    admits entry (.optional name type fun a => if p a = true then cell a else .null) = true := by
  unfold admits LayoutField.optional at h ⊢
  dsimp only
  split
  · exact h
  · rfl

theorem admits_always_int {name : String} {f : α → Int} {entry : α} (h : IsLength (f entry)) :
    admits entry (.always name .int fun a => .int (f a)) = true := fitsSigned_of_isLength h

theorem types_admits (limits : Limits) (t : FieldType) :
    ∀ f ∈ types limits, admits t f = true := by
  have hsize : IsLength (if t = .decimal then (maxPrecision : Nat)
      else (t.extent {} limits).columnSize) := by
    split
    · decide
    · exact (t.isLength_extent {} limits).1
  simp only [types, List.forall_mem_cons]
  refine ⟨?_, ?_, fitsSigned_of_isLength hsize, ?_, ?_, ?_, ?_, ?_, ?_, ?_, ?_, ?_, ?_, ?_, ?_, ?_,
    ?_, ?_, ?_, by simp⟩ <;> cases t <;> rfl

structure Shown (c : Column) : Prop where
  ordinal : 1 ≤ c.ordinal ∧ c.ordinal ≤ maxColumns
  nullable : c.nullable = 0 ∨ c.nullable = 1

theorem columnList_admits (limits : Limits) {c : Column} (h : Shown c) :
    ∀ f ∈ columnList limits, admits c f = true := by
  obtain ⟨ordinal, name, table, type, size, nullable⟩ := c
  obtain ⟨⟨hfirst, hlast⟩, hnullable⟩ := h
  obtain ⟨hsize, hoctets, -⟩ := type.isLength_extent size limits
  have hscale := fitsSigned_of_digits (type.scale_bounds size limits)
  have hordinal : IsLength ordinal := by
    unfold IsLength maxLength
    dsimp only [maxColumns] at hlast
    omega
  simp only [columnList, List.forall_mem_cons]
  refine ⟨rfl, rfl, rfl, rfl, ?dataType, rfl, fitsSigned_of_isLength hsize,
    fitsSigned_of_isLength hoctets, ?digits, ?radix, ?nullable, rfl, rfl,
    ?verboseType, ?datetimeSub, ?octets,
    ?ordinal, rfl, by simp⟩
  case digits => exact admits_optional_ite hscale
  case octets =>
    apply admits_optional_ite
    exact fitsSigned_of_isLength hoctets
  case ordinal => exact admits_always_int hordinal
  case nullable => rcases hnullable with rfl | rfl <;> rfl
  all_goals cases type <;> rfl

theorem tables_admits (entry : TableEntry) : ∀ f ∈ tables, admits entry f = true := by
  simp only [tables, List.forall_mem_cons]
  refine ⟨?_, ?_, ?_, ?_, ?_, by simp⟩ <;> cases entry <;> rfl

end Layout
end CacheCatalog
