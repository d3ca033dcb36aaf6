import CacheCatalog.Extent
import CacheCatalog.Text.Numeral

/-! Bounds of extents. Whatever a column declares and a connection allows, lengths fit into
thirty-two bits, where one that is not known takes its own mark, and digits are few. -/
namespace CacheCatalog

def IsLength (n : Int) : Prop := n = noTotal ∨ 0 ≤ n ∧ n ≤ maxLength

instance (n : Int) : Decidable (IsLength n) :=
  inferInstanceAs (Decidable (n = noTotal ∨ 0 ≤ n ∧ n ≤ maxLength))

theorem fitsSigned_of_isLength {n : Int} (h : IsLength n) : Text.fitsSigned 32 n = true := by
  unfold IsLength noTotal maxLength at h
  simp only [Text.fitsSigned, Bool.and_eq_true, decide_eq_true_eq]
  omega

theorem isLength_elim {length : Option Nat} {f : Nat → Int}
    (h : ∀ n, 0 ≤ f n ∧ f n ≤ maxLength) : IsLength (length.elim noTotal f) := by
  cases length with
  | none => exact .inl rfl
  | some n => exact .inr (h n)

namespace Extent

theorem isLength_ofDescriptor (t : FieldType) :
    IsLength (ofDescriptor t.descriptor).columnSize ∧
      IsLength (ofDescriptor t.descriptor).octetLength ∧
      IsLength (ofDescriptor t.descriptor).displaySize := by
  cases t <;> decide

theorem scale_ofDescriptor (t : FieldType) :
    0 ≤ (ofDescriptor t.descriptor).scale ∧ (ofDescriptor t.descriptor).scale ≤ maxPrecision := by
  cases t <;> decide

theorem isLength_ofLength (length : Option Nat) (places : Nat) :
    IsLength (ofLength length places).columnSize ∧ IsLength (ofLength length places).octetLength ∧
      IsLength (ofLength length places).displaySize := by
  have hsize : ∀ n, (0 : Int) ≤ (min n maxLength : Nat) ∧ ((min n maxLength : Nat) : Int) ≤ maxLength :=
    fun n => ⟨Int.natCast_nonneg _, Int.ofNat_le.2 (Nat.min_le_right ..)⟩
  exact ⟨isLength_elim hsize, isLength_elim hsize,
    isLength_elim fun n => hsize (places * min n maxLength)⟩

theorem decimalDigits_bounds (size : SizeHint) (limits : Limits) :
    1 ≤ (decimalDigits size limits).1 ∧ (decimalDigits size limits).1 ≤ maxPrecision ∧
      (decimalDigits size limits).2 ≤ (decimalDigits size limits).1 := by
  simp only [decimalDigits, maxPrecision]
  omega

theorem isLength_ofDecimal {digits : Nat × Nat} (h : digits.1 ≤ maxPrecision) :
    IsLength (ofDecimal digits).columnSize ∧ IsLength (ofDecimal digits).octetLength ∧
      IsLength (ofDecimal digits).displaySize := by
  unfold maxPrecision at h
  simp only [ofDecimal, IsLength, maxLength]
  omega

end Extent

theorem FieldType.isLength_extent (t : FieldType) (size : SizeHint) (limits : Limits) :
    IsLength (t.extent size limits).columnSize ∧ IsLength (t.extent size limits).octetLength ∧
      IsLength (t.extent size limits).displaySize := by
  cases t with
  | decimal => exact Extent.isLength_ofDecimal (Extent.decimalDigits_bounds size limits).2.1
  | string | bytes | object | array | map => exact Extent.isLength_ofLength _ _
  | _ => exact Extent.isLength_ofDescriptor _

theorem FieldType.scale_bounds (t : FieldType) (size : SizeHint) (limits : Limits) :
    0 ≤ (t.extent size limits).scale ∧ (t.extent size limits).scale ≤ maxPrecision := by
  cases t with
  | decimal =>
    obtain ⟨-, hprecision, hscale⟩ := Extent.decimalDigits_bounds size limits
    exact ⟨Int.natCast_nonneg _, Int.ofNat_le.2 (Nat.le_trans hscale hprecision)⟩
  | string | bytes | object | array | map => exact ⟨Int.le_refl 0, Int.natCast_nonneg _⟩
  | _ => exact Extent.scale_ofDescriptor _

end CacheCatalog
