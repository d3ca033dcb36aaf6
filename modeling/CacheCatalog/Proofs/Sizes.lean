import CacheCatalog.Proofs.Extents
import CacheCatalog.Proofs.Literals

/-! The sizes that a column gets. They can be worked out in words, where a clamp needs its bounds in order
and a word holds only its range: no step of that fails, and nothing wraps around. Only strings and byte
strings can stay open, decimals keep their digits in range, and every other type has sizes of its own. -/
namespace CacheCatalog

namespace Extent

def inWord? (bits : Nat) (v : Int) : Option Int := if Text.fitsSigned bits v then some v else none

def clamp? (low high v : Int) : Option Int :=
  if low ≤ high then some (max low (min v high)) else none

def saturate (bits : Nat) (v : Int) : Int := max (-2 ^ (bits - 1)) (min v (2 ^ (bits - 1) - 1))

theorem inWord?_of_fits {bits : Nat} {v : Int} (h : Text.fitsSigned bits v = true) :
    inWord? bits v = some v := if_pos h

theorem clamp?_of_le {low high : Int} (h : low ≤ high) (v : Int) :
    clamp? low high v = some (max low (min v high)) := if_pos h

structure Clamped (low high v clamped : Int) : Prop where
  low_le : low ≤ clamped
  le_high : clamped ≤ high
  kept : low ≤ v → v ≤ high → clamped = v
  raised : v < low → clamped = low
  lowered : high < v → clamped = high

theorem clamped_max_min {low high : Int} (h : low ≤ high) (v : Int) :
    Clamped low high v (max low (min v high)) := by
  constructor <;> omega

def wanted (size : SizeHint) (limits : Limits) : Nat × Int :=
  match size.precision, size.scale with
  | some p, s => (p, s.getD 0)
  | none, some s => (limits.precision, s)
  | none, none => (limits.precision, limits.scale)

/-- A decimal worked out in words: its digits bound its scale as a word of sixteen bits. -/
def decimalInWords? (size : SizeHint) (limits : Limits) : Option Extent := do
  let precision ← clamp? 1 maxPrecision (wanted size limits).1
  let most ← inWord? 16 precision
  let scale ← clamp? 0 most (wanted size limits).2
  let places ← inWord? 64 (precision + 2)
  return ⟨precision, places, places, precision, scale⟩

def lengthInWords (declared limit : Option Nat) : Int :=
  match declared, limit with
  | some n, _ | none, some n => min (n : Int) maxLength
  | none, none => noTotal

/-- Each byte shows in two places; the mark of an open length is no length to double. -/
def doubledInWords (length : Int) : Int :=
  if length < 0 then length else min (saturate 64 (length * 2)) maxLength

end Extent

def FieldType.extentInWords? (t : FieldType) (size : SizeHint) (limits : Limits) : Option Extent :=
  match t with
  | .decimal => Extent.decimalInWords? size limits
  | .string =>
    let length := Extent.lengthInWords size.length limits.stringLength
    some ⟨length, length, length, noTotal, 0⟩
  | .bytes =>
    let length := Extent.lengthInWords size.length limits.bytesLength
    some ⟨length, length, Extent.doubledInWords length, noTotal, 0⟩
  | .object | .array | .map => some ⟨maxLength, maxLength, maxLength, noTotal, 0⟩
  | _ => some (.ofDescriptor t.descriptor)

namespace Extent
variable (size : SizeHint) (limits : Limits)

theorem wanted_eq : wanted size limits = (size.precision.getD limits.precision,
    size.scale.getD (if size.precision.isSome then 0 else limits.scale)) := by
  unfold wanted
  cases size.precision <;> cases size.scale <;> rfl

theorem decimalDigits_eq_clamped :
    ((decimalDigits size limits).1 : Int) = max 1 (min ((wanted size limits).1 : Int) maxPrecision) ∧
    ((decimalDigits size limits).2 : Int) =
      max 0 (min (wanted size limits).2 (decimalDigits size limits).1) := by
  rw [wanted_eq]
  simp only [decimalDigits]
  omega

theorem decimalInWords?_eq :
    decimalInWords? size limits = some (ofDecimal (decimalDigits size limits)) := by
  obtain ⟨hpositive, hmost, -⟩ := decimalDigits_bounds size limits
  obtain ⟨hprecision, hscale⟩ := decimalDigits_eq_clamped size limits
  have hmax : maxPrecision = 38 := rfl
  have hbounds : (1 : Int) ≤ maxPrecision := by decide
  -- at most thirty-eight digits fit into every word, and no fewer than one bound a scale from above
  have hsmall : Text.fitsSigned 16 ((decimalDigits size limits).1 : Int) = true :=
    Text.fitsSigned_iff.2 ⟨by omega, by omega⟩
  have hplaces : Text.fitsSigned 64 ((decimalDigits size limits).1 + 2 : Int) = true :=
    Text.fitsSigned_iff.2 ⟨by omega, by omega⟩
  unfold decimalInWords?
  simp only [Option.bind_eq_bind]
  rw [clamp?_of_le hbounds, ← hprecision, Option.bind_some, inWord?_of_fits hsmall, Option.bind_some,
    clamp?_of_le (Int.natCast_nonneg _), ← hscale, Option.bind_some, inWord?_of_fits hplaces,
    Option.bind_some]
  rfl

theorem lengthInWords_eq (declared limit : Option Nat) : lengthInWords declared limit =
    (declared <|> limit).elim noTotal fun n => (min n maxLength : Nat) := by
  have hcast (n : Nat) : min (n : Int) maxLength = (min n maxLength : Nat) := by omega
  cases declared with
  | some n => exact hcast n
  | none =>
    cases limit with
    | some n => exact hcast n
    | none => rfl

theorem doubledInWords_of_le {n : Nat} (h : n ≤ maxLength) :
    doubledInWords n = (min (2 * n) maxLength : Nat) := by
  have hmax : maxLength = 2147483647 := rfl
  unfold doubledInWords saturate
  rw [if_neg (by omega)]
  omega

theorem doubledInWords_elim (length : Option Nat) :
    doubledInWords (length.elim noTotal fun n => (min n maxLength : Nat)) =
      length.elim noTotal fun n => (min (2 * min n maxLength) maxLength : Nat) := by
  cases length with
  | none => rfl
  | some n => exact doubledInWords_of_le (Nat.min_le_right n maxLength)

end Extent

/-- Neither does a step fail nor a word wrap around. -/
theorem FieldType.extentInWords?_eq (t : FieldType) (size : SizeHint) (limits : Limits) :
    t.extentInWords? size limits = some (t.extent size limits) := by
  cases t with
  | decimal => exact Extent.decimalInWords?_eq size limits
  | string =>
    -- a length within its limit is not cut again where it is shown
    have hshown : ∀ n, min (1 * min n maxLength) maxLength = min n maxLength := by omega
    simp only [extentInWords?, extent, Extent.lengthInWords_eq, Extent.ofLength, hshown]
  | bytes =>
    simp only [extentInWords?, extent, Extent.lengthInWords_eq, Extent.doubledInWords_elim,
      Extent.ofLength]
  | _ => rfl

def Extent.lengths (e : Extent) : List Int := [e.columnSize, e.octetLength, e.displaySize]

def FieldType.Open (t : FieldType) (size : SizeHint) (limits : Limits) : Prop :=
  size.length = none ∧
    (t = .string ∧ limits.stringLength = none ∨ t = .bytes ∧ limits.bytesLength = none)

namespace Extent

theorem elim_eq_noTotal_iff {length : Option Nat} {f : Nat → Nat} :
    length.elim noTotal (fun n => (f n : Int)) = noTotal ↔ length = none := by
  cases length with
  | none => exact iff_of_true rfl rfl
  | some n =>
    refine iff_of_false (fun h => ?_) nofun
    simp only [Option.elim_some, noTotal] at h
    omega

theorem eq_noTotal_iff_of_mem_ofLength {length : Option Nat} {places : Nat} {n : Int}
    (hn : n ∈ (ofLength length places).lengths) : n = noTotal ↔ length = none := by
  simp only [lengths, ofLength, List.mem_cons, List.not_mem_nil, or_false] at hn
  obtain rfl | rfl | rfl := hn <;> exact elim_eq_noTotal_iff

theorem ne_noTotal_of_mem_ofDecimal {digits : Nat × Nat} {n : Int}
    (hn : n ∈ (ofDecimal digits).lengths) : n ≠ noTotal := by
  simp only [lengths, ofDecimal, List.mem_cons, List.not_mem_nil, or_false] at hn
  unfold noTotal
  omega

theorem ne_noTotal_of_fixedWidth (t : FieldType) (ht : t.descriptor.fixedWidth = true) :
    ∀ n ∈ (ofDescriptor t.descriptor).lengths, n ≠ noTotal := by
  revert ht
  cases t <;> decide

end Extent

theorem FieldType.eq_noTotal_iff_open (t : FieldType) (size : SizeHint) (limits : Limits) :
    ∀ n ∈ (t.extent size limits).lengths, n = noTotal ↔ t.Open size limits := by
  intro n hn
  cases t with
  | decimal =>
    exact iff_of_false (Extent.ne_noTotal_of_mem_ofDecimal hn) (by simp [Open])
  | string | bytes | object | array | map =>
    rw [Extent.eq_noTotal_iff_of_mem_ofLength hn]
    simp [Open]
  | _ => exact iff_of_false (Extent.ne_noTotal_of_fixedWidth _ rfl n hn) (by simp [Open])

namespace Extent
variable (size : SizeHint) (limits : Limits)

theorem exists_clamped_digits : ∃ p s : Int,
    Clamped 1 maxPrecision (size.precision.getD limits.precision : Nat) p ∧
    Clamped 0 p (size.scale.getD (if size.precision.isSome then 0 else limits.scale)) s ∧
    ofDecimal (decimalDigits size limits) = ⟨p, p + 2, p + 2, p, s⟩ := by
  obtain ⟨hprecision, hscale⟩ := decimalDigits_eq_clamped size limits
  rw [wanted_eq] at hprecision hscale
  have hbounds : (1 : Int) ≤ maxPrecision := by decide
  refine ⟨(decimalDigits size limits).1, (decimalDigits size limits).2, ?_, ?_, rfl⟩
  · rw [hprecision]
    exact clamped_max_min hbounds _
  · rw [hscale]
    exact clamped_max_min (Int.natCast_nonneg _) _

theorem ofLength_some (n places : Nat) :
    (ofLength (some n) places).columnSize = min (n : Int) maxLength ∧
    (ofLength (some n) places).octetLength = (ofLength (some n) places).columnSize ∧
    (ofLength (some n) places).displaySize =
      min (places * (ofLength (some n) places).columnSize) maxLength := by
  have hsize : (ofLength (some n) places).columnSize = min (n : Int) maxLength := by
    show ((min n maxLength : Nat) : Int) = _
    omega
  refine ⟨hsize, rfl, ?_⟩
  show ((min (places * min n maxLength) maxLength : Nat) : Int) =
    min ((places : Int) * ((min n maxLength : Nat) : Int)) maxLength
  rw [← Int.natCast_mul]
  omega

end Extent

structure FieldType.Sized (t : FieldType) (size : SizeHint) (limits : Limits) (e : Extent) :
    Prop where
  words : t.extentInWords? size limits = some e
  lengths : ∀ n ∈ e.lengths, IsLength n ∧ (n = noTotal ↔ t.Open size limits)
  decimal : t = .decimal → ∃ p s : Int,
    Extent.Clamped 1 maxPrecision (size.precision.getD limits.precision : Nat) p ∧
    Extent.Clamped 0 p (size.scale.getD (if size.precision.isSome then 0 else limits.scale)) s ∧
    e = ⟨p, p + 2, p + 2, p, s⟩
  string : t = .string → ∀ n, (size.length <|> limits.stringLength) = some n →
    e.columnSize = min (n : Int) maxLength ∧ e.octetLength = e.columnSize ∧
    e.displaySize = e.columnSize
  bytes : t = .bytes → ∀ n, (size.length <|> limits.bytesLength) = some n →
    e.columnSize = min (n : Int) maxLength ∧ e.octetLength = e.columnSize ∧
    e.displaySize = min (2 * e.columnSize) maxLength
  other : t ≠ .decimal → t ≠ .string → t ≠ .bytes → ∀ size' limits', t.extent size' limits' = e

/-- Every type has its sizes, whatever is declared and allowed. -/
theorem FieldType.sized_extent (t : FieldType) (size : SizeHint) (limits : Limits) :
    t.Sized size limits (t.extent size limits) := by
  constructor
  case words => exact t.extentInWords?_eq size limits
  case lengths =>
    intro n hn
    obtain ⟨hcolumn, hoctets, hdisplay⟩ := t.isLength_extent size limits
    refine ⟨?_, t.eq_noTotal_iff_open size limits n hn⟩
    simp only [Extent.lengths, List.mem_cons, List.not_mem_nil, or_false] at hn
    obtain rfl | rfl | rfl := hn
    · exact hcolumn
    · exact hoctets
    · exact hdisplay
  case decimal =>
    rintro rfl
    exact Extent.exists_clamped_digits size limits
  case string =>
    rintro rfl n hn
    rw [extent, hn]
    obtain ⟨hsize, hoctets, hdisplay⟩ := Extent.ofLength_some n 1
    exact ⟨hsize, hoctets, by omega⟩
  case bytes =>
    rintro rfl n hn
    rw [extent, hn]
    exact Extent.ofLength_some n 2
  case other =>
    intro hdecimal hstring hbytes size' limits'
    cases t with
    | decimal => exact absurd rfl hdecimal
    | string => exact absurd rfl hstring
    | bytes => exact absurd rfl hbytes
    | _ => rfl

example : FieldType.decimal.extent { precision := some 65535, scale := some (-3) } {} =
    ⟨38, 40, 40, 38, 0⟩ := by decide

end CacheCatalog
