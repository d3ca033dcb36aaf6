import CacheCatalog.Text.Numeral
import Mathlib.Algebra.Group.Int.Defs
import Mathlib.Algebra.Group.Nat.Defs
import Mathlib.Data.List.Induction

/-! Integers as they are written: one digit or more, each worth ten times what it would be worth one
place further to the right, and before them at most one sign, which an unsigned literal can have only
as a plus. A reading takes the literals of its kind whose value fits into its width, and no other
text. -/
namespace CacheCatalog.Text

inductive Digits : List Char → Nat → Prop
  | one {c : Char} (hc : c.isDigit = true) : Digits [c] (c.toNat - '0'.toNat)
  | more {cs : List Char} {n : Nat} {c : Char} (hcs : Digits cs n) (hc : c.isDigit = true) :
    Digits (cs ++ [c]) (10 * n + (c.toNat - '0'.toNat))

def UnsignedLiteral (cs : List Char) (n : Nat) : Prop :=
  Digits cs n ∨ ∃ ds, cs = '+' :: ds ∧ Digits ds n

def SignedLiteral (cs : List Char) (v : Int) : Prop :=
  (∃ n : Nat, UnsignedLiteral cs n ∧ v = n) ∨ ∃ ds, ∃ n : Nat, cs = '-' :: ds ∧ Digits ds n ∧ v = -n

variable {cs : List Char} {n : Nat}

theorem digits_ofDigitChars (hne : cs ≠ []) (hdigits : ∀ c ∈ cs, c.isDigit = true) :
    Digits cs (Nat.ofDigitChars 10 cs 0) := by
  induction cs using List.reverseRecOn with
  | nil => exact absurd rfl hne
  | append_singleton cs c ih =>
    rw [List.forall_mem_append, List.forall_mem_singleton] at hdigits
    obtain ⟨hcs, hc⟩ := hdigits
    rw [Nat.ofDigitChars_append, Nat.ofDigitChars_cons]
    cases cs with
    | nil =>
      have hone : Digits [c] (c.toNat - '0'.toNat) := .one hc
      rw [← Nat.zero_add (c.toNat - '0'.toNat)] at hone
      exact hone
    | cons d cs => exact .more (ih (List.cons_ne_nil d cs) hcs) hc

theorem Digits.spec (h : Digits cs n) :
    cs ≠ [] ∧ (∀ c ∈ cs, c.isDigit = true) ∧ n = Nat.ofDigitChars 10 cs 0 := by
  induction h with
  | @one c hc =>
    refine ⟨List.cons_ne_nil c [], List.forall_mem_singleton.2 hc, ?_⟩
    rw [Nat.ofDigitChars_cons, Nat.mul_zero, Nat.zero_add]
    rfl
  | @more cs n c _ hc ih =>
    obtain ⟨-, hcs, rfl⟩ := ih
    refine ⟨List.append_ne_nil_of_right_ne_nil cs (List.cons_ne_nil c []),
      List.forall_mem_append.2 ⟨hcs, List.forall_mem_singleton.2 hc⟩, ?_⟩
    rw [Nat.ofDigitChars_append, Nat.ofDigitChars_cons]
    rfl

theorem digits?_eq_some_iff : digits? cs = some n ↔ Digits cs n := by
  constructor
  · intro h
    unfold digits? at h
    split at h
    · cases h
    · next hall =>
      rw [Bool.or_eq_true, not_or, List.isEmpty_iff, List.any_eq_true] at hall
      obtain rfl := Option.some.inj h
      refine digits_ofDigitChars hall.1 fun c hc => ?_
      by_contra hnot
      exact hall.2 ⟨c, hc, by simp [hnot]⟩
  · intro h
    obtain ⟨hne, hdigits, rfl⟩ := h.spec
    unfold digits?
    rw [if_neg]
    rw [Bool.or_eq_true, not_or, List.isEmpty_iff, List.any_eq_true]
    refine ⟨hne, ?_⟩
    rintro ⟨c, hc, hnot⟩
    rw [hdigits c hc] at hnot
    cases hnot

theorem not_digits_cons {c : Char} (hc : c.isDigit = false) (cs : List Char) (n : Nat) :
    ¬ Digits (c :: cs) n := by
  intro h
  have hdigit := h.spec.2.1 c List.mem_cons_self
  rw [hc] at hdigit
  cases hdigit

theorem natural?_eq_some_iff : natural? cs = some n ↔ UnsignedLiteral cs n := by
  unfold natural? UnsignedLiteral
  split
  · next ds =>
    rw [digits?_eq_some_iff, or_iff_right (not_digits_cons rfl ds n)]
    simp
  · next hplus =>
    rw [digits?_eq_some_iff, or_iff_left]
    rintro ⟨ds, hds, -⟩
    exact hplus ds hds

theorem map_digits?_eq_some_iff {f : Nat → Int} {v : Int} :
    (digits? cs).map f = some v ↔ ∃ n, Digits cs n ∧ v = f n := by
  rw [Option.map_eq_some_iff]
  constructor
  · rintro ⟨n, hn, rfl⟩
    exact ⟨n, digits?_eq_some_iff.1 hn, rfl⟩
  · rintro ⟨n, hn, rfl⟩
    exact ⟨n, digits?_eq_some_iff.2 hn, rfl⟩

theorem integer?_minus_eq_some_iff {ds : List Char} {v : Int} :
    integer? ('-' :: ds) = some v ↔ ∃ n : Nat, Digits ds n ∧ v = -n := by
  simp only [← digits?_eq_some_iff, integer?]
  cases digits? ds with
  | none => simp
  | some n => simp [eq_comm]

theorem integer?_eq_some_iff {v : Int} : integer? cs = some v ↔ SignedLiteral cs v := by
  unfold integer? SignedLiteral UnsignedLiteral
  split
  · next ds =>
    show integer? ('-' :: ds) = some v ↔ _
    rw [integer?_minus_eq_some_iff, or_iff_right]
    · simp
    · rintro ⟨n, hn | ⟨_, hplus, -⟩, -⟩
      · exact not_digits_cons rfl ds n hn
      · cases hplus
  · next ds =>
    rw [map_digits?_eq_some_iff, or_iff_left]
    · simp [not_digits_cons]
    · rintro ⟨_, _, hminus, -⟩
      cases hminus
  · next hminus hplus =>
    have hnot : ¬ ∃ ds n, cs = '-' :: ds ∧ Digits ds n ∧ v = -(n : Int) :=
      fun ⟨ds, _, hds, _⟩ => hminus ds hds
    have hplain (n : Nat) : (Digits cs n ∨ ∃ ds, cs = '+' :: ds ∧ Digits ds n) ↔ Digits cs n :=
      or_iff_left fun ⟨ds, hds, _⟩ => hplus ds hds
    rw [map_digits?_eq_some_iff, or_iff_left hnot]
    simp only [hplain]
    rfl

theorem SignedLiteral.isDigit_or_sign {v : Int} (h : SignedLiteral cs v) {c : Char} (hc : c ∈ cs) :
    c.isDigit = true ∨ c = '+' ∨ c = '-' := by
  obtain ⟨n, hds | ⟨ds, rfl, hds⟩, -⟩ | ⟨ds, n, rfl, hds, -⟩ := h
  · exact .inl (hds.spec.2.1 c hc)
  · obtain rfl | hc := List.mem_cons.1 hc
    · exact .inr (.inl rfl)
    · exact .inl (hds.spec.2.1 c hc)
  · obtain rfl | hc := List.mem_cons.1 hc
    · exact .inr (.inr rfl)
    · exact .inl (hds.spec.2.1 c hc)

theorem word?_eq_some_iff {bits : Nat} :
    word? bits cs = some n ↔ UnsignedLiteral cs n ∧ n < 2 ^ bits := by
  rw [word?, Option.filter_eq_some_iff, natural?_eq_some_iff, decide_eq_true_iff, Nat.one_shiftLeft]

theorem fitsSigned_iff {bits : Nat} {v : Int} :
    fitsSigned bits v = true ↔ -2 ^ (bits - 1) ≤ v ∧ v < 2 ^ (bits - 1) := by
  rw [fitsSigned, Bool.and_eq_true, decide_eq_true_iff, decide_eq_true_iff, Nat.one_shiftLeft]
  push_cast
  rfl

theorem signedWord?_eq_some_iff {bits : Nat} {v : Int} : signedWord? bits cs = some v ↔
    SignedLiteral cs v ∧ -2 ^ (bits - 1) ≤ v ∧ v < 2 ^ (bits - 1) := by
  rw [signedWord?, Option.filter_eq_some_iff, integer?_eq_some_iff, fitsSigned_iff]

end CacheCatalog.Text
