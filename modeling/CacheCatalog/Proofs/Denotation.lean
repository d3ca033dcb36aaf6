import CacheCatalog.Proofs.Patterns
import Mathlib.Data.List.Forall2

/-! What a pattern stands for, read off its characters one after another. The reading of the pattern
into tokens keeps to it, percent signs in a row included, and so does the search. -/
namespace CacheCatalog

namespace Text

def LetterPair (capital small : Char) : Prop :=
  65 ≤ capital.toNat ∧ capital.toNat ≤ 90 ∧ small.toNat = capital.toNat + 32

def SameButCase (c d : Char) : Prop := c = d ∨ LetterPair c d ∨ LetterPair d c

theorem toNat_toLower (c : Char) :
    c.toLower.toNat = if 65 ≤ c.toNat ∧ c.toNat ≤ 90 then c.toNat + 32 else c.toNat := by
  have hcapital : (c.val ≥ 'A'.val ∧ c.val ≤ 'Z'.val) ↔ (65 ≤ c.toNat ∧ c.toNat ≤ 90) := Iff.rfl
  unfold Char.toLower
  split
  · next h =>
    have hlarge : c.toNat ≤ 90 := (hcapital.1 h).2
    rw [if_pos (hcapital.1 h)]
    show (c.val + 32).toNat = c.toNat + 32
    rw [UInt32.toNat_add]
    exact Nat.mod_eq_of_lt (show c.toNat + 32 < 4294967296 by omega)
  · next h => rw [if_neg (hcapital.not.1 h)]

theorem sameLetter_iff {c d : Char} : sameLetter c d = true ↔ SameButCase c d := by
  unfold SameButCase LetterPair
  rw [sameLetter, beq_iff_eq, ← Char.toNat_inj, ← Char.toNat_inj, toNat_toLower, toNat_toLower]
  split <;> split <;> omega

def AlikeButCase (a b : String) : Prop := List.Forall₂ SameButCase a.toList b.toList

theorem sameName_iff_alikeButCase {a b : String} : sameName a b = true ↔ AlikeButCase a b := by
  have hletter : SameButCase = fun c d => c.toLower = d.toLower := by
    funext c d
    rw [← sameLetter_iff, sameLetter, beq_iff_eq]
  rw [sameName_iff, fold, fold, ← List.forall₂_eq_eq_eq, List.forall₂_map_left_iff,
    List.forall₂_map_right_iff, AlikeButCase, hletter]

instance (a b : String) : Decidable (AlikeButCase a b) :=
  decidable_of_iff _ sameName_iff_alikeButCase

end Text

namespace Pattern

def Denotes : List Char → List Char → Prop
  | [], s => s = []
  | '%' :: p, s => ∃ skipped r, s = skipped ++ r ∧ Denotes p r
  | '_' :: p, s => ∃ d r, s = d :: r ∧ Denotes p r
  | ['\\'], s => s = ['\\']
  | '\\' :: c :: p, s => ∃ d r, s = d :: r ∧ Text.SameButCase c d ∧ Denotes p r
  | c :: p, s => ∃ d r, s = d :: r ∧ Text.SameButCase c d ∧ Denotes p r

section Tokens
variable {ts : List PatternToken} {s : List Char}

theorem standFor_any_any : StandFor (.any :: .any :: ts) s ↔ StandFor (.any :: ts) s := by
  constructor
  · rintro ⟨r, hr, r', hr', hts⟩
    exact ⟨r', List.IsSuffix.trans hr' hr, hts⟩
  · exact fun h => ⟨s, List.suffix_rfl, h⟩

theorem standFor_exact_cons {c : Char} : StandFor (.exact c :: ts) s ↔
    ∃ d r, s = d :: r ∧ Text.SameButCase c d ∧ StandFor ts r := by
  constructor
  · rintro ⟨r, ⟨d, hletter, rfl⟩, hts⟩
    exact ⟨d, r, rfl, Text.sameLetter_iff.1 hletter, hts⟩
  · rintro ⟨d, r, rfl, hletter, hts⟩
    exact ⟨r, ⟨d, Text.sameLetter_iff.2 hletter, rfl⟩, hts⟩

theorem standFor_one_cons : StandFor (.one :: ts) s ↔ ∃ d r, s = d :: r ∧ StandFor ts r := by
  constructor
  · rintro ⟨r, ⟨d, -, rfl⟩, hts⟩
    exact ⟨d, r, rfl, hts⟩
  · rintro ⟨d, r, rfl, hts⟩
    exact ⟨r, ⟨d, rfl, rfl⟩, hts⟩

theorem standFor_any_cons :
    StandFor (.any :: ts) s ↔ ∃ skipped r, s = skipped ++ r ∧ StandFor ts r := by
  constructor
  · rintro ⟨r, ⟨skipped, rfl⟩, hts⟩
    exact ⟨skipped, r, rfl, hts⟩
  · rintro ⟨skipped, r, rfl, hts⟩
    exact ⟨r, List.suffix_append skipped r, hts⟩

end Tokens

theorem standFor_tokenize_any (p s : List Char) :
    StandFor (tokenize ('%' :: p)) s ↔ StandFor (.any :: tokenize p) s := by
  rw [tokenize]
  split
  · next ts hts =>
    rw [hts]
    exact standFor_any_any.symm
  · rfl

theorem standFor_tokenize (p s : List Char) : StandFor (tokenize p) s ↔ Denotes p s := by
  fun_induction Denotes p s with
  | case1 => rfl
  | case2 p s ih =>
    rw [standFor_tokenize_any, standFor_any_cons]
    simp only [ih]
  | case3 p s ih =>
    rw [tokenize, standFor_one_cons]
    simp only [ih]
  | case4 s =>
    -- a backslash is no letter, so it has no other case
    have hcase (d : Char) : Text.SameButCase '\\' d ↔ '\\' = d :=
      or_iff_left (by simp only [Text.LetterPair, Char.reduceToNat]; omega)
    rw [show tokenize ['\\'] = [.exact '\\'] from rfl, standFor_exact_cons]
    simp only [hcase, StandFor]
    constructor
    · rintro ⟨_, _, rfl, rfl, rfl⟩
      rfl
    · rintro rfl
      exact ⟨_, _, rfl, rfl, rfl⟩
  | case5 c p s ih =>
    rw [tokenize, standFor_exact_cons]
    simp only [ih]
  | case6 c p s hpercent hunderscore hlast hescape ih =>
    have hplain : isSpecial c = false := by
      cases p <;> simp_all [isSpecial]
    rw [tokenize_cons hplain, standFor_exact_cons]
    simp only [ih]

def Takes (pattern : Option String) (name : String) : Prop :=
  ∀ p ∈ pattern, p ≠ "" → Denotes p.toList name.toList

theorem accepts_ofOption_iff {pattern : Option String} {name : String} :
    (ofOption pattern).accepts name = true ↔ Takes pattern name := by
  cases pattern with
  | none => exact iff_of_true (every_accepts name) nofun
  | some p =>
    by_cases hempty : p = ""
    · subst hempty
      refine iff_of_true (every_accepts name) fun p hp hne => absurd ?_ hne
      exact (Option.some.inj hp).symm
    · rw [ofOption, if_neg (String.isEmpty_iff.not.2 hempty), accepts_iff, ofString,
        standFor_tokenize]
      exact ⟨fun h q hq _ => Option.some.inj hq ▸ h, fun h => h p rfl hempty⟩

instance (pattern : Option String) (name : String) : Decidable (Takes pattern name) :=
  decidable_of_iff _ accepts_ofOption_iff

/-- A pattern takes the names that its characters stand for. One that is left out or left empty takes
every name; an empty one that is meant as a pattern takes the empty name alone. -/
theorem accepts_iff_denotes :
    (∀ pattern name : String,
      (ofString pattern).accepts name = true ↔ Denotes pattern.toList name.toList) ∧
    (∀ pattern : String, pattern ≠ "" → ofOption (some pattern) = ofString pattern) ∧
    (∀ name : String, (ofOption none).accepts name = true) ∧
    (∀ name : String, (ofOption (some "")).accepts name = true) ∧
    ∀ name : String, (ofString "").accepts name = true ↔ name = "" := by
  have hdenotes (pattern name : String) :
      (ofString pattern).accepts name = true ↔ Denotes pattern.toList name.toList :=
    accepts_iff.trans (standFor_tokenize pattern.toList name.toList)
  refine ⟨hdenotes, fun pattern hne => ?_, every_accepts, every_accepts, fun name => ?_⟩
  · rw [ofOption, if_neg (String.isEmpty_iff.not.2 hne)]
  · exact (hdenotes "" name).trans String.toList_eq_nil_iff

example : (ofString "%ab\\_%c").accepts "xabxAB_bcC" = true := by decide +kernel

end Pattern
end CacheCatalog
