import CacheCatalog.Proofs.Patterns
import Mathlib.Data.List.Chain

/-! Which patterns take every name. Percent signs in a row are read as one, so no two are ever next to
each other among the tokens of a pattern. Any other token asks for a character, which the empty name does
not have; and without a token, no other name is taken. So two names are enough to tell. -/
namespace CacheCatalog
namespace Pattern

def Collapsed (ts : List PatternToken) : Prop :=
  ts.IsChain fun t u => t = .any → u ≠ .any

section Tokens
variable {t : PatternToken} {ts : List PatternToken}

theorem collapsed_any_iff : Collapsed (.any :: ts) ↔ ts.head? ≠ some .any ∧ Collapsed ts := by
  rw [Collapsed, List.isChain_cons]
  constructor
  · rintro ⟨hnext, hts⟩
    exact ⟨fun hhead => hnext .any hhead rfl rfl, hts⟩
  · rintro ⟨hhead, hts⟩
    refine ⟨?_, hts⟩
    rintro u hu - rfl
    exact hhead hu

theorem Collapsed.cons (h : Collapsed ts) (ht : t ≠ .any) : Collapsed (t :: ts) :=
  List.IsChain.cons h fun _ _ hany => absurd hany ht

theorem Collapsed.eq_any (h : Collapsed ts) (hts : ts ≠ []) (hall : ∀ t ∈ ts, t = .any) :
    ts = [.any] := by
  cases ts with
  | nil => exact absurd rfl hts
  | cons t later =>
    obtain ⟨rfl, hlater⟩ := List.forall_mem_cons.1 hall
    cases later with
    | nil => rfl
    | cons u =>
      obtain ⟨rfl, -⟩ := List.forall_mem_cons.1 hlater
      exact absurd rfl (collapsed_any_iff.1 h).1

end Tokens

theorem collapsed_tokenize (p : List Char) : Collapsed (tokenize p) := by
  fun_induction tokenize p with
  | case1 => exact .nil
  | case2 p ts hts ih => exact hts ▸ ih
  | case3 p hnone ih =>
    -- the sign is kept as a token of its own where the tokens behind it begin with none
    refine collapsed_any_iff.2 ⟨fun hhead => ?_, ih⟩
    obtain ⟨later, hts⟩ := List.head?_eq_some_iff.1 hhead
    exact hnone later hts
  | case4 p ih => exact ih.cons nofun
  | case5 c p ih => exact ih.cons nofun
  | case6 c p _ _ _ ih => exact ih.cons nofun

theorem collapsed_ofOption (pattern : Option String) : Collapsed (ofOption pattern).tokens := by
  cases pattern with
  | none => exact .singleton _
  | some s =>
    rw [ofOption]
    split
    · exact .singleton _
    · exact collapsed_tokenize s.toList

section Names
variable {p : Pattern} {name : String}

theorem isWildcard_iff_eq_every : p.isWildcard = true ↔ p = every := by
  rw [isWildcard, beq_iff_eq, every, Pattern.mk.injEq]

theorem accepts_empty_iff : p.accepts "" = true ↔ ∀ t ∈ p.tokens, t = .any := by
  rw [accepts_iff, String.toList_empty, standFor_nil, List.all_eq_true]
  simp only [beq_iff_eq]

theorem tokens_ne_nil_of_accepts (h : p.accepts name = true) (hname : name ≠ "") :
    p.tokens ≠ [] := by
  intro hnil
  rw [accepts_iff, hnil] at h
  exact hname (String.toList_eq_nil_iff.1 h)

theorem accepts_of_isWildcard (h : p.isWildcard = true) (name : String) : p.accepts name = true := by
  rw [isWildcard_iff_eq_every.1 h]
  exact every_accepts name

/-- Whatever asks for a character refuses the empty name, and a pattern without tokens any other. -/
theorem isWildcard_of_accepts_two (hp : Collapsed p.tokens) (hempty : p.accepts "" = true)
    (h : p.accepts name = true) (hname : name ≠ "") : p.isWildcard = true := by
  have htokens : p.tokens = [.any] :=
    hp.eq_any (tokens_ne_nil_of_accepts h hname) (accepts_empty_iff.1 hempty)
  rw [isWildcard, htokens, beq_self_eq_true]

theorem isWildcard_iff_of_collapsed (hp : Collapsed p.tokens) :
    p.isWildcard = true ↔ ∀ name, p.accepts name = true := by
  constructor
  · exact accepts_of_isWildcard
  · intro hall
    exact isWildcard_of_accepts_two hp (hall "") (hall "a") (by decide)

end Names

theorem isWildcard_iff_forall_accepts :
    (∀ pattern : String, (ofString pattern).isWildcard = true ↔
      ∀ name, (ofString pattern).accepts name = true) ∧
    ∀ pattern : Option String, (ofOption pattern).isWildcard = true ↔
      ∀ name, (ofOption pattern).accepts name = true := by
  constructor
  · intro pattern
    exact isWildcard_iff_of_collapsed (collapsed_tokenize pattern.toList)
  · intro pattern
    exact isWildcard_iff_of_collapsed (collapsed_ofOption pattern)

example : (ofString "%%%").isWildcard = true ∧ (ofString "%\\%%").isWildcard = false := by
  decide +kernel

end Pattern
end CacheCatalog
