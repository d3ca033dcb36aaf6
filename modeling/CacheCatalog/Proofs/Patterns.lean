import CacheCatalog.Pattern
import Mathlib.Data.List.Forall2
import Mathlib.Data.List.Infix

/-! What patterns stand for. Each token says what it can leave of a name, and a pattern stands for a
name that its tokens can leave nothing of, one after another. The search for it never goes back to a
percent sign before the last: the tokens between two of them take one character each, so where they
can be found at all, the first place is as good as any later one. -/
namespace CacheCatalog

def PatternToken.Leaves : PatternToken → List Char → List Char → Prop
  | any, s, r => r <:+ s
  | t, s, r => ∃ d, t.takes d = true ∧ s = d :: r

def StandFor : List PatternToken → List Char → Prop
  | [], s => s = []
  | t :: ts, s => ∃ r, t.Leaves s r ∧ StandFor ts r

def Spells (ts : List PatternToken) (s : List Char) : Prop :=
  List.Forall₂ (fun t d => t.takes d = true) ts s

theorem PatternToken.ne_any_of_takes {t : PatternToken} {d : Char} (h : t.takes d = true) :
    t ≠ .any := by
  rintro rfl
  cases h

theorem PatternToken.leaves_iff {t : PatternToken} (ht : t ≠ .any) {s r : List Char} :
    t.Leaves s r ↔ ∃ d, t.takes d = true ∧ s = d :: r := by
  cases t with
  | any => exact absurd rfl ht
  | one | exact => rfl

theorem Spells.ne_any {ts : List PatternToken} {s : List Char} (h : Spells ts s) :
    ∀ t ∈ ts, t ≠ .any := by
  induction h with
  | nil => simp
  | cons htakes _ ih => exact List.forall_mem_cons.2 ⟨PatternToken.ne_any_of_takes htakes, ih⟩

namespace Pattern
variable {ts : List PatternToken} {s : List Char}

theorem standFor_nil : StandFor ts [] ↔ ts.all (· == .any) = true := by
  induction ts with
  | nil => simp [StandFor]
  | cons t ts ih =>
    rw [StandFor, List.all_cons, Bool.and_eq_true, ← ih]
    cases t <;> simp [PatternToken.Leaves]

theorem standFor_append (hts : ∀ t ∈ ts, t ≠ .any) {later : List PatternToken} :
    StandFor (ts ++ later) s ↔ ∃ taken r, s = taken ++ r ∧ Spells ts taken ∧ StandFor later r := by
  induction ts generalizing s with
  | nil => simp [Spells]
  | cons t ts ih =>
    rw [List.forall_mem_cons] at hts
    simp only [List.cons_append, StandFor, PatternToken.leaves_iff hts.1, ih hts.2]
    constructor
    · rintro ⟨_, ⟨d, htakes, rfl⟩, taken, r, rfl, hspells, hlater⟩
      exact ⟨d :: taken, r, rfl, .cons htakes hspells, hlater⟩
    · rintro ⟨_, r, rfl, hspells, hlater⟩
      obtain ⟨d, taken, htakes, hrest, rfl⟩ := List.forall₂_cons_left_iff.1 hspells
      exact ⟨taken ++ r, ⟨d, htakes, rfl⟩, taken, r, rfl, hrest, hlater⟩

def FoundIn (ts : List PatternToken) (s : List Char) : Prop := ∃ r, r <:+ s ∧ StandFor ts r

theorem foundIn_of_standFor (h : StandFor ts s) : FoundIn ts s := ⟨s, List.suffix_rfl, h⟩

theorem foundIn_tail_iff (h : ¬ StandFor ts s) : FoundIn ts s ↔ FoundIn ts s.tail := by
  cases s with
  | nil => rfl
  | cons d s =>
    constructor
    · rintro ⟨r, hr, hts⟩
      rcases List.suffix_cons_iff.1 hr with rfl | hr
      · exact absurd hts h
      · exact ⟨r, hr, hts⟩
    · rintro ⟨r, hr, hts⟩
      exact ⟨r, hr.trans (List.suffix_cons d s), hts⟩

section Exchange
variable {later : List PatternToken} {taken rest : List Char}

/-- Wherever tokens are found that spell a first part of a text, no more is left behind them than
behind that part. -/
theorem exists_suffix_of_foundIn (h : Spells ts taken) (hfound : FoundIn (ts ++ later) (taken ++ rest)) :
    ∃ r, r <:+ rest ∧ StandFor later r := by
  obtain ⟨_, hsuffix, hts⟩ := hfound
  obtain ⟨taken', r, rfl, hspells, hlater⟩ := (standFor_append h.ne_any).1 hts
  -- the tokens spell both parts, so these have one length, and what is left behind them compares
  have hlength : taken'.length = taken.length := by rw [← hspells.length_eq, h.length_eq]
  have hle := hsuffix.length_le
  rw [List.length_append, List.length_append] at hle
  have hr : r <:+ taken ++ rest := (List.suffix_append taken' r).trans hsuffix
  exact ⟨r, List.suffix_of_suffix_length_le hr (List.suffix_append taken rest) (by omega), hlater⟩

theorem standFor_of_spells (h : Spells ts taken) (hlater : StandFor later rest) :
    StandFor (ts ++ later) (taken ++ rest) :=
  (standFor_append h.ne_any).2 ⟨taken, rest, rfl, h, hlater⟩

end Exchange

theorem stretch_cases (ts : List PatternToken) (s : List Char) :
    (∃ before later, ts = before ++ later ∧ Spells before s ∧
      stretch ts s = .ended (later.all (· == .any))) ∨
    (∃ before later taken rest, ts = before ++ .any :: later ∧ s = taken ++ rest ∧
      Spells before taken ∧ stretch ts s = .any later rest) ∨
    (¬ StandFor ts s ∧ stretch ts s = .stuck) := by
  fun_induction stretch ts s with
  | case1 ts => exact .inl ⟨[], ts, rfl, .nil, rfl⟩
  | case2 d s => exact .inr (.inr ⟨by simp [StandFor], rfl⟩)
  | case3 ts d s => exact .inr (.inl ⟨[], ts, [], d :: s, rfl, rfl, .nil, rfl⟩)
  | case4 t ts d s hany htakes ih =>
    obtain ⟨before, later, rfl, hspells, hended⟩ | ⟨before, later, taken, rest, rfl, rfl, hspells, hsign⟩ |
      ⟨hnot, hstuck⟩ := ih
    · exact .inl ⟨t :: before, later, rfl, .cons htakes hspells, hended⟩
    · exact .inr (.inl ⟨t :: before, later, d :: taken, rest, rfl, rfl, .cons htakes hspells, hsign⟩)
    -- the token can leave no other rest than this one
    · refine .inr (.inr ⟨?_, hstuck⟩)
      rintro ⟨r, hleaves, hts⟩
      obtain ⟨_, -, hcons⟩ := (PatternToken.leaves_iff (PatternToken.ne_any_of_takes htakes)).1 hleaves
      obtain ⟨-, rfl⟩ := List.cons.inj hcons
      exact hnot hts
  | case5 t ts d s hany htakes =>
    refine .inr (.inr ⟨?_, rfl⟩)
    rintro ⟨r, hleaves, -⟩
    obtain ⟨_, htakes', hcons⟩ := (PatternToken.leaves_iff hany).1 hleaves
    obtain ⟨rfl, -⟩ := List.cons.inj hcons
    exact htakes htakes'

/-! A stretch that does not get stuck decides, of the text and of all its suffixes at once, whether the
tokens stand for one of them. -/

theorem of_stretch_ended {holds : Bool} (h : stretch ts s = .ended holds) :
    (FoundIn ts s ↔ holds = true) ∧ (StandFor ts s ↔ holds = true) := by
  obtain ⟨before, later, rfl, hspells, hended⟩ | ⟨_, _, _, _, -, -, -, hsign⟩ | ⟨-, hstuck⟩ :=
    stretch_cases ts s
  · obtain rfl := Stretch.ended.inj (hended.symm.trans h)
    have hfound : FoundIn (before ++ later) s → later.all (· == .any) = true := by
      intro hfound
      rw [← List.append_nil s] at hfound
      obtain ⟨r, hr, hlater⟩ := exists_suffix_of_foundIn hspells hfound
      rw [List.suffix_nil.1 hr] at hlater
      exact standFor_nil.1 hlater
    have hstand : later.all (· == .any) = true → StandFor (before ++ later) s := by
      intro hlater
      rw [← List.append_nil s]
      exact standFor_of_spells hspells (standFor_nil.2 hlater)
    exact ⟨⟨hfound, foundIn_of_standFor ∘ hstand⟩, hfound ∘ foundIn_of_standFor, hstand⟩
  · cases hsign.symm.trans h
  · cases hstuck.symm.trans h

theorem of_stretch_any {ts' : List PatternToken} {s' : List Char} (h : stretch ts s = .any ts' s') :
    (FoundIn ts s ↔ FoundIn ts' s') ∧ (StandFor ts s ↔ FoundIn ts' s') := by
  obtain ⟨_, _, -, -, hended⟩ | ⟨before, later, taken, rest, rfl, rfl, hspells, hsign⟩ | ⟨-, hstuck⟩ :=
    stretch_cases ts s
  · cases hended.symm.trans h
  · obtain ⟨rfl, rfl⟩ := Stretch.any.inj (hsign.symm.trans h)
    have hfound : FoundIn (before ++ .any :: later) (taken ++ rest) → FoundIn later rest := by
      intro hfound
      obtain ⟨r, hr, r', hr', hlater⟩ := exists_suffix_of_foundIn hspells hfound
      exact ⟨r', List.IsSuffix.trans hr' hr, hlater⟩
    have hstand : FoundIn later rest → StandFor (before ++ .any :: later) (taken ++ rest) :=
      fun ⟨r, hr, hlater⟩ => standFor_of_spells hspells ⟨r, hr, hlater⟩
    exact ⟨⟨hfound, foundIn_of_standFor ∘ hstand⟩, hfound ∘ foundIn_of_standFor, hstand⟩
  · cases hstuck.symm.trans h

theorem not_standFor_of_stuck (h : stretch ts s = .stuck) : ¬ StandFor ts s := by
  obtain ⟨_, _, -, -, hended⟩ | ⟨_, _, _, _, -, -, -, hsign⟩ | ⟨hnot, -⟩ := stretch_cases ts s
  · cases hended.symm.trans h
  · cases hsign.symm.trans h
  · exact hnot

theorem search_iff (ts : List PatternToken) (s : List Char) : search ts s = true ↔ FoundIn ts s := by
  fun_induction search ts s with
  | case1 ts s holds hended => exact (of_stretch_ended hended).1.symm
  | case2 ts s ts' s' hsign ih => exact ih.trans (of_stretch_any hsign).1.symm
  | case3 ts s hstuck ih => exact ih.trans (foundIn_tail_iff (not_standFor_of_stuck hstuck)).symm

theorem accepts_iff {p : Pattern} {name : String} :
    p.accepts name = true ↔ StandFor p.tokens name.toList := by
  unfold accepts
  split
  · next holds hended => exact (of_stretch_ended hended).2.symm
  · next ts s hsign => exact (search_iff ts s).trans (of_stretch_any hsign).2.symm
  · next hstuck =>
    simp only [Bool.false_eq_true, false_iff]
    exact not_standFor_of_stuck hstuck

theorem every_accepts (name : String) : every.accepts name = true :=
  accepts_iff.2 ⟨[], List.nil_suffix, rfl⟩

theorem standFor_exact {cs s : List Char} :
    StandFor (cs.map .exact) s ↔ cs.map Char.toLower = s.map Char.toLower := by
  induction cs generalizing s with
  | nil => simp [StandFor, eq_comm]
  | cons c cs ih =>
    rw [List.map_cons, List.map_cons, StandFor]
    cases s with
    | nil => simp [PatternToken.Leaves]
    | cons d s =>
      constructor
      · rintro ⟨r, ⟨_, hletter, heq⟩, hrest⟩
        obtain ⟨rfl, rfl⟩ := List.cons.inj heq
        rw [List.map_cons, ← ih.1 hrest, eq_of_beq hletter]
      · intro h
        obtain ⟨hletter, hrest⟩ := List.cons.inj h
        exact ⟨s, ⟨d, beq_iff_eq.2 hletter, rfl⟩, ih.2 hrest⟩

/-! Names as patterns -/

def isSpecial (c : Char) : Bool := c == '%' || c == '_' || c == '\\'

def escape (name : String) : String :=
  String.ofList (name.toList.flatMap fun c => if isSpecial c then ['\\', c] else [c])

theorem tokenize_cons {c : Char} (h : isSpecial c = false) (cs : List Char) :
    tokenize (c :: cs) = .exact c :: tokenize cs := by
  simp only [isSpecial, Bool.or_eq_false_iff, beq_eq_false_iff_ne, ne_eq] at h
  obtain ⟨⟨hpercent, hunderscore⟩, hbackslash⟩ := h
  conv_lhs => unfold tokenize
  split <;> simp_all

theorem tokenize_escape (name : String) :
    tokenize (escape name).toList = name.toList.map .exact := by
  rw [escape, String.toList_ofList]
  induction name.toList with
  | nil => rfl
  | cons c cs ih =>
    rw [List.flatMap_cons, List.map_cons, ← ih]
    cases h : isSpecial c with
    | true => rfl
    | false => exact tokenize_cons h _

theorem escape_ne_empty {name : String} (h : name ≠ "") : escape name ≠ "" := by
  intro hempty
  have htokens : name.toList.map PatternToken.exact = [] := by
    rw [← tokenize_escape, hempty]
    rfl
  exact h (String.toList_eq_nil_iff.1 (List.map_eq_nil_iff.1 htokens))

theorem accepts_escape {s name : String} (h : s ≠ "") :
    (ofOption (some (escape s))).accepts name = Text.sameName s name := by
  have hpattern : ofOption (some (escape s)) = ofString (escape s) := by
    rw [ofOption, if_neg]
    rw [String.isEmpty_iff]
    exact escape_ne_empty h
  rw [hpattern, Bool.eq_iff_iff, accepts_iff, Text.sameName_iff, ofString, tokenize_escape]
  exact standFor_exact

end Pattern
end CacheCatalog
