import CacheCatalog.Proofs.Quotation
import CacheCatalog.Settings
import Mathlib.Data.List.DropRight

/-! The grammar of connection strings. Segments are ended by a semicolon or by the end of the string; a
blank one gives nothing and any other one gives a pair. Every string begins with a segment or with a
fault, so a string that is not made of segments has a first fault; the reading gives the pairs of the
segments, or that fault. -/
namespace CacheCatalog.Settings

def Ended (rest : List Char) : Prop := ∀ c ∈ rest.head?, c = ';'

inductive Segment where
  | blank (blanks : List Char)
  | plain (key value : List Char)
  | braced (key blanks value ignored : List Char)

def IsBlank (cs : List Char) : Prop := ∀ c ∈ cs, Text.isBlank c = true

def IsKey (key : List Char) : Prop := (∀ c ∈ key, c ≠ '=' ∧ c ≠ ';') ∧ Text.trim key ≠ []

namespace Segment

def text : Segment → List Char
  | blank blanks => blanks
  | plain key value => key ++ '=' :: value
  | braced key blanks value ignored =>
    key ++ '=' :: (blanks ++ '{' :: (doubled value ++ '}' :: ignored))

def pair? : Segment → Option (String × String)
  | blank _ => none
  | plain key value => some (String.ofList (Text.trim key), String.ofList (Text.trim value))
  | braced key _ value _ => some (String.ofList (Text.trim key), String.ofList value)

def WellFormed : Segment → Prop
  | blank blanks => IsBlank blanks
  | plain key value =>
    IsKey key ∧ (∀ c ∈ value, c ≠ ';') ∧ (Text.trimStart value).head? ≠ some '{'
  | braced key blanks _ ignored =>
    IsKey key ∧ IsBlank blanks ∧ (∀ c ∈ ignored, c ≠ ';') ∧ ignored.head? ≠ some '}'

end Segment

inductive Spelled : List Char → List (String × String) → Prop
  | last {s : Segment} (h : s.WellFormed) : Spelled s.text s.pair?.toList
  | more {s : Segment} {rest : List Char} {ps : List (String × String)} (h : s.WellFormed)
    (hrest : Spelled rest ps) : Spelled (s.text ++ ';' :: rest) (s.pair?.toList ++ ps)

inductive Faulty : List Char → SettingFault → Prop
  | missingValue {key rest : List Char} (hkey : IsKey key) (hrest : Ended rest) :
    Faulty (key ++ rest) (.missingValue (String.ofList (Text.trim key)))
  | missingKey {key rest : List Char} (hkey : IsBlank key) : Faulty (key ++ '=' :: rest) .missingKey
  | openBrace {key blanks body : List Char} (hkey : IsKey key) (hblanks : IsBlank blanks) :
    Faulty (key ++ '=' :: (blanks ++ '{' :: doubled body)) (.openBrace (String.ofList (Text.trim key)))
  | more {s : Segment} {rest : List Char} {fault : SettingFault} (h : s.WellFormed)
    (hrest : Faulty rest fault) : Faulty (s.text ++ ';' :: rest) fault

section Parts
variable {key blanks value rest : List Char}

theorem IsKey.inKey (h : IsKey key) : ∀ c ∈ key, inKey c = true := by
  intro c hc
  obtain ⟨hmark, hend⟩ := h.1 c hc
  simp [Settings.inKey, hmark, hend]

theorem IsKey.not_allBlank (h : IsKey key) : Text.allBlank key = false := by
  rw [← Bool.not_eq_true, ← Text.trim_eq_nil_iff]
  exact h.2

theorem IsBlank.allBlank (h : IsBlank blanks) : Text.allBlank blanks = true := List.all_eq_true.2 h

theorem inKey_of_isBlank {c : Char} (h : Text.isBlank c = true) : inKey c = true := by
  by_contra hnot
  have hmark : c = '=' ∨ c = ';' := by
    by_contra hother
    simp_all [inKey]
  obtain rfl | rfl := hmark <;> exact absurd h (by decide)

theorem IsBlank.inKey (h : IsBlank blanks) : ∀ c ∈ blanks, inKey c = true :=
  fun c hc => inKey_of_isBlank (h c hc)

theorem trimStart_append_of_isBlank (h : IsBlank blanks) (cs : List Char) :
    Text.trimStart (blanks ++ cs) = Text.trimStart cs := List.dropWhile_append_of_pos h

theorem Ended.cases (h : Ended rest) : rest = [] ∨ ∃ later, rest = ';' :: later := by
  cases rest with
  | nil => exact .inl rfl
  | cons c later => exact .inr ⟨later, by rw [h c rfl]⟩

theorem nextSegment_append (hvalue : ∀ c ∈ value, c ≠ ';') (hrest : Ended rest) :
    (value ++ rest).takeWhile inSegment = value ∧ nextSegment (value ++ rest) = rest.drop 1 := by
  have hin : ∀ c ∈ value, inSegment c = true := fun c hc => by simp [inSegment, hvalue c hc]
  unfold nextSegment
  rw [List.takeWhile_append_of_pos hin, List.dropWhile_append_of_pos hin]
  obtain rfl | ⟨later, rfl⟩ := hrest.cases
  · simp
  · simp [inSegment]

theorem trimStart_append_of_ended (hrest : Ended rest) :
    Text.trimStart (value ++ rest) = Text.trimStart value ++ rest := by
  have hstop : Text.trimStart rest = rest := by
    obtain rfl | ⟨later, rfl⟩ := hrest.cases <;> rfl
  unfold Text.trimStart at hstop ⊢
  rw [List.dropWhile_append, hstop]
  split
  · next hnil => rw [List.isEmpty_iff.1 hnil, List.nil_append]
  · rfl

end Parts

/-! The reading of a segment -/

section Equations
variable {key blanks value rest : List Char}

theorem value?_of_blanks (h : IsBlank blanks) (cs : List Char) : value? (blanks ++ cs) = value? cs := by
  unfold value?
  rw [trimStart_append_of_isBlank h]

theorem braced?_doubled_eq_none (body : List Char) : braced? (doubled body) = none := by
  induction body with
  | nil => rfl
  | cons c body ih =>
    rw [doubled_cons]
    split
    · next hc =>
      rw [List.cons_append, List.cons_append, List.nil_append, braced?, ih]
      rfl
    · next hc =>
      rw [List.cons_append, List.nil_append, braced?_cons hc, ih]
      rfl

theorem value?_open (body : List Char) : value? ('{' :: doubled body) = none := by
  have htrim : Text.trimStart ('{' :: doubled body) = '{' :: doubled body := rfl
  rw [value?, htrim]
  simp only [braced?_doubled_eq_none, Option.map_none]

theorem value?_plain (hvalue : ∀ c ∈ value, c ≠ ';')
    (hopen : (Text.trimStart value).head? ≠ some '{') (hrest : Ended rest) :
    value? (value ++ rest) = some (Text.trim value, rest.drop 1) := by
  have hin : ∀ c ∈ Text.trimStart value, c ≠ ';' :=
    fun c hc => hvalue c ((List.dropWhile_sublist _).mem hc)
  obtain ⟨htake, hnext⟩ := nextSegment_append hin hrest
  have htrim : Text.trim (Text.trimStart value) = Text.trim value := by
    simp only [Text.trim, Text.stripped, Text.trimStart]
    rw [List.dropWhile_idempotent]
  unfold value?
  rw [trimStart_append_of_ended hrest]
  split
  -- the brace would be the first of the value or the mark behind it, and it is neither
  · next body hbody =>
    exfalso
    cases hfirst : Text.trimStart value with
    | nil =>
      rw [hfirst, List.nil_append] at hbody
      have hend : '{' = ';' := hrest _ (by rw [hbody]; rfl)
      exact absurd hend (by decide)
    | cons c cs =>
      rw [hfirst, List.cons_append] at hbody
      rw [hfirst, (List.cons.inj hbody).1] at hopen
      exact hopen rfl
  · rw [htake, hnext, htrim]

theorem pairs_of_end (hkey : ∀ c ∈ key, inKey c = true) (hrest : Ended rest) :
    pairs (key ++ rest) = if Text.allBlank key then pairs (rest.drop 1)
      else .error (.missingValue (String.ofList (Text.trim key))) := by
  obtain rfl | ⟨later, rfl⟩ := hrest.cases
  · have hdrop : key.dropWhile inKey = [] := List.dropWhile_eq_nil_iff.2 hkey
    rw [List.append_nil, List.drop_nil, pairs_nil, pairs, List.takeWhile_eq_self_iff.2 hkey]
    split
    · rfl
    · next hcons =>
      rw [hdrop] at hcons
      cases hcons
  · obtain ⟨htake, hdrop⟩ := takeWhile_dropWhile_of_separator later hkey (c := ';') rfl
    rw [pairs, htake]
    split
    · next hnil =>
      rw [hdrop] at hnil
      cases hnil
    · next mark tail hcons =>
      rw [hdrop] at hcons
      obtain ⟨rfl, rfl⟩ := List.cons.inj hcons
      rfl

theorem pairs_text {s : Segment} (hs : s.WellFormed) (hrest : Ended rest) :
    pairs (s.text ++ rest) = (pairs (rest.drop 1)).map (s.pair?.toList ++ ·) := by
  cases s with
  | blank blanks =>
    rw [Segment.text, pairs_of_end (IsBlank.inKey hs) hrest, if_pos (IsBlank.allBlank hs)]
    show _ = (pairs (rest.drop 1)).map id
    rw [Except.map_id]
    rfl
  | plain key value =>
    obtain ⟨hkey, hvalue, hopen⟩ := hs
    rw [Segment.text, List.append_assoc, List.cons_append,
      pairs_of_value hkey.inKey hkey.not_allBlank (value?_plain hvalue hopen hrest)]
    rfl
  | braced key blanks value ignored =>
    obtain ⟨hkey, hblanks, hignored, hclosed⟩ := hs
    -- nothing doubles the closing brace, not even where the segment ends right behind it
    have hnot : (ignored ++ rest).head? ≠ some '}' := by
      cases ignored with
      | cons c cs => exact hclosed
      | nil =>
        intro hbrace
        have hend : '}' = ';' := hrest _ hbrace
        exact absurd hend (by decide)
    have hvalue : value? (blanks ++ '{' :: (doubled value ++ '}' :: (ignored ++ rest))) =
        some (value, rest.drop 1) := by
      rw [value?_of_blanks hblanks, value?_braced hnot, (nextSegment_append hignored hrest).2]
    have htext : (Segment.braced key blanks value ignored).text ++ rest =
        key ++ '=' :: (blanks ++ '{' :: (doubled value ++ '}' :: (ignored ++ rest))) := by
      simp [Segment.text]
    rw [htext, pairs_of_value hkey.inKey hkey.not_allBlank hvalue]
    rfl

end Equations

theorem ended_cons (rest : List Char) : Ended (';' :: rest) := fun _ hc => (Option.some.inj hc).symm

theorem pairs_of_spelled {cs : List Char} {ps : List (String × String)} (h : Spelled cs ps) :
    pairs cs = .ok ps := by
  induction h with
  | @last s hs =>
    have hend : pairs (s.text ++ []) = (pairs ([].drop 1)).map (s.pair?.toList ++ ·) :=
      pairs_text hs nofun
    rw [List.append_nil, List.drop_nil, pairs_nil] at hend
    rw [hend]
    exact congrArg Except.ok (List.append_nil _)
  | @more s rest ps hs _ ih =>
    rw [pairs_text hs (ended_cons rest)]
    show (pairs rest).map _ = _
    rw [ih]
    rfl

theorem pairs_of_faulty {cs : List Char} {fault : SettingFault} (h : Faulty cs fault) :
    pairs cs = .error fault := by
  induction h with
  | @missingValue key rest hkey hrest =>
    rw [pairs_of_end hkey.inKey hrest, hkey.not_allBlank]
    rfl
  | @missingKey key rest hkey => rw [pairs_of_mark hkey.inKey, if_pos hkey.allBlank]
  | @openBrace key blanks body hkey hblanks =>
    rw [pairs_of_mark hkey.inKey, hkey.not_allBlank, value?_of_blanks hblanks, value?_open]
    rfl
  | @more s rest fault hs _ ih =>
    rw [pairs_text hs (ended_cons rest)]
    show (pairs rest).map _ = _
    rw [ih]
    rfl

/-! What a string begins with -/

theorem exists_ended (cs : List Char) :
    ∃ value rest, cs = value ++ rest ∧ (∀ c ∈ value, c ≠ ';') ∧ Ended rest := by
  obtain ⟨value, rest, hsplit, hvalue, hrest⟩ := exists_split_while inSegment cs
  refine ⟨value, rest, hsplit, fun c hc => ?_, fun c hc => ?_⟩
  · simpa [inSegment] using hvalue c hc
  · simpa [inSegment] using hrest c hc

theorem isBlank_or_isKey {key : List Char} (h : ∀ c ∈ key, inKey c = true) :
    IsBlank key ∨ IsKey key := by
  cases hblank : Text.allBlank key with
  | true => exact .inl (List.all_eq_true.1 hblank)
  | false =>
    refine .inr ⟨fun c hc => by simpa [inKey] using h c hc, fun htrim => ?_⟩
    rw [Text.trim_eq_nil_iff.1 htrim] at hblank
    cases hblank

theorem closed_or_doubled (cs : List Char) :
    (∃ value rest, cs = doubled value ++ '}' :: rest ∧ rest.head? ≠ some '}') ∨
      ∃ body, cs = doubled body := by
  fun_induction braced? cs with
  | case1 => exact .inr ⟨[], rfl⟩
  | case2 cs ih =>
    obtain ⟨value, rest, rfl, hrest⟩ | ⟨body, rfl⟩ := ih
    · exact .inl ⟨'}' :: value, rest, by simp [doubled_cons], hrest⟩
    · exact .inr ⟨'}' :: body, by simp [doubled_cons]⟩
  | case3 cs hnext =>
    refine .inl ⟨[], cs, rfl, fun hbrace => ?_⟩
    obtain ⟨later, rfl⟩ := List.head?_eq_some_iff.1 hbrace
    exact hnext later rfl rfl
  | case4 c cs hnext hc ih =>
    obtain ⟨value, rest, rfl, hrest⟩ | ⟨body, rfl⟩ := ih
    · exact .inl ⟨c :: value, rest, by simp [doubled_cons, hc], hrest⟩
    · exact .inr ⟨c :: body, by simp [doubled_cons, hc]⟩

theorem begins_with_value {key : List Char} (hkey : IsKey key) (cs : List Char) :
    (∃ s rest, Segment.WellFormed s ∧ key ++ '=' :: cs = s.text ++ rest ∧ Ended rest) ∨
      ∃ fault, Faulty (key ++ '=' :: cs) fault := by
  obtain ⟨blanks, body, rfl, hblanks, hbody⟩ := exists_split_while Text.isBlank cs
  by_cases hopen : body.head? = some '{'
  · obtain ⟨body, rfl⟩ := List.head?_eq_some_iff.1 hopen
    obtain ⟨value, behind, rfl, hclosed⟩ | ⟨value, rfl⟩ := closed_or_doubled body
    · obtain ⟨ignored, rest, rfl, hignored, hrest⟩ := exists_ended behind
      have hnot : ignored.head? ≠ some '}' := by
        cases ignored with
        | nil => exact nofun
        | cons c ignored => exact hclosed
      refine .inl ⟨.braced key blanks value ignored, rest, ⟨hkey, hblanks, hignored, hnot⟩, ?_, hrest⟩
      simp [Segment.text]
    · exact .inr ⟨_, .openBrace hkey hblanks⟩
  · obtain ⟨value, rest, hsplit, hvalue, hrest⟩ := exists_ended (blanks ++ body)
    -- trimmed, the value and what follows it are the body, which begins with no brace
    have hplain : (Text.trimStart value).head? ≠ some '{' := by
      intro hbrace
      have hstart : Text.trimStart value ++ rest = body := by
        rw [← trimStart_append_of_ended hrest, ← hsplit, trimStart_append_of_isBlank hblanks]
        rw [Text.trimStart, Text.dropWhile_eq_self hbody]
      obtain ⟨later, hlater⟩ := List.head?_eq_some_iff.1 hbrace
      rw [hlater] at hstart
      exact hopen (by rw [← hstart]; rfl)
    refine .inl ⟨.plain key value, rest, ⟨hkey, hvalue, hplain⟩, ?_, hrest⟩
    rw [hsplit, Segment.text, List.append_assoc, List.cons_append]

theorem begins (cs : List Char) :
    (∃ s rest, Segment.WellFormed s ∧ cs = s.text ++ rest ∧ Ended rest) ∨ ∃ fault, Faulty cs fault := by
  obtain ⟨key, after, rfl, hin, hafter⟩ := exists_split_while inKey cs
  by_cases hended : Ended after
  · obtain hblank | hkey := isBlank_or_isKey hin
    · exact .inl ⟨.blank key, after, hblank, rfl, hended⟩
    · exact .inr ⟨_, .missingValue hkey hended⟩
  · obtain ⟨rest, rfl⟩ : ∃ rest, after = '=' :: rest := by
      cases after with
      | nil => exact absurd nofun hended
      | cons c rest =>
        have hmark : c = '=' ∨ c = ';' := by
          by_contra hother
          have := hafter c rfl
          simp_all [inKey]
        obtain rfl | rfl := hmark
        · exact ⟨rest, rfl⟩
        · exact absurd (ended_cons rest) hended
    obtain hblank | hkey := isBlank_or_isKey hin
    · exact .inr ⟨_, .missingKey hblank⟩
    · exact begins_with_value hkey rest

theorem spelled_or_faulty (cs : List Char) :
    (∃ ps, Spelled cs ps) ∨ ∃ fault, Faulty cs fault := by
  -- on the length: what follows a segment is a later part of the string, not its tail
  induction hn : cs.length using Nat.strong_induction_on generalizing cs with
  | _ n ih =>
    obtain ⟨s, rest, hs, rfl, hrest⟩ | hfault := begins cs
    · obtain rfl | ⟨later, rfl⟩ := hrest.cases
      · rw [List.append_nil]
        exact .inl ⟨_, .last hs⟩
      · have hshort : later.length < n := by
          rw [← hn, List.length_append, List.length_cons]
          omega
        obtain ⟨ps, hps⟩ | ⟨fault, hfault⟩ := ih _ hshort later rfl
        · exact .inl ⟨_, .more hs hps⟩
        · exact .inr ⟨fault, .more hs hfault⟩
    · exact .inr hfault

theorem spelled_of_pairs {cs : List Char} {ps : List (String × String)} (h : pairs cs = .ok ps) :
    Spelled cs ps := by
  obtain ⟨qs, hspelled⟩ | ⟨fault, hfaulty⟩ := spelled_or_faulty cs
  · obtain rfl := Except.ok.inj ((pairs_of_spelled hspelled).symm.trans h)
    exact hspelled
  · cases (pairs_of_faulty hfaulty).symm.trans h

theorem faulty_of_pairs {cs : List Char} {fault : SettingFault} (h : pairs cs = .error fault) :
    Faulty cs fault := by
  obtain ⟨ps, hspelled⟩ | ⟨fault', hfaulty⟩ := spelled_or_faulty cs
  · cases (pairs_of_spelled hspelled).symm.trans h
  · obtain rfl := Except.error.inj ((pairs_of_faulty hfaulty).symm.trans h)
    exact hfaulty

theorem parse_of_pairs_error {text : String} {fault : SettingFault}
    (h : pairs text.toList = .error fault) : parse text = .error (.setting fault) := by
  unfold parse read
  rw [h]
  rfl

/-- A string is read as the pairs of the segments that it is made of; where it is not made of segments,
it is refused by its first fault, and so are the settings that it should have given. -/
theorem pairs_iff_spelled (text : String) :
    (∀ ps, pairs text.toList = .ok ps ↔ Spelled text.toList ps) ∧
    (∀ fault, pairs text.toList = .error fault ↔ Faulty text.toList fault) ∧
    ((¬ ∃ ps, Spelled text.toList ps) → ∃ fault, pairs text.toList = .error fault ∧
      parse text = .error (.setting fault)) := by
  refine ⟨fun ps => ⟨spelled_of_pairs, pairs_of_spelled⟩,
    fun fault => ⟨faulty_of_pairs, pairs_of_faulty⟩, fun hnone => ?_⟩
  obtain ⟨fault, hfaulty⟩ := (spelled_or_faulty text.toList).resolve_left hnone
  have hpairs : pairs text.toList = .error fault := pairs_of_faulty hfaulty
  exact ⟨fault, hpairs, parse_of_pairs_error hpairs⟩

example : pairs " ;a = \x7bx\x7d\x7d;\x7d y; b=\x7d".toList = .ok [("a", "x\x7d;"), ("b", "\x7d")] := by
  decide +kernel

end CacheCatalog.Settings
