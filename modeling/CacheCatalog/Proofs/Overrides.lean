import CacheCatalog.Proofs.Defaults
import CacheCatalog.Proofs.Grammar
import CacheCatalog.Proofs.Literals
import CacheCatalog.Proofs.RoundTrip

/-! Settings that are given more than once. Where connection strings stand behind one another, each is
read as if it stood alone, and its pairs come behind those of the strings before it. Of the pairs for one
setting the last one counts; the others only have to be readable, and where none is given the setting
stays as it was. So it makes no difference in which order different settings are given. -/
namespace CacheCatalog

namespace Settings

theorem pairs_append_of_spelled {a : List Char} {ps : List (String × String)} (h : Spelled a ps)
    (b : List Char) : pairs (a ++ ';' :: b) = (pairs b).map (ps ++ ·) := by
  induction h with
  | @last s hs =>
    rw [pairs_text hs (ended_cons b)]
    rfl
  | @more s rest ps hs _ ih =>
    rw [List.append_assoc, List.cons_append, pairs_text hs (ended_cons _)]
    show (pairs (rest ++ ';' :: b)).map _ = _
    rw [ih]
    cases pairs b with
    | error fault => rfl
    | ok qs => exact congrArg Except.ok (List.append_assoc _ _ _).symm

/-- A string behind another one and a semicolon gives the pairs that it gives alone, behind those of the
other one, or it is refused with its own first fault. -/
theorem pairs_of_strings {a : String} {ps : List (String × String)} (ha : pairs a.toList = .ok ps)
    (b : String) :
    (∀ qs, pairs b.toList = .ok qs → pairs (a ++ ";" ++ b).toList = .ok (ps ++ qs)) ∧
    ∀ fault, pairs b.toList = .error fault → pairs (a ++ ";" ++ b).toList = .error fault ∧
      parse b = .error (.setting fault) ∧ parse (a ++ ";" ++ b) = .error (.setting fault) := by
  have hpairs : pairs (a ++ ";" ++ b).toList = (pairs b.toList).map (ps ++ ·) := by
    rw [String.toList_append, String.toList_append, List.append_assoc]
    exact pairs_append_of_spelled (spelled_of_pairs ha) b.toList
  refine ⟨fun qs hqs => ?_, fun fault hfault => ?_⟩
  · rw [hpairs, hqs]
    rfl
  · have hlater : pairs (a ++ ";" ++ b).toList = .error fault := by
      rw [hpairs, hfault]
      rfl
    exact ⟨hlater, parse_of_pairs_error hfault, parse_of_pairs_error hlater⟩

theorem pairs_of_strings_behind_blanks :
    let a := " ;k = \x7b;\x7d\x7d\x7d y; z = "
    (pairs a.toList = .ok [("k", ";\x7d"), ("z", "")] ∧ pairs "v=1".toList = .ok [("v", "1")] ∧
      pairs "u=\x7b".toList = .error (.openBrace "u")) ∧
    pairs (a ++ ";" ++ "v=1").toList = .ok [("k", ";\x7d"), ("z", ""), ("v", "1")] ∧
    pairs (a ++ ";" ++ "u=\x7b").toList = .error (.openBrace "u") := by
  intro a
  have ha : pairs a.toList = .ok [("k", ";\x7d"), ("z", "")] := by decide +kernel
  have hread : pairs "v=1".toList = .ok [("v", "1")] := by decide +kernel
  have hopen : pairs "u=\x7b".toList = .error (.openBrace "u") := by decide +kernel
  exact ⟨⟨ha, hread, hopen⟩, (pairs_of_strings ha "v=1").1 _ hread,
    ((pairs_of_strings ha "u=\x7b").2 _ hopen).1⟩

end Settings

namespace SettingKey

def Names (k : SettingKey) (key : String) : Prop :=
  Text.sameName key k.name = true ∨ k = .address ∧ Text.sameName key "SERVER" = true

instance (k : SettingKey) (key : String) : Decidable (k.Names key) :=
  inferInstanceAs (Decidable (_ ∨ _ ∧ _))

theorem ofName?_eq_some_iff {key : String} {k : SettingKey} : ofName? key = some k ↔ k.Names key := by
  constructor
  · intro h
    obtain ⟨⟨spelling, j⟩, hfind, rfl⟩ := Option.map_eq_some_iff.1 h
    have hsame := List.find?_some hfind
    dsimp only at hsame
    have hmem := List.mem_of_find?_eq_some hfind
    simp only [spellings, List.mem_cons, Prod.mk.injEq, List.not_mem_nil, or_false] at hmem
    rcases hmem with ⟨rfl, rfl⟩ | ⟨rfl, rfl⟩ | ⟨rfl, rfl⟩ | hmem
    · exact .inl hsame
    · exact .inl hsame
    · exact .inr ⟨rfl, hsame⟩
    · rcases hmem with ⟨rfl, rfl⟩ | ⟨rfl, rfl⟩ | ⟨rfl, rfl⟩ | ⟨rfl, rfl⟩ | ⟨rfl, rfl⟩ | ⟨rfl, rfl⟩ |
        ⟨rfl, rfl⟩ <;> exact .inl hsame
  · rintro (hsame | ⟨rfl, hsame⟩)
    · exact ofName?_of_sameName hsame
    · rw [ofName?_congr hsame]
      decide +kernel

end SettingKey

namespace Settings

inductive Addressed : List Char → String → Nat → Prop
  | host {cs : List Char} (hne : cs ≠ []) (hplain : ':' ∉ cs) :
    Addressed cs (String.ofList cs) defaultPort
  | port {host port : List Char} {n : Nat} (hlast : ':' ∉ port)
    (hport : Text.UnsignedLiteral port n) (hn : n < 2 ^ 16) :
    Addressed (host ++ ':' :: port) (String.ofList host) n

def Reads (s : Settings) : SettingKey → String → Prop
  | .driver, value => s.driver = some value
  | .address, value => Addressed (Text.trim value.toList) s.host s.port
  | .schema, value => s.schema = value
  | .stringLength, value =>
    Text.UnsignedLiteral (Text.trim value.toList) s.stringLength ∧ s.stringLength < 2 ^ 32
  | .bytesLength, value =>
    Text.UnsignedLiteral (Text.trim value.toList) s.bytesLength ∧ s.bytesLength < 2 ^ 32
  | .precision, value =>
    Text.UnsignedLiteral (Text.trim value.toList) s.precision ∧ s.precision < 2 ^ 16
  | .scale, value =>
    Text.SignedLiteral (Text.trim value.toList) s.scale ∧ -2 ^ 15 ≤ s.scale ∧ s.scale < 2 ^ 15
  | .logLevel, value => s.logLevel = some value
  | .logFile, value => s.logFile = some value

def Agree (s t : Settings) : SettingKey → Prop
  | .driver => s.driver = t.driver
  | .address => s.host = t.host ∧ s.port = t.port
  | .schema => s.schema = t.schema
  | .stringLength => s.stringLength = t.stringLength
  | .bytesLength => s.bytesLength = t.bytesLength
  | .precision => s.precision = t.precision
  | .scale => s.scale = t.scale
  | .logLevel => s.logLevel = t.logLevel
  | .logFile => s.logFile = t.logFile

section Agreement
variable {s t u : Settings} {j k : SettingKey} {value : String}

theorem Agree.refl (s : Settings) (k : SettingKey) : s.Agree s k := by
  cases k <;> first | exact rfl | exact ⟨rfl, rfl⟩

theorem Agree.trans (hst : s.Agree t k) (htu : t.Agree u k) : s.Agree u k := by
  cases k <;> first | exact Eq.trans hst htu | exact ⟨hst.1.trans htu.1, hst.2.trans htu.2⟩

theorem Agree.symm (h : s.Agree t k) : t.Agree s k := by
  cases k <;> first | exact Eq.symm h | exact ⟨h.1.symm, h.2.symm⟩

theorem agree_copy (s t : Settings) (k : SettingKey) : (s.copy t k).Agree s k := by
  cases k <;> first | exact rfl | exact ⟨rfl, rfl⟩

theorem agree_copy_of_ne (s t : Settings) (h : k ≠ j) : (s.copy t j).Agree t k := by
  cases j <;> cases k <;> first | exact absurd rfl h | exact rfl | exact ⟨rfl, rfl⟩

theorem copy_copy (s t : Settings) (k : SettingKey) : s.copy t k = (s.copy t k).copy t k := by
  cases k <;> rfl

theorem Reads.of_agree (h : s.Agree t k) (hs : s.Reads k value) : t.Reads k value := by
  cases k with
  | driver | schema | logLevel | logFile => exact Eq.trans (Eq.symm h) hs
  | address =>
    obtain ⟨hhost, hport⟩ := h
    unfold Reads at hs ⊢
    rw [← hhost, ← hport]
    exact hs
  | stringLength | bytesLength | precision | scale =>
    unfold Agree at h
    unfold Reads at hs ⊢
    rw [← h]
    exact hs

theorem eq_of_agree (h : ∀ k, s.Agree t k) : s = t := by
  obtain ⟨hhost, hport⟩ := h .address
  have hdriver : s.driver = t.driver := h .driver
  have hschema : s.schema = t.schema := h .schema
  have hstring : s.stringLength = t.stringLength := h .stringLength
  have hbytes : s.bytesLength = t.bytesLength := h .bytesLength
  have hprecision : s.precision = t.precision := h .precision
  have hscale : s.scale = t.scale := h .scale
  have hlevel : s.logLevel = t.logLevel := h .logLevel
  have hfile : s.logFile = t.logFile := h .logFile
  cases s
  cases t
  simp_all

end Agreement

/-! What one pair does -/

theorem readAddress_of_plain {value : String} (h : ':' ∉ Text.trim value.toList) :
    readAddress value =
      if (Text.trim value.toList).isEmpty then .error .emptyAddress
      else .ok (String.ofList (Text.trim value.toList), defaultPort) := by
  have hdrop : (Text.trim value.toList).reverse.dropWhile (· != ':') = [] := by
    refine List.dropWhile_eq_nil_iff.2 fun c hc => ?_
    rw [bne_iff_ne]
    rintro rfl
    exact h (List.mem_reverse.1 hc)
  unfold readAddress
  simp only [hdrop]

theorem readAddress_eq_ok_iff {value host : String} {port : Nat} :
    readAddress value = .ok (host, port) ↔ Addressed (Text.trim value.toList) host port := by
  constructor
  · intro h
    by_cases hcolon : ':' ∈ Text.trim value.toList
    -- the first colon from behind is the last one
    · obtain ⟨later, earlier, hreverse, hlast⟩ :=
        List.eq_append_cons_of_mem (List.mem_reverse.2 hcolon)
      have hsplit : Text.trim value.toList = earlier.reverse ++ ':' :: later.reverse := by
        rw [← List.reverse_reverse (Text.trim value.toList), hreverse]
        simp
      have hlast' : ':' ∉ later.reverse := fun hc => hlast (List.mem_reverse.1 hc)
      rw [readAddress_of_colon hsplit hlast'] at h
      split at h
      · next n hn =>
        obtain ⟨rfl, rfl⟩ := Prod.mk.inj (Except.ok.inj h)
        obtain ⟨hport, hfits⟩ := Text.word?_eq_some_iff.1 hn
        rw [hsplit]
        exact .port hlast' hport hfits
      · cases h
    · rw [readAddress_of_plain hcolon] at h
      split at h
      · cases h
      · next hne =>
        obtain ⟨rfl, rfl⟩ := Prod.mk.inj (Except.ok.inj h)
        exact .host (fun hnil => hne (List.isEmpty_iff.2 hnil)) hcolon
  · intro h
    generalize htext : Text.trim value.toList = text at h
    cases h with
    | host hne hplain =>
      subst htext
      rw [readAddress_of_plain hplain, if_neg (List.isEmpty_iff.not.2 hne)]
    | port hlast hport hn =>
      rw [readAddress_of_colon htext hlast, Text.word?_eq_some_iff.2 ⟨hport, hn⟩]

theorem readNumber_eq_ok_iff {α : Type} {read : List Char → Option α} {key value : String} {a : α} :
    readNumber read key value = .ok a ↔ read (Text.trim value.toList) = some a := by
  unfold readNumber
  split
  · next n hn => simp [hn]
  · next hn => simp [hn]

theorem map_put_eq_ok {α : Type} {x : Except SettingFault α} {put : α → Settings}
    (get : Settings → α) (hget : ∀ a, get (put a) = a) {t : Settings} :
    x.map put = .ok t ↔ x = .ok (get t) ∧ t = put (get t) := by
  rw [map_eq_ok]
  constructor
  · rintro ⟨a, rfl, rfl⟩
    rw [hget]
    exact ⟨rfl, rfl⟩
  · rintro ⟨hx, ht⟩
    exact ⟨get t, hx, ht.symm⟩

section Pair
variable {s t u : Settings} {k : SettingKey} {key value : String}

theorem set_eq_ok_iff (hk : k.Names key) :
    s.set (key, value) = .ok t ↔ t.Reads k value ∧ t = t.copy s k := by
  have hof := SettingKey.ofName?_eq_some_iff.2 hk
  unfold set
  simp only [hof]
  -- what was put into a setting can be taken from it again, so the outcome tells what was read
  cases k with
  | driver =>
    show (Except.ok (some value)).map (fun driver => { s with driver }) = _ ↔ _
    rw [map_put_eq_ok Settings.driver fun _ => rfl, Except.ok.injEq, eq_comm]
    rfl
  | schema =>
    show (Except.ok value).map (fun schema => { s with schema }) = _ ↔ _
    rw [map_put_eq_ok Settings.schema fun _ => rfl, Except.ok.injEq, eq_comm]
    rfl
  | logLevel =>
    show (Except.ok (some value)).map (fun logLevel => { s with logLevel }) = _ ↔ _
    rw [map_put_eq_ok Settings.logLevel fun _ => rfl, Except.ok.injEq, eq_comm]
    rfl
  | logFile =>
    show (Except.ok (some value)).map (fun logFile => { s with logFile }) = _ ↔ _
    rw [map_put_eq_ok Settings.logFile fun _ => rfl, Except.ok.injEq, eq_comm]
    rfl
  | address =>
    rw [map_put_eq_ok (fun t => (t.host, t.port)) fun _ => rfl, readAddress_eq_ok_iff]
    rfl
  | stringLength =>
    rw [map_put_eq_ok Settings.stringLength fun _ => rfl, readNumber_eq_ok_iff,
      Text.word?_eq_some_iff]
    rfl
  | bytesLength =>
    rw [map_put_eq_ok Settings.bytesLength fun _ => rfl, readNumber_eq_ok_iff,
      Text.word?_eq_some_iff]
    rfl
  | precision =>
    rw [map_put_eq_ok Settings.precision fun _ => rfl, readNumber_eq_ok_iff,
      Text.word?_eq_some_iff]
    rfl
  | scale =>
    rw [map_put_eq_ok Settings.scale fun _ => rfl, readNumber_eq_ok_iff,
      Text.signedWord?_eq_some_iff]
    rfl

theorem set_of_other (h : ∀ k : SettingKey, ¬ k.Names key) : s.set (key, value) = .ok s := by
  have hnone : SettingKey.ofName? key = none :=
    Option.eq_none_iff_forall_ne_some.2 fun k hk => h k (SettingKey.ofName?_eq_some_iff.1 hk)
  unfold set
  simp only [hnone]

theorem of_set_eq_ok (h : s.set (key, value) = .ok t) :
    (∀ k : SettingKey, k.Names key → t.Reads k value) ∧
      ∀ k : SettingKey, ¬ k.Names key → t.Agree s k := by
  refine ⟨fun k hk => ((set_eq_ok_iff hk).1 h).1, fun k hk => ?_⟩
  by_cases hother : ∃ j : SettingKey, j.Names key
  · obtain ⟨j, hj⟩ := hother
    have hne : k ≠ j := by
      rintro rfl
      exact hk hj
    rw [((set_eq_ok_iff hj).1 h).2]
    exact agree_copy_of_ne t s hne
  · rw [set_of_other (not_exists.1 hother)] at h
    obtain rfl := Except.ok.inj h
    exact Agree.refl s k

theorem set_copy (s : Settings) (hk : k.Names key) (h : u.Reads k value) :
    s.set (key, value) = .ok (u.copy s k) :=
  (set_eq_ok_iff hk).2 ⟨h.of_agree (agree_copy u s k).symm, copy_copy u s k⟩

theorem exists_set (s : Settings)
    (h : ∀ k : SettingKey, k.Names key → ∃ u : Settings, u.Reads k value) :
    ∃ t, s.set (key, value) = .ok t := by
  by_cases hother : ∃ k : SettingKey, k.Names key
  · obtain ⟨k, hk⟩ := hother
    obtain ⟨u, hu⟩ := h k hk
    exact ⟨u.copy s k, set_copy s hk hu⟩
  · exact ⟨s, set_of_other (not_exists.1 hother)⟩

theorem Reads.agree (hs : s.Reads k value) (ht : t.Reads k value) : s.Agree t k := by
  have hname : k.Names k.name := .inl (Text.sameName_refl k.name)
  -- set to `value`, the default settings take this setting of `s` as well as that of `t`
  have hcopy : s.copy {} k = t.copy {} k :=
    Except.ok.inj ((set_copy {} hname hs).symm.trans (set_copy {} hname ht))
  have hleft := (agree_copy s {} k).symm
  rw [hcopy] at hleft
  exact hleft.trans (agree_copy t {} k)

end Pair

/-! What all pairs do -/

def given (ps : List (String × String)) (k : SettingKey) : List String :=
  (ps.filter fun p => k.Names p.1).map Prod.snd

structure Overrides (base : Settings) (ps : List (String × String)) (s : Settings) : Prop where
  readable : ∀ k, ∀ value ∈ given ps k, ∃ t : Settings, t.Reads k value
  last : ∀ k, ∀ value ∈ (given ps k).getLast?, s.Reads k value
  kept : ∀ k, given ps k = [] → s.Agree base k

section Pairs
variable {base s t : Settings} {p : String × String} {ps : List (String × String)} {k : SettingKey}

theorem given_cons_of_names (h : k.Names p.1) : given (p :: ps) k = p.2 :: given ps k := by
  unfold given
  rw [List.filter_cons_of_pos (by rwa [decide_eq_true_iff]), List.map_cons]

theorem given_cons_of_not_names (h : ¬ k.Names p.1) : given (p :: ps) k = given ps k := by
  unfold given
  rw [List.filter_cons_of_neg (by rwa [decide_eq_true_iff])]

theorem overrides_nil_iff : Overrides base [] s ↔ base = s := by
  constructor
  · exact fun h => eq_of_agree fun k => (h.kept k rfl).symm
  · rintro rfl
    exact ⟨fun k value hvalue => absurd hvalue List.not_mem_nil,
      fun k value hvalue => (by cases hvalue), fun k _ => Agree.refl base k⟩

theorem Overrides.cons (hset : base.set p = .ok t) (h : Overrides t ps s) :
    Overrides base (p :: ps) s := by
  obtain ⟨hreads, hkept⟩ := of_set_eq_ok hset
  constructor
  · intro k value hvalue
    by_cases hk : k.Names p.1
    · rw [given_cons_of_names hk] at hvalue
      obtain rfl | hvalue := List.mem_cons.1 hvalue
      · exact ⟨t, hreads k hk⟩
      · exact h.readable k value hvalue
    · rw [given_cons_of_not_names hk] at hvalue
      exact h.readable k value hvalue
  · intro k value hvalue
    by_cases hk : k.Names p.1
    · rw [given_cons_of_names hk, List.getLast?_cons] at hvalue
      obtain rfl := Option.some.inj hvalue
      -- the first pair counts only where no later one is for its setting
      cases hlast : (given ps k).getLast? with
      | none => exact (hreads k hk).of_agree (h.kept k (List.getLast?_eq_none_iff.1 hlast)).symm
      | some later => exact h.last k later hlast
    · rw [given_cons_of_not_names hk] at hvalue
      exact h.last k value hvalue
  · intro k hnone
    by_cases hk : k.Names p.1
    · rw [given_cons_of_names hk] at hnone
      cases hnone
    · rw [given_cons_of_not_names hk] at hnone
      exact (h.kept k hnone).trans (hkept k hk)

theorem Overrides.tail (hset : base.set p = .ok t) (h : Overrides base (p :: ps) s) :
    Overrides t ps s := by
  obtain ⟨hreads, hkept⟩ := of_set_eq_ok hset
  constructor
  · intro k value hvalue
    refine h.readable k value ?_
    by_cases hk : k.Names p.1
    · rw [given_cons_of_names hk]
      exact List.mem_cons_of_mem p.2 hvalue
    · rwa [given_cons_of_not_names hk]
  · intro k value hvalue
    refine h.last k value ?_
    by_cases hk : k.Names p.1
    · rw [given_cons_of_names hk, List.getLast?_cons, hvalue]
      rfl
    · rwa [given_cons_of_not_names hk]
  · intro k hnone
    by_cases hk : k.Names p.1
    -- the first pair was the last one for its setting, so it is what both have read
    · have hlast : s.Reads k p.2 := h.last k p.2 (by rw [given_cons_of_names hk, hnone]; rfl)
      exact hlast.agree (hreads k hk)
    · exact (h.kept k (by rwa [given_cons_of_not_names hk])).trans (hkept k hk).symm

theorem setAll_eq_ok_iff : setAll base ps = .ok s ↔ Overrides base ps s := by
  induction ps generalizing base with
  | nil =>
    rw [overrides_nil_iff, setAll, Except.ok.injEq]
  | cons p ps ih =>
    rw [setAll]
    constructor
    · intro h
      split at h
      · next t hset => exact (ih.1 h).cons hset
      · cases h
    · intro h
      obtain ⟨t, hset⟩ : ∃ t, base.set p = .ok t := by
        refine exists_set base fun k hk => h.readable k p.2 ?_
        rw [given_cons_of_names hk]
        exact List.mem_cons_self
      rw [hset]
      exact ih.2 (h.tail hset)

theorem Overrides.of_given {qs : List (String × String)} (h : Overrides base ps s)
    (hgiven : ∀ k, given ps k = given qs k) : Overrides base qs s := by
  constructor
  · exact fun k => hgiven k ▸ h.readable k
  · exact fun k => hgiven k ▸ h.last k
  · exact fun k => hgiven k ▸ h.kept k

end Pairs

inductive Rearranged (ps : List (String × String)) : List (String × String) → Prop
  | same : Rearranged ps ps
  | swap {before after : List (String × String)} {p q : String × String}
    (hpq : ∀ k : SettingKey, ¬ (k.Names p.1 ∧ k.Names q.1))
    (h : Rearranged ps (before ++ p :: q :: after)) : Rearranged ps (before ++ q :: p :: after)
  | insert {before after : List (String × String)} {p : String × String}
    (hp : ∀ k : SettingKey, ¬ k.Names p.1) (h : Rearranged ps (before ++ after)) :
    Rearranged ps (before ++ p :: after)

theorem given_append (ps qs : List (String × String)) (k : SettingKey) :
    given (ps ++ qs) k = given ps k ++ given qs k := by
  unfold given
  rw [List.filter_append, List.map_append]

theorem Rearranged.given_eq {ps qs : List (String × String)} (h : Rearranged ps qs) (k : SettingKey) :
    given ps k = given qs k := by
  induction h with
  | same => rfl
  | @swap before after p q hpq _ ih =>
    rw [ih, given_append, given_append]
    by_cases hp : k.Names p.1
    · have hq : ¬ k.Names q.1 := fun hq => hpq k ⟨hp, hq⟩
      rw [given_cons_of_names hp, given_cons_of_not_names hq, given_cons_of_not_names hq,
        given_cons_of_names hp]
    · rw [given_cons_of_not_names hp]
      by_cases hq : k.Names q.1
      · rw [given_cons_of_names hq, given_cons_of_names hq, given_cons_of_not_names hp]
      · rw [given_cons_of_not_names hq, given_cons_of_not_names hq, given_cons_of_not_names hp]
  | @insert before after p hp _ ih =>
    rw [ih, given_append, given_append, given_cons_of_not_names (hp k)]

/-- A connection string gives the settings that its pairs lead to from the default ones, provided that
the decimal sizes which come out of this fit; it is refused with a fault of its settings in every other
case. Strings of the same pairs give the same settings, whatever the order in which different settings
stand and whatever stands under keys that are none of theirs. -/
theorem parse_takes_last_pairs :
    (∀ (text : String) (s : Settings), parse text = .ok s ↔
      ∃ ps, pairs text.toList = .ok ps ∧ Overrides {} ps s ∧ s.DecimalFits) ∧
    (∀ text : String, (¬ ∃ s, parse text = .ok s) → ∃ fault, parse text = .error (.setting fault)) ∧
    ∀ (text other : String) (ps qs : List (String × String)), pairs text.toList = .ok ps →
      pairs other.toList = .ok qs → Rearranged ps qs →
        ∀ s, parse text = .ok s ↔ parse other = .ok s := by
  have hparse (text : String) (s : Settings) : parse text = .ok s ↔
      ∃ ps, pairs text.toList = .ok ps ∧ Overrides {} ps s ∧ s.DecimalFits := by
    simp only [parse_eq_ok_iff, setAll_eq_ok_iff]
  have hmono {text other : String} {ps qs : List (String × String)} {s : Settings}
      (htext : pairs text.toList = .ok ps) (hother : pairs other.toList = .ok qs)
      (hgiven : ∀ k, given ps k = given qs k) (hs : parse text = .ok s) : parse other = .ok s := by
    obtain ⟨ps', hps', hoverrides, hfits⟩ := (hparse text s).1 hs
    obtain rfl := Except.ok.inj (htext.symm.trans hps')
    exact (hparse other s).2 ⟨qs, hother, hoverrides.of_given hgiven, hfits⟩
  refine ⟨hparse, fun text hnone => ?_, fun text other ps qs htext hother h s => ⟨?_, ?_⟩⟩
  · obtain ⟨s, -, hs⟩ | ⟨fault, -, hfault⟩ := read_cases text
    · exact absurd ⟨s, hs⟩ hnone
    · exact ⟨fault, hfault⟩
  · exact hmono htext hother h.given_eq
  · exact hmono hother htext fun k => (h.given_eq k).symm

/-- The two addresses keep their order, while the schema goes before them and a key comes in that is of no
setting. -/
theorem parse_takes_pairs_in_any_order :
    let text := "server=a:1;schema=S;ADDRESS=b"
    let other := "schema=S;colour=red;server=a:1;ADDRESS=b"
    let ps := [("server", "a:1"), ("schema", "S"), ("ADDRESS", "b")]
    let qs := [("schema", "S"), ("colour", "red"), ("server", "a:1"), ("ADDRESS", "b")]
    (pairs text.toList = .ok ps ∧ pairs other.toList = .ok qs ∧ Rearranged ps qs) ∧
    (∀ s, parse text = .ok s ↔ parse other = .ok s) ∧
    parse other = .ok { schema := "S", host := "b" } := by
  intro text other ps qs
  have htext : pairs text.toList = .ok ps := by decide +kernel
  have hother : pairs other.toList = .ok qs := by decide +kernel
  have hkeys : ∀ k : SettingKey, ¬ (k.Names "server" ∧ k.Names "schema") := by
    intro k
    cases k <;> decide +kernel
  have hcolour : ∀ k : SettingKey, ¬ k.Names "colour" := by
    intro k
    cases k <;> decide +kernel
  have hswap : Rearranged ps [("schema", "S"), ("server", "a:1"), ("ADDRESS", "b")] :=
    @Rearranged.swap ps [] [("ADDRESS", "b")] ("server", "a:1") ("schema", "S") hkeys .same
  have h : Rearranged ps qs :=
    @Rearranged.insert ps [("schema", "S")] [("server", "a:1"), ("ADDRESS", "b")] ("colour", "red")
      hcolour hswap
  have hsame := parse_takes_last_pairs.2.2 text other ps qs htext hother h
  have hparse : parse text = .ok { schema := "S", host := "b" } := by decide +kernel
  exact ⟨⟨htext, hother, h⟩, hsame, (hsame _).1 hparse⟩

example : parse "decimal_precision=5;server= a ;k=v;DECIMAL_SCALE=5;Address= [::1]:+80 " =
    .ok { host := "[::1]", port := 80, precision := 5, scale := 5 } := by decide +kernel

end Settings
end CacheCatalog
