import CacheCatalog.Proofs.Quotation
import CacheCatalog.Settings
import Mathlib.Algebra.Group.Nat.Defs

/-! Settings as they are written. Each setting that there is gives one pair, its key in any letter
case, and the pairs can stand in any order; the text of such pairs is read as these settings again. -/
namespace CacheCatalog

namespace Text

theorem toLower_of_isBlank {c : Char} (h : isBlank c = true) : c.toLower = c := by
  unfold Char.toLower
  refine dif_neg fun hupper => ?_
  have hlow : 65 ≤ c.toNat := hupper.1
  have hhigh : c.toNat ≤ 90 := hupper.2
  simp only [isBlank, Bool.or_eq_true, Bool.and_eq_true, decide_eq_true_eq, beq_iff_eq] at h
  omega

theorem isBlank_of_mem_toDigits {n : Nat} {c : Char} (h : c ∈ Nat.toDigits 10 n) :
    isBlank c = false :=
  isBlank_of_isDigit (Nat.isDigit_of_mem_toDigits (by decide) (by decide) h)

end Text

open Settings (PlainKey inKey)

namespace SettingKey

def name : SettingKey → String
  | driver => "DRIVER"
  | address => "ADDRESS"
  | schema => "SCHEMA"
  | stringLength => "MAX_STRING_LENGTH"
  | bytesLength => "MAX_BINARY_LENGTH"
  | precision => "DECIMAL_PRECISION"
  | scale => "DECIMAL_SCALE"
  | logLevel => "LOG_LEVEL"
  | logFile => "LOG_FILE"

def all : List SettingKey :=
  [driver, address, schema, stringLength, bytesLength, precision, scale, logLevel, logFile]

theorem ofName?_congr {a b : String} (h : Text.sameName a b = true) : ofName? a = ofName? b := by
  have hfold := Text.sameName_iff.1 h
  unfold ofName? Text.sameName
  rw [hfold]

theorem ofName?_of_sameName {key : String} {k : SettingKey} (h : Text.sameName key k.name = true) :
    ofName? key = some k := by
  rw [ofName?_congr h]
  cases k <;> decide +kernel

theorem plainKey_of_sameName {key : String} {k : SettingKey}
    (h : Text.sameName key k.name = true) : PlainKey key := by
  have hfold : key.toList.map Char.toLower = k.name.toList.map Char.toLower :=
    Text.sameName_iff.1 h
  have hplain : (k.name.toList.map Char.toLower).all fun c => inKey c && !Text.isBlank c := by
    cases k <;> decide +kernel
  refine ⟨fun hnil => ?_, fun c hc => ?_⟩
  · rw [hnil, List.map_nil, eq_comm, List.map_eq_nil_iff] at hfold
    cases k <;> cases hfold
  · have hletter := List.all_eq_true.1 hplain c.toLower (hfold ▸ List.mem_map_of_mem hc)
    obtain ⟨hlower, hblank⟩ := Bool.and_eq_true_iff.1 hletter
    -- neither separators nor blanks have a letter case
    have hkey : inKey c = true := by
      by_contra hnot
      have hseparator : c = '=' ∨ c = ';' := by
        by_contra hother
        simp_all [inKey]
      obtain rfl | rfl := hseparator <;> exact absurd hlower (by decide)
    refine ⟨hkey, ?_⟩
    by_contra hnot
    rw [Bool.not_eq_false] at hnot
    rw [Text.toLower_of_isBlank hnot, hnot] at hblank
    exact absurd hblank (by decide)

end SettingKey

namespace Settings

structure Writable (s : Settings) : Prop where
  host : ∀ c ∈ s.host.toList.head?, Text.isBlank c = false
  port : s.port < 2 ^ 16
  stringLength : s.stringLength < 2 ^ 32
  bytesLength : s.bytesLength < 2 ^ 32
  precision : 1 ≤ s.precision ∧ s.precision ≤ 38
  scale : 0 ≤ s.scale ∧ s.scale ≤ s.precision

def text? (s : Settings) : SettingKey → Option String
  | .driver => s.driver
  | .address => some s.address
  | .schema => some s.schema
  | .stringLength => some (toString s.stringLength)
  | .bytesLength => some (toString s.bytesLength)
  | .precision => some (toString s.precision)
  | .scale => some (toString s.scale)
  | .logLevel => s.logLevel
  | .logFile => s.logFile

def entries (s : Settings) : List (SettingKey × String) :=
  SettingKey.all.filterMap fun k => (s.text? k).map fun value => (k, value)

theorem text?_of_mem_entries {s : Settings} {e : SettingKey × String} (h : e ∈ s.entries) :
    s.text? e.1 = some e.2 := by
  obtain ⟨k, -, hk⟩ := List.mem_filterMap.1 h
  obtain ⟨value, hvalue, rfl⟩ := Option.map_eq_some_iff.1 hk
  exact hvalue

def Gives (e : SettingKey × String) (pair : String × String) : Prop :=
  Text.sameName pair.1 e.1.name = true ∧ pair.2 = e.2

def WrittenAs (s : Settings) (pairs : List (String × String)) : Prop :=
  ∃ es, es.Perm s.entries ∧ List.Forall₂ Gives es pairs

/-- The settings `t`, but for one that is as in `s`. -/
def copy (s t : Settings) : SettingKey → Settings
  | .driver => { t with driver := s.driver }
  | .address => { t with host := s.host, port := s.port }
  | .schema => { t with schema := s.schema }
  | .stringLength => { t with stringLength := s.stringLength }
  | .bytesLength => { t with bytesLength := s.bytesLength }
  | .precision => { t with precision := s.precision }
  | .scale => { t with scale := s.scale }
  | .logLevel => { t with logLevel := s.logLevel }
  | .logFile => { t with logFile := s.logFile }

theorem copy_comm (s t : Settings) (j k : SettingKey) :
    s.copy (s.copy t j) k = s.copy (s.copy t k) j := by
  cases j <;> cases k <;> rfl

theorem foldl_copy_entries (s : Settings) :
    s.entries.foldl (fun t e => s.copy t e.1) {} = s := by
  obtain ⟨driver, host, port, schema, stringLength, bytesLength, precision, scale, logLevel,
    logFile⟩ := s
  cases driver <;> cases logLevel <;> cases logFile <;> rfl

section Values
variable {s : Settings}

theorem toList_address (s : Settings) :
    s.address.toList = s.host.toList ++ ':' :: Nat.toDigits 10 s.port := by
  show (s.host ++ ":" ++ Nat.repr s.port).toList = _
  rw [String.toList_append, String.toList_append, Nat.toList_repr, List.append_assoc]
  rfl

theorem trim_address (hs : s.Writable) : Text.trim s.address.toList = s.address.toList := by
  rw [toList_address]
  refine Text.trim_eq_self (fun c hc => ?_) fun c hc => ?_
  · cases hhost : s.host.toList with
    | nil =>
      rw [hhost] at hc
      obtain rfl : ':' = c := Option.some.inj hc
      rfl
    | cons d cs =>
      rw [hhost] at hc
      obtain rfl : d = c := Option.some.inj hc
      exact hs.host d (by rw [hhost]; rfl)
  · -- the last character is the last digit of the port
    rw [List.append_cons, List.getLast?_append_of_ne_nil _ Nat.toDigits_ne_nil] at hc
    exact Text.isBlank_of_mem_toDigits (List.mem_of_getLast? hc)

theorem readAddress_of_colon {value : String} {host port : List Char}
    (h : Text.trim value.toList = host ++ ':' :: port) (hport : ':' ∉ port) :
    readAddress value =
      match Text.word? 16 port with
      | some n => .ok (String.ofList host, n)
      | none => .error (.port (String.ofList port)) := by
  have hplain : ∀ c ∈ port.reverse, (c != ':') = true := by
    intro c hc
    rw [bne_iff_ne]
    rintro rfl
    exact hport (List.mem_reverse.1 hc)
  have hreverse : (Text.trim value.toList).reverse = port.reverse ++ ':' :: host.reverse := by
    rw [h, List.reverse_append, List.reverse_cons, List.append_assoc]
    rfl
  obtain ⟨hlater, hearlier⟩ :=
    takeWhile_dropWhile_of_separator host.reverse hplain (c := ':') rfl
  unfold readAddress
  cases hword : Text.word? 16 port <;>
    simp only [hreverse, hlater, hearlier, List.reverse_reverse, hword]

theorem readAddress_address (hs : s.Writable) : readAddress s.address = .ok (s.host, s.port) := by
  have hport : Text.word? 16 (Nat.toDigits 10 s.port) = some s.port := Text.word?_toDigits hs.port
  have hdigits : ':' ∉ Nat.toDigits 10 s.port := by
    intro hcolon
    have hdigit := Nat.isDigit_of_mem_toDigits (by decide) (by decide) hcolon
    exact absurd hdigit (by decide)
  rw [readAddress_of_colon ((trim_address hs).trans (toList_address s)) hdigits]
  simp only [hport, String.ofList_toList]

theorem readNumber_toString {α : Type} {read : List Char → Option α} {n : Nat} {a : α}
    (h : read (Nat.toDigits 10 n) = some a) (key : String) :
    readNumber read key (toString n) = .ok a := by
  have htext : (toString n).toList = Nat.toDigits 10 n := by simp
  have htrim : Text.trim (Nat.toDigits 10 n) = Nat.toDigits 10 n :=
    Text.trim_of_forall fun _ => Text.isBlank_of_mem_toDigits
  unfold readNumber
  rw [htext, htrim, h]

theorem set_of_text? (hs : s.Writable) {k : SettingKey} {key value : String}
    (hkey : SettingKey.ofName? key = some k) (hvalue : s.text? k = some value) (t : Settings) :
    t.set (key, value) = .ok (s.copy t k) := by
  unfold set
  simp only [hkey]
  cases k with
  | driver =>
    have hdriver : s.driver = some value := hvalue
    rw [copy, hdriver]
  | logLevel =>
    have hlevel : s.logLevel = some value := hvalue
    rw [copy, hlevel]
  | logFile =>
    have hfile : s.logFile = some value := hvalue
    rw [copy, hfile]
  | schema =>
    obtain rfl := Option.some.inj hvalue
    rfl
  | address =>
    obtain rfl := Option.some.inj hvalue
    rw [readAddress_address hs]
    rfl
  | stringLength =>
    obtain rfl := Option.some.inj hvalue
    rw [readNumber_toString (Text.word?_toDigits hs.stringLength)]
    rfl
  | bytesLength =>
    obtain rfl := Option.some.inj hvalue
    rw [readNumber_toString (Text.word?_toDigits hs.bytesLength)]
    rfl
  | precision =>
    obtain rfl := Option.some.inj hvalue
    -- thirty-eight at most, the precision fits into its word, and so does the scale below it
    have hfits : s.precision < 1 <<< 16 := by
      have hlarge := hs.precision.2
      show s.precision < 65536
      omega
    rw [readNumber_toString (Text.word?_toDigits hfits)]
    rfl
  | scale =>
    obtain rfl := Option.some.inj hvalue
    obtain ⟨n, hn⟩ := Int.eq_ofNat_of_zero_le hs.scale.1
    have hfits : Text.fitsSigned 16 (n : Int) = true := by
      have hle := hs.scale.2
      have hlarge := hs.precision.2
      have hlow : -32768 ≤ (n : Int) := by omega
      have hhigh : (n : Int) < 32768 := by omega
      exact Bool.and_eq_true_iff.2 ⟨decide_eq_true hlow, decide_eq_true hhigh⟩
    rw [copy, hn]
    show (readNumber (Text.signedWord? 16) key (toString n)).map _ = _
    rw [readNumber_toString (Text.signedWord?_toDigits hfits)]
    rfl

end Values

theorem plainKey_of_gives {es : List (SettingKey × String)} {ps : List (String × String)}
    (h : List.Forall₂ Gives es ps) : ∀ p ∈ ps, PlainKey p.1 := by
  induction h with
  | nil => exact fun p hp => absurd hp List.not_mem_nil
  | cons hhead _ ih =>
    exact List.forall_mem_cons.2 ⟨SettingKey.plainKey_of_sameName hhead.1, ih⟩

theorem setAll_of_gives {s : Settings} (hs : s.Writable) {es : List (SettingKey × String)}
    {ps : List (String × String)}
    (hps : List.Forall₂ Gives es ps)
    (hes : ∀ e ∈ es, s.text? e.1 = some e.2) (t : Settings) :
    setAll t ps = .ok (es.foldl (fun t e => s.copy t e.1) t) := by
  induction hps generalizing t with
  | nil => rfl
  | @cons e p es ps hhead _ ih =>
    rw [List.forall_mem_cons] at hes
    obtain ⟨key, value⟩ := p
    obtain ⟨hkey, rfl⟩ := hhead
    have hset := set_of_text? hs (SettingKey.ofName?_of_sameName hkey) hes.1 t
    rw [setAll]
    simp only [hset]
    exact ih hes.2 (s.copy t e.1)

/-- Settings are read back from every text that writes each of them. -/
theorem parse_joined {s : Settings} {ps : List (String × String)} (hs : s.Writable)
    (hps : s.WrittenAs ps) : parse (joined ps) = .ok s := by
  obtain ⟨es, hperm, hgives⟩ := hps
  have hset : setAll {} ps = .ok s := by
    rw [setAll_of_gives hs hgives fun e he => text?_of_mem_entries (hperm.mem_iff.1 he)]
    -- each setting is put in by itself, so the order makes no difference
    rw [hperm.foldl_eq' (fun j _ k _ t => s.copy_comm t j.1 k.1), foldl_copy_entries]
  have hdecimal : checkDecimal s.precision s.scale = .ok () := by
    obtain ⟨hfew, hmany⟩ := hs.precision
    obtain ⟨hnonneg, hle⟩ := hs.scale
    unfold checkDecimal maxPrecision
    rw [if_neg (by omega), if_neg (by omega)]
  unfold parse read
  rw [pairs_joined (plainKey_of_gives hgives)]
  show ((setAll {} ps >>= _ : Except SettingFault Settings)).mapError _ = _
  rw [hset]
  show ((checkDecimal s.precision s.scale >>= _ : Except SettingFault Settings)).mapError _ = _
  rw [hdecimal]
  rfl

theorem parse_joined_of_braces :
    let s : Settings :=
      { driver := some "\x7b;=", host := "", port := 0, schema := " =;\x7d\x7d ", stringLength := 0,
        bytesLength := 4294967295, precision := 1, scale := 1, logFile := some "" }
    let ps := [("Log_File", ""), ("schema", " =;\x7d\x7d "), ("DECIMAL_SCALE", "1"),
      ("decimal_precision", "1"), ("Max_Binary_Length", "4294967295"), ("MAX_STRING_LENGTH", "0"),
      ("Driver", "\x7b;="), ("address", ":0")]
    s.Writable ∧ s.WrittenAs ps ∧ parse (joined ps) = .ok s ∧
    joined (ps.take 2) = "Log_File=\x7b\x7d;schema=\x7b =;\x7d\x7d\x7d\x7d \x7d" := by
  intro s ps
  have hs : s.Writable := ⟨nofun, by decide, by decide, by decide, by decide, by decide⟩
  have hps : s.WrittenAs ps := by
    refine ⟨[(.logFile, ""), (.schema, " =;\x7d\x7d "), (.scale, "1"), (.precision, "1"),
      (.bytesLength, "4294967295"), (.stringLength, "0"), (.driver, "\x7b;="), (.address, ":0")],
      by decide +kernel, ?_⟩
    repeat' constructor
  exact ⟨hs, hps, parse_joined hs hps, by decide +kernel⟩

end Settings
end CacheCatalog
