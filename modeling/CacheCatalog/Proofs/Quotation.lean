import CacheCatalog.Proofs.Results
import CacheCatalog.Settings.Pairs

/-! Pairs as they are written. A value between braces, its closing braces doubled, is read back
whatever it holds, and what stands behind it in the text is read on from the next semicolon; so a list
of pairs is read back from its text. -/
namespace CacheCatalog.Settings

def doubled (value : List Char) : List Char :=
  value.flatMap fun c => if c = '}' then ['}', '}'] else [c]

theorem doubled_cons (c : Char) (value : List Char) :
    doubled (c :: value) = (if c = '}' then ['}', '}'] else [c]) ++ doubled value := by
  rw [doubled, List.flatMap_cons]
  rfl

theorem braced?_close {rest : List Char} (h : rest.head? ≠ some '}') :
    braced? ('}' :: rest) = some ([], rest) := by
  cases rest with
  | nil => rfl
  | cons c rest =>
    have hc : c ≠ '}' := by
      rintro rfl
      exact h rfl
    rw [braced?]
    · rfl
    · rintro _ - hnext
      exact hc (List.cons.inj hnext).1

theorem braced?_cons {c : Char} (hc : c ≠ '}') (cs : List Char) :
    braced? (c :: cs) = (braced? cs).map fun (value, rest) => (c :: value, rest) := by
  rw [braced?]
  · rw [if_neg hc]
  · exact fun _ hbrace _ => hc hbrace

theorem braced?_doubled {rest : List Char} (h : rest.head? ≠ some '}') (value : List Char) :
    braced? (doubled value ++ '}' :: rest) = some (value, rest) := by
  induction value with
  | nil => exact braced?_close h
  | cons c value ih =>
    rw [doubled_cons]
    split
    · next hc =>
      subst hc
      rw [List.append_assoc, List.cons_append, List.cons_append, List.nil_append, braced?, ih]
      rfl
    · next hc =>
      rw [List.append_assoc, List.cons_append, List.nil_append, braced?_cons hc, ih]
      rfl

theorem value?_braced {value rest : List Char} (h : rest.head? ≠ some '}') :
    value? ('{' :: (doubled value ++ '}' :: rest)) = some (value, nextSegment rest) := by
  have htrim : Text.trimStart ('{' :: (doubled value ++ '}' :: rest)) =
      '{' :: (doubled value ++ '}' :: rest) := rfl
  rw [value?, htrim]
  simp only [braced?_doubled h, Option.map_some]

theorem pairs_of_mark {key : List Char} (hkey : ∀ c ∈ key, inKey c = true) (rest : List Char) :
    pairs (key ++ '=' :: rest) =
      if Text.allBlank key then .error .missingKey
      else match value? rest with
        | none => .error (.openBrace (String.ofList (Text.trim key)))
        | some (value, after) =>
          (pairs after).map ((String.ofList (Text.trim key), String.ofList value) :: ·) := by
  obtain ⟨htake, hdrop⟩ := takeWhile_dropWhile_of_separator rest hkey (c := '=') rfl
  rw [pairs, htake]
  split
  · next hnil =>
    rw [hdrop] at hnil
    cases hnil
  · next mark tail hcons =>
    rw [hdrop] at hcons
    obtain ⟨rfl, rfl⟩ := List.cons.inj hcons
    rw [if_neg (by decide)]
    split
    · rfl
    · split
      · next hvalue => simp only [hvalue]
      · next hvalue => simp only [hvalue]

theorem pairs_of_value {key rest value after : List Char} (hkey : ∀ c ∈ key, inKey c = true)
    (hname : Text.allBlank key = false) (hvalue : value? rest = some (value, after)) :
    pairs (key ++ '=' :: rest) =
      (pairs after).map ((String.ofList (Text.trim key), String.ofList value) :: ·) := by
  rw [pairs_of_mark hkey, if_neg (by rw [hname]; exact Bool.false_ne_true), hvalue]

def PlainKey (key : String) : Prop :=
  key.toList ≠ [] ∧ ∀ c ∈ key.toList, inKey c = true ∧ Text.isBlank c = false

def quoted (pair : String × String) : List Char :=
  pair.1.toList ++ '=' :: '{' :: (doubled pair.2.toList ++ ['}'])

def joined (pairs : List (String × String)) : String :=
  String.ofList (List.intercalate [';'] (pairs.map quoted))

theorem pairs_nil : pairs [] = .ok [] := by
  rw [pairs]
  rfl

theorem pairs_quoted {pair : String × String} (hkey : PlainKey pair.1) {rest : List Char}
    (hrest : rest.head? ≠ some '}') :
    pairs (quoted pair ++ rest) = (pairs (nextSegment rest)).map (pair :: ·) := by
  obtain ⟨hne, hplain⟩ := hkey
  have htrim : Text.trim pair.1.toList = pair.1.toList :=
    Text.trim_of_forall fun c hc => (hplain c hc).2
  have hname : Text.allBlank pair.1.toList = false := by
    rw [← Bool.not_eq_true, ← Text.trim_eq_nil_iff, htrim]
    exact hne
  have htext : quoted pair ++ rest =
      pair.1.toList ++ '=' :: '{' :: (doubled pair.2.toList ++ '}' :: rest) := by
    simp [quoted]
  rw [htext, pairs_of_value (fun c hc => (hplain c hc).1) hname (value?_braced hrest), htrim]
  simp only [String.ofList_toList]

theorem pairs_joined {ps : List (String × String)} (h : ∀ p ∈ ps, PlainKey p.1) :
    pairs (joined ps).toList = .ok ps := by
  rw [joined, String.toList_ofList]
  induction ps with
  | nil => exact pairs_nil
  | cons p ps ih =>
    rw [List.forall_mem_cons] at h
    cases ps with
    | nil =>
      have hlast : pairs (quoted p ++ []) = (pairs (nextSegment [])).map (p :: ·) :=
        pairs_quoted h.1 nofun
      rw [List.append_nil] at hlast
      rw [List.map_cons, List.map_nil, List.intercalate_singleton, hlast]
      show (pairs []).map (p :: ·) = _
      rw [pairs_nil]
      rfl
    | cons q ps =>
      rw [List.map_cons, List.map_cons, List.intercalate_cons_cons, ← List.map_cons,
        List.append_assoc, pairs_quoted h.1 (by simp)]
      show (pairs (List.intercalate [';'] ((q :: ps).map quoted))).map (p :: ·) = _
      rw [ih h.2]
      rfl

end CacheCatalog.Settings
