import CacheCatalog.Error
import CacheCatalog.Text.Characters

/-!
Connection strings as pairs of a key and a value. Segments end at a semicolon; a blank one counts
for nothing, and any other has a key, an equals sign and a value. Braces around a value let it hold
semicolons and outer blanks, with a closing brace written twice; what follows them in the segment is
ignored.
-/
namespace CacheCatalog.Settings

def inKey (c : Char) : Bool := c != '=' && c != ';'

def inSegment (c : Char) : Bool := c != ';'

def nextSegment (cs : List Char) : List Char := (cs.dropWhile inSegment).drop 1

/-- The text up to the brace that closes it, read from behind the opening one, and what follows. -/
def braced? : List Char → Option (List Char × List Char)
  | [] => none
  | '}' :: '}' :: cs => (braced? cs).map fun (value, rest) => ('}' :: value, rest)
  | c :: cs =>
    if c = '}' then some ([], cs) else (braced? cs).map fun (value, rest) => (c :: value, rest)

def value? (cs : List Char) : Option (List Char × List Char) :=
  match Text.trimStart cs with
  | '{' :: cs => (braced? cs).map fun (value, rest) => (value, nextSegment rest)
  | cs => some (Text.trim (cs.takeWhile inSegment), nextSegment cs)

theorem length_nextSegment_le (cs : List Char) : (nextSegment cs).length ≤ cs.length := by
  have := (List.dropWhile_sublist inSegment (l := cs)).length_le
  simp only [nextSegment, List.length_drop]
  omega

theorem length_of_braced? {cs value rest : List Char} (h : braced? cs = some (value, rest)) :
    rest.length < cs.length := by
  fun_induction braced? cs generalizing value rest with
  | case1 => simp at h
  | case2 cs ih =>
    obtain ⟨⟨v, r⟩, hv, he⟩ := Option.map_eq_some_iff.1 h
    obtain ⟨rfl, rfl⟩ := Prod.mk.inj he
    have := ih hv
    simp only [List.length_cons]
    omega
  | case3 cs =>
    simp only [Option.some.injEq, Prod.mk.injEq] at h
    simp [h.2]
  | case4 c cs _ _ ih =>
    obtain ⟨⟨v, r⟩, hv, he⟩ := Option.map_eq_some_iff.1 h
    obtain ⟨rfl, rfl⟩ := Prod.mk.inj he
    have := ih hv
    simp only [List.length_cons]
    omega

theorem length_of_value? {cs value rest : List Char} (h : value? cs = some (value, rest)) :
    rest.length ≤ cs.length := by
  have hs : (Text.trimStart cs).length ≤ cs.length := (List.dropWhile_sublist _).length_le
  simp only [value?] at h
  split at h
  · next body hb =>
    obtain ⟨⟨v, r⟩, hv, he⟩ := Option.map_eq_some_iff.1 h
    have := length_of_braced? hv
    have := length_nextSegment_le r
    have hr : nextSegment r = rest := (Prod.mk.inj he).2
    rw [← hr]
    rw [hb, List.length_cons] at hs
    omega
  · simp only [Option.some.injEq, Prod.mk.injEq] at h
    rw [← h.2]
    have := length_nextSegment_le (Text.trimStart cs)
    omega

def pairs (cs : List Char) : Except SettingFault (List (String × String)) :=
  let key := cs.takeWhile inKey
  let name := String.ofList (Text.trim key)
  match _hk : cs.dropWhile inKey with
  | [] => if Text.allBlank key then .ok [] else .error (.missingValue name)
  | mark :: rest =>
    if mark = ';' then
      if Text.allBlank key then pairs rest else .error (.missingValue name)
    else if Text.allBlank key then .error .missingKey
    else
      match _hv : value? rest with
      | none => .error (.openBrace name)
      | some (value, rest) => (pairs rest).map ((name, String.ofList value) :: ·)
termination_by cs.length
decreasing_by
  all_goals
    have hs := (List.dropWhile_sublist inKey (l := cs)).length_le
    rw [_hk, List.length_cons] at hs
    try have := length_of_value? _hv
    omega

end CacheCatalog.Settings
