/-!
Characters as names and values tell them apart. Names are compared without regard to the case of the
letters A to Z, while every other character, accented letters included, stands only for itself. White
space is what Unicode lists as such, and can be cut from both ends of a text.
-/
namespace CacheCatalog.Text

def sameLetter (a b : Char) : Bool := a.toLower == b.toLower

def fold (s : String) : List Char := s.toList.map Char.toLower

def sameName (a b : String) : Bool := fold a == fold b

theorem sameName_iff {a b : String} : sameName a b ↔ fold a = fold b := by
  simp [sameName]

theorem sameName_refl (a : String) : sameName a a := by simp [sameName]

theorem sameName_comm (a b : String) : sameName a b = sameName b a := by
  rw [Bool.eq_iff_iff, sameName_iff, sameName_iff, eq_comm]

/-- The twenty-five characters with the Unicode property `White_Space`. -/
def isBlank (c : Char) : Bool :=
  let n := c.toNat
  (0x9 ≤ n && n ≤ 0xD) || n == 0x20 || n == 0x85 || n == 0xA0 || n == 0x1680 ||
    (0x2000 ≤ n && n ≤ 0x200A) || n == 0x2028 || n == 0x2029 || n == 0x202F || n == 0x205F ||
    n == 0x3000

theorem isBlank_of_isDigit {c : Char} (h : c.isDigit = true) : isBlank c = false := by
  have hlow : 48 ≤ c.toNat := (Bool.and_eq_true_iff.1 h).1 |> of_decide_eq_true
  have hhigh : c.toNat ≤ 57 := (Bool.and_eq_true_iff.1 h).2 |> of_decide_eq_true
  rw [← Bool.not_eq_true]
  simp only [isBlank, Bool.or_eq_true, Bool.and_eq_true, decide_eq_true_eq, beq_iff_eq]
  omega

def allBlank (cs : List Char) : Bool := cs.all isBlank

/-- A text without the characters at its ends that have a property. -/
def stripped (p : Char → Bool) (cs : List Char) : List Char :=
  ((cs.dropWhile p).reverse.dropWhile p).reverse

def trimStart (cs : List Char) : List Char := cs.dropWhile isBlank

def trim (cs : List Char) : List Char := stripped isBlank cs

section Stripped
variable {p : Char → Bool} {cs : List Char}

theorem exists_of_stripped (p : Char → Bool) (cs : List Char) :
    ∃ before after, cs = before ++ stripped p cs ++ after ∧
      (∀ c ∈ before, p c = true) ∧ ∀ c ∈ after, p c = true := by
  have hstart := List.takeWhile_append_dropWhile (p := p) (l := cs)
  have hend := congrArg List.reverse
    (List.takeWhile_append_dropWhile (p := p) (l := (cs.dropWhile p).reverse))
  rw [List.reverse_append, List.reverse_reverse] at hend
  refine ⟨cs.takeWhile p, ((cs.dropWhile p).reverse.takeWhile p).reverse, ?_, ?_, ?_⟩
  · rw [List.append_assoc, stripped, hend, hstart]
  · exact fun c hc => List.all_eq_true.1 List.all_takeWhile c hc
  · exact fun c hc => List.all_eq_true.1 List.all_takeWhile c (List.mem_reverse.1 hc)

theorem stripped_eq_nil_iff : stripped p cs = [] ↔ ∀ c ∈ cs, p c = true := by
  constructor
  · intro h
    obtain ⟨before, after, hcs, hbefore, hafter⟩ := exists_of_stripped p cs
    rw [h, List.append_nil] at hcs
    rw [hcs]
    exact List.forall_mem_append.2 ⟨hbefore, hafter⟩
  · intro h
    have hstart : cs.dropWhile p = [] := by
      rw [← List.append_nil cs, List.dropWhile_append_of_pos h]
      rfl
    rw [stripped, hstart]
    rfl

theorem dropWhile_eq_self (h : ∀ c ∈ cs.head?, p c = false) : cs.dropWhile p = cs := by
  cases cs with
  | nil => rfl
  | cons c cs => exact List.dropWhile_cons_of_neg (Bool.eq_false_iff.1 (h c rfl))

theorem reverse_dropWhile_eq_self (h : ∀ c ∈ cs.getLast?, p c = false) :
    cs.reverse.dropWhile p = cs.reverse := by
  refine dropWhile_eq_self fun c hc => h c ?_
  rwa [List.head?_reverse] at hc

theorem stripped_eq_self (hfirst : ∀ c ∈ cs.head?, p c = false)
    (hlast : ∀ c ∈ cs.getLast?, p c = false) : stripped p cs = cs := by
  rw [stripped, dropWhile_eq_self hfirst, reverse_dropWhile_eq_self hlast, List.reverse_reverse]

theorem stripped_append {before inner after : List Char} (hbefore : ∀ c ∈ before, p c = true)
    (hinner : inner ≠ []) (hplain : ∀ c ∈ inner, p c = false) (hafter : ∀ c ∈ after, p c = true) :
    stripped p (before ++ inner ++ after) = inner := by
  have hstart : (inner ++ after).dropWhile p = inner ++ after := by
    obtain ⟨c, r, rfl⟩ := List.exists_cons_of_ne_nil hinner
    refine dropWhile_eq_self fun d hd => hplain d ?_
    exact Option.some.inj hd ▸ List.mem_cons_self
  have hend : inner.reverse.dropWhile p = inner.reverse :=
    reverse_dropWhile_eq_self fun c hc => hplain c (List.mem_of_mem_getLast? hc)
  have hbehind : ∀ c ∈ after.reverse, p c = true := fun c hc => hafter c (List.mem_reverse.1 hc)
  rw [stripped, List.append_assoc, List.dropWhile_append_of_pos hbefore, hstart, List.reverse_append,
    List.dropWhile_append_of_pos hbehind, hend, List.reverse_reverse]

end Stripped

section Trim
variable {cs : List Char}

theorem trim_eq_nil_iff : trim cs = [] ↔ allBlank cs := by
  rw [trim, stripped_eq_nil_iff, allBlank, List.all_eq_true]

theorem trim_eq_self (hfirst : ∀ c ∈ cs.head?, isBlank c = false)
    (hlast : ∀ c ∈ cs.getLast?, isBlank c = false) : trim cs = cs :=
  stripped_eq_self hfirst hlast

theorem trim_of_forall (h : ∀ c ∈ cs, isBlank c = false) : trim cs = cs :=
  trim_eq_self (fun c hc => h c (List.mem_of_mem_head? hc)) fun c hc =>
    h c (List.mem_of_mem_getLast? hc)

end Trim
end CacheCatalog.Text
