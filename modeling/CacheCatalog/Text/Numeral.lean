/-!
Decimal integers as text. A reading takes a sign and at least one digit `0` to `9`, and nothing
else: no blanks, no separators, no empty text. A range is the reader's to check.
-/
namespace CacheCatalog.Text

def digits? (cs : List Char) : Option Nat :=
  if cs.isEmpty || cs.any (!·.isDigit) then none else some (Nat.ofDigitChars 10 cs 0)

def natural? : List Char → Option Nat
  | '+' :: cs => digits? cs
  | cs => digits? cs

def integer? : List Char → Option Int
  | '-' :: cs => (digits? cs).map fun n => -(n : Int)
  | '+' :: cs => (digits? cs).map Int.ofNat
  | cs => (digits? cs).map Int.ofNat

def word? (bits : Nat) (cs : List Char) : Option Nat :=
  (natural? cs).filter (· < 1 <<< bits)

def fitsSigned (bits : Nat) (v : Int) : Bool :=
  -((1 <<< (bits - 1) : Nat) : Int) ≤ v && v < (1 <<< (bits - 1) : Nat)

def signedWord? (bits : Nat) (cs : List Char) : Option Int :=
  (integer? cs).filter (fitsSigned bits)

theorem digits?_toDigits (n : Nat) : digits? (Nat.toDigits 10 n) = some n := by
  have hd : (Nat.toDigits 10 n).any (!·.isDigit) = false := by
    rw [List.any_eq_false]
    intro c hc
    simp [Nat.isDigit_of_mem_toDigits (by decide) (by decide) hc]
  have hne : (Nat.toDigits 10 n).isEmpty = false := by simp
  simp only [digits?, hd, hne, Bool.or_self, Bool.false_eq_true, if_false]
  rw [Nat.ofDigitChars_toDigits (by decide) (by decide)]

theorem cons_ne_toDigits {c : Char} (hc : c.isDigit = false) (cs : List Char) (n : Nat) :
    Nat.toDigits 10 n ≠ c :: cs := by
  intro h
  have hdigit : c.isDigit = true :=
    Nat.isDigit_of_mem_toDigits (by decide) (by decide) (h ▸ List.mem_cons_self)
  rw [hc] at hdigit
  cases hdigit

theorem natural?_toDigits (n : Nat) : natural? (Nat.toDigits 10 n) = some n := by
  unfold natural?
  split
  · next cs h => exact absurd h (cons_ne_toDigits rfl cs n)
  · exact digits?_toDigits n

theorem integer?_toDigits (n : Nat) : integer? (Nat.toDigits 10 n) = some (n : Int) := by
  unfold integer?
  split
  · next cs h => exact absurd h (cons_ne_toDigits rfl cs n)
  · next cs h => exact absurd h (cons_ne_toDigits rfl cs n)
  · rw [digits?_toDigits]
    rfl

theorem word?_toDigits {bits n : Nat} (h : n < 1 <<< bits) :
    word? bits (Nat.toDigits 10 n) = some n := by
  rw [word?, natural?_toDigits, Option.filter_some, if_pos (decide_eq_true h)]

theorem signedWord?_toDigits {bits n : Nat} (h : fitsSigned bits n = true) :
    signedWord? bits (Nat.toDigits 10 n) = some (n : Int) := by
  rw [signedWord?, integer?_toDigits, Option.filter_some, if_pos h]

end CacheCatalog.Text
