import CacheCatalog.Text.Characters

/-!
Search patterns for names: a percent sign stands for any text, an underscore for any one character,
and a backslash takes the character after it as it is. A name is read from the left, and a percent sign
stands at first for nothing. Where the reading gets stuck, only the last percent sign before that place
is made longer; those before it keep what they stand for.
-/
namespace CacheCatalog

inductive PatternToken where
  | any
  | one
  | exact (c : Char)
  deriving DecidableEq, Repr

structure Pattern where
  tokens : List PatternToken
  deriving DecidableEq, Repr

namespace Pattern

/-- Percent signs in a row are one token, and a backslash that ends the pattern is itself. -/
def tokenize : List Char → List PatternToken
  | [] => []
  | '%' :: cs =>
    match tokenize cs with
    | .any :: ts => .any :: ts
    | ts => .any :: ts
  | '_' :: cs => .one :: tokenize cs
  | '\\' :: c :: cs => .exact c :: tokenize cs
  | c :: cs => .exact c :: tokenize cs

def ofString (s : String) : Pattern := ⟨tokenize s.toList⟩

def every : Pattern := ⟨[.any]⟩

def ofOption : Option String → Pattern
  | none => every
  | some s => if s.isEmpty then every else ofString s

def isWildcard (p : Pattern) : Bool := p.tokens == [.any]

end Pattern

def PatternToken.takes : PatternToken → Char → Bool
  | any, _ => false
  | one, _ => true
  | exact c, d => Text.sameLetter c d

/-- Where a reading that takes a character with each token comes to. -/
inductive Stretch where
  /-- The text has ended, and the tokens that are left can stand for nothing or cannot. -/
  | ended (taken : Bool)
  | any (tokens : List PatternToken) (rest : List Char)
  | stuck
  deriving DecidableEq, Repr

namespace Pattern

def stretch : List PatternToken → List Char → Stretch
  | ts, [] => .ended (ts.all (· == .any))
  | [], _ :: _ => .stuck
  | .any :: ts, d :: s => .any ts (d :: s)
  | t :: ts, d :: s => if t.takes d then stretch ts s else .stuck

theorem ne_nil_of_stuck {ts : List PatternToken} {s : List Char} (h : stretch ts s = .stuck) :
    s ≠ [] := by
  rintro rfl
  cases ts <;> simp [stretch] at h

theorem length_of_any {ts ts' : List PatternToken} {s s' : List Char}
    (h : stretch ts s = .any ts' s') : ts'.length + s'.length < ts.length + s.length := by
  fun_induction stretch ts s with
  | case1 | case2 => cases h
  | case3 ts d s =>
    obtain ⟨rfl, rfl⟩ := Stretch.any.inj h
    simp
  | case4 t ts d s _ _ ih =>
    have := ih h
    simp only [List.length_cons]
    omega
  | case5 => cases h

/-- Whether the tokens behind a percent sign stand for a text that is left when it has its share. -/
def search (ts : List PatternToken) (s : List Char) : Bool :=
  match _h : stretch ts s with
  | .ended taken => taken
  | .any ts' s' => search ts' s'
  | .stuck => search ts s.tail
termination_by ts.length + s.length
decreasing_by
  · exact length_of_any _h
  · have := List.length_pos_iff.2 (ne_nil_of_stuck _h)
    simp only [List.length_tail]
    omega

def accepts (p : Pattern) (name : String) : Bool :=
  match stretch p.tokens name.toList with
  | .ended taken => taken
  | .any ts s => search ts s
  | .stuck => false

end Pattern
end CacheCatalog
