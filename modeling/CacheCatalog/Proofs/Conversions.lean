import CacheCatalog.Proofs.Literals
import CacheCatalog.Proofs.Pieces
import CacheCatalog.Proofs.Reassembly

/-! What of a cell comes into a buffer. Of a text it is the longest prefix of whole characters that
leaves room for a terminator. An integer comes whole; it is the cell itself, or a text that writes it,
blanks before and after it apart. -/
namespace CacheCatalog
open Text

structure LongestFit (e : Encoding) (capacity : Nat) (text kept : List Char) : Prop where
  begins : kept <+: text
  fits : (kept.flatMap e.encode).length + e.unit ≤ capacity
  longest : ∀ other, other <+: text → (other.flatMap e.encode).length + e.unit ≤ capacity →
    other <+: kept

section LongestFit
variable {e : Encoding} {capacity : Nat} {text kept : List Char}

theorem LongestFit.length_eq_iff (h : LongestFit e capacity text kept) :
    kept.length = text.length ↔ kept = text :=
  ⟨h.begins.eq_of_length, congrArg List.length⟩

theorem exists_longestFit (hroom : e.unit ≤ capacity) (text : List Char) :
    ∃ kept, LongestFit e capacity text kept ∧
      Content.kept e capacity (text.map e.encode) = kept.map e.encode := by
  obtain ⟨rest, hrest, hfits, hnext⟩ := Content.kept_spec e capacity (text.map e.encode)
  obtain ⟨kept, left, rfl, hkept, rfl⟩ := List.map_eq_append_iff.1 hrest
  rw [← hkept] at hfits hnext
  refine ⟨kept, ⟨List.prefix_append kept left, hfits hroom, fun other hother hroom' => ?_⟩, hkept.symm⟩
  -- one character more than was kept is one too many
  obtain hshorter | ⟨more, rfl⟩ :=
    List.prefix_or_prefix_of_prefix hother (List.prefix_append kept left)
  · exact hshorter
  · rw [List.prefix_append_right_inj] at hother
    cases more with
    | nil => exact ⟨[], by simp⟩
    | cons c more =>
      obtain ⟨behind, rfl⟩ := hother
      have hlarge := hnext (e.encode c) rfl
      rw [List.flatMap_append, List.flatMap_cons, List.length_append, List.length_append] at hroom'
      have hsize : Content.size (kept.map e.encode) = (kept.flatMap e.encode).length := rfl
      omega

end LongestFit

theorem Text.SignedLiteral.plain {cs : List Char} {v : Int} (h : SignedLiteral cs v) :
    cs ≠ [] ∧ ∀ c ∈ cs, isBlank c = false := by
  constructor
  · obtain ⟨n, hds | ⟨ds, rfl, -⟩, -⟩ | ⟨ds, n, rfl, -, -⟩ := h
    · exact hds.spec.1
    all_goals exact List.cons_ne_nil _ ds
  · intro c hc
    obtain hdigit | rfl | rfl := h.isDigit_or_sign hc
    · exact isBlank_of_isDigit hdigit
    all_goals decide

namespace Cell
variable {cell : Cell} {t : Target}

inductive Denotes : Cell → Int → Prop
  | int (v : Int) : Denotes (.int v) v
  | text {s : String} {before literal after : List Char} {v : Int}
    (hs : s.toList = before ++ literal ++ after)
    (hblank : ∀ c ∈ before ++ after, isBlank c = true) (hliteral : SignedLiteral literal v)
    (hlow : -2 ^ 63 ≤ v) (hhigh : v < 2 ^ 63) : Denotes (.text s) v

theorem integer?_eq_some_iff {v : Int} : cell.integer? = some v ↔ cell.Denotes v := by
  constructor
  · intro h
    cases cell with
    | null => cases h
    | int n =>
      obtain rfl := Option.some.inj h
      exact .int n
    | text s =>
      obtain ⟨hliteral, hlow, hhigh⟩ := signedWord?_eq_some_iff.1 h
      obtain ⟨before, after, hs, hbefore, hafter⟩ := exists_of_stripped isBlank s.toList
      exact .text hs (List.forall_mem_append.2 ⟨hbefore, hafter⟩) hliteral hlow hhigh
  · intro h
    cases h with
    | int => rfl
    | @text s before literal after _ hs hblank hliteral hlow hhigh =>
      obtain ⟨hbefore, hafter⟩ := List.forall_mem_append.1 hblank
      have htrim : trim s.toList = literal := by
        rw [hs, trim]
        exact stripped_append hbefore hliteral.plain.1 hliteral.plain.2 hafter
      rw [integer?, htrim]
      exact signedWord?_eq_some_iff.2 ⟨hliteral, hlow, hhigh⟩

theorem content_cases {content : Content} (h : cell.content t = .ok content) :
    (cell = .null ∧ content = .null) ∨
    (cell ≠ .null ∧ ∃ e, t = .text e ∧ content = .text e (e.characters cell.display)) ∨
    ∃ w v, t = .integer w ∧ cell.Denotes v ∧ fitsSigned (8 * w.bytes) v = true ∧
      content = .fixed (toLittleEndian w.bytes v) := by
  by_cases hnull : cell = .null
  · subst hnull
    exact .inl ⟨rfl, (Except.ok.inj h).symm⟩
  cases t with
  | text e =>
    rw [content_text hnull] at h
    exact .inr (.inl ⟨hnull, e, rfl, (Except.ok.inj h).symm⟩)
  | integer w =>
    unfold Cell.content at h
    split at h
    · exact absurd rfl hnull
    · next heq => cases heq
    · next heq =>
      obtain rfl := Target.integer.inj heq
      split at h
      · cases h
      · next v hvalue =>
        split at h
        · next hwidth =>
          exact .inr (.inr ⟨_, v, rfl, integer?_eq_some_iff.1 hvalue, hwidth, (Except.ok.inj h).symm⟩)
        · cases h

end Cell
end CacheCatalog
