import CacheCatalog.Proofs.Buffers
import CacheCatalog.Proofs.Conversions
import CacheCatalog.Proofs.Decoding
import Mathlib.Data.Nat.Digits.Defs

/-! Integers read from cells. A cell that denotes an integer gives it to a width that holds it, as its
bytes in two's complement, and is refused otherwise; whether the cell is the integer or its decimal
text makes no difference to a reading of any form. -/
namespace CacheCatalog

namespace Text

/-- The bytes of an integer in two's complement, low byte first: a negative one counts as itself and the
whole range of its bytes. -/
structure TwosComplement (width : Nat) (v : Int) (bs : List UInt8) : Prop where
  length : bs.length = width
  value : ((Nat.ofDigits 256 (bs.map UInt8.toNat) : Nat) : Int) =
    if v < 0 then v + (256 ^ width : Nat) else v

theorem TwosComplement.unique {width : Nat} {v : Int} {bs cs : List UInt8}
    (h : TwosComplement width v bs) (h' : TwosComplement width v cs) : bs = cs := by
  have hbyte (ds : List UInt8) : ∀ n ∈ ds.map UInt8.toNat, n < 256 := by
    intro n hn
    obtain ⟨b, -, rfl⟩ := List.mem_map.1 hn
    exact b.toNat_lt
  have hlength : (bs.map UInt8.toNat).length = (cs.map UInt8.toNat).length := by
    rw [List.length_map, List.length_map, h.length, h'.length]
  -- as digits to the base of 256 they have one length and one value
  have hvalue : Nat.ofDigits 256 (bs.map UInt8.toNat) = Nat.ofDigits 256 (cs.map UInt8.toNat) :=
    Int.ofNat.inj (h.value.trans h'.value.symm)
  have hdigits : bs.map UInt8.toNat = cs.map UInt8.toNat :=
    Nat.ofDigits_inj_of_len_eq (by decide) hlength (hbyte bs) (hbyte cs) hvalue
  exact List.map_injective_iff.2 (fun _ _ => UInt8.toNat.inj) hdigits

theorem twosComplement_toLittleEndian {width : Nat} {v : Int} (hwidth : 0 < width)
    (hv : fitsSigned (8 * width) v = true) : TwosComplement width v (toLittleEndian width v) := by
  refine ⟨Encoding.length_littleEndian width _, ?_⟩
  have hpow : (2 ^ (8 * width) : Nat) = 256 ^ width := Nat.pow_mul 2 8 width
  have hvalue := foldr_toLittleEndian hwidth hv
  rw [hpow] at hvalue
  rw [Nat.ofDigits_eq_foldr, List.foldr_map]
  exact hvalue

/-! Decimal texts -/

theorem integer?_toString (v : Int) : integer? (toString v).toList = some v := by
  cases v with
  | ofNat n =>
    have htext : (toString (Int.ofNat n)).toList = Nat.toDigits 10 n := by
      show (toString n).toList = _
      simp
    rw [htext]
    exact integer?_toDigits n
  | negSucc n =>
    have htext : (toString (Int.negSucc n)).toList = '-' :: Nat.toDigits 10 (n + 1) := by
      show ("-" ++ toString (n + 1)).toList = _
      rw [String.toList_append]
      simp
    rw [htext, integer?, digits?_toDigits]
    rfl

end Text

open Text

namespace Cell
variable {cell : Cell} {w : IntegerWidth}

theorem Denotes.unique {v v' : Int} (h : cell.Denotes v) (h' : cell.Denotes v') : v = v' :=
  Option.some.inj ((integer?_eq_some_iff.2 h).symm.trans (integer?_eq_some_iff.2 h'))

theorem denotes_toString {v : Int} (hlow : -2 ^ 63 ≤ v) (hhigh : v < 2 ^ 63) :
    (text (toString v)).Denotes v := by
  have hliteral := Text.integer?_eq_some_iff.1 (integer?_toString v)
  have hparts : (toString v).toList = [] ++ (toString v).toList ++ [] := (List.append_nil _).symm
  exact .text hparts (by simp) hliteral hlow hhigh

end Cell

def IntegerWidth.Holds (w : IntegerWidth) (v : Int) : Prop :=
  -2 ^ (8 * w.bytes - 1) ≤ v ∧ v < 2 ^ (8 * w.bytes - 1)

namespace Cell
variable {cell : Cell} {w : IntegerWidth}

inductive GivesInteger (cell : Cell) (w : IntegerWidth) : Except Fault Piece → Prop
  | notInteger {s : String} (hcell : cell = .text s) (hnone : ∀ v, ¬ cell.Denotes v) :
    GivesInteger cell w (.error (.refused (.notInteger s)))
  | outOfRange {v : Int} (hv : cell.Denotes v) (hrange : ¬ w.Holds v) :
    GivesInteger cell w (.error (.refused (.outOfRange v (Target.integer w).code)))
  | whole {v : Int} {bs : List UInt8} (hv : cell.Denotes v) (hrange : w.Holds v)
    (hbytes : TwosComplement w.bytes v bs) : GivesInteger cell w (.ok ⟨bs, w.bytes, false, w.bytes⟩)

theorem GivesInteger.unique {r r' : Except Fault Piece} (h : cell.GivesInteger w r)
    (h' : cell.GivesInteger w r') : r = r' := by
  cases h with
  | notInteger hcell hnone =>
    cases h' with
    | notInteger hcell' _ =>
      obtain rfl := Cell.text.inj (hcell.symm.trans hcell')
      rfl
    | outOfRange hv _ | whole hv _ _ => exact absurd hv (hnone _)
  | outOfRange hv hrange =>
    cases h' with
    | notInteger _ hnone => exact absurd hv (hnone _)
    | outOfRange hv' _ =>
      obtain rfl := hv.unique hv'
      rfl
    | whole hv' hrange' _ =>
      obtain rfl := hv.unique hv'
      exact absurd hrange' hrange
  | whole hv hrange hbytes =>
    cases h' with
    | notInteger _ hnone => exact absurd hv (hnone _)
    | outOfRange hv' hrange' =>
      obtain rfl := hv.unique hv'
      exact absurd hrange hrange'
    | whole hv' _ hbytes' =>
      obtain rfl := hv.unique hv'
      obtain rfl := hbytes.unique hbytes'
      rfl

theorem givesInteger_of_unfit {e : Error} (h : cell.Unfit (.integer w) e) :
    cell.GivesInteger w (.error (.refused e)) := by
  cases h with
  | notInteger hcell hvalue =>
    have hnone : ∀ v, ¬ cell.Denotes v := by
      intro v hv
      rw [integer?_eq_some_iff.2 hv] at hvalue
      cases hvalue
    cases cell with
    | null => exact absurd rfl hcell
    | int v => exact absurd (.int v) (hnone v)
    | text s => exact .notInteger rfl hnone
  | outOfRange hvalue hwidth =>
    refine .outOfRange (integer?_eq_some_iff.1 hvalue) fun hholds => ?_
    rw [fitsSigned_iff.2 hholds] at hwidth
    cases hwidth

theorem givesInteger_read (hcell : cell ≠ .null) (w : IntegerWidth) (capacity offset : Nat) :
    cell.GivesInteger w (cell.read (.integer w) capacity offset) := by
  cases hcontent : cell.content (.integer w) with
  | error e =>
    have hunfit : cell.Unfit (.integer w) e := content_eq_error_iff.1 hcontent
    rw [read_of_unfit hunfit]
    exact givesInteger_of_unfit hunfit
  | ok content =>
    obtain ⟨hnull, -⟩ | ⟨-, e, htext, -⟩ | ⟨_, v, hform, hv, hwidth, rfl⟩ := content_cases hcontent
    · exact absurd hnull hcell
    · cases htext
    · obtain rfl := Target.integer.inj hform
      have hpos : 0 < w.bytes := by cases w <;> decide
      have hbytes := twosComplement_toLittleEndian hpos hwidth
      have hread : cell.read (.integer w) capacity offset =
          .ok ⟨toLittleEndian w.bytes v, w.bytes, false, w.bytes⟩ := by
        simp only [read, hcontent, Content.skip, Content.write, hbytes.length]
      rw [hread]
      exact .whole hv (fitsSigned_iff.1 hwidth) hbytes

/-- A reading of a cell as an integer, whatever the buffer and the bytes read before, is refused with
the text where the cell denotes no integer, refused with the integer where the width does not hold
it, and gives the bytes of the integer in any other case. -/
theorem integer_reading_iff (cell : Cell) (hcell : cell ≠ .null) (w : IntegerWidth)
    (capacity offset : Nat) (r : Except Fault Piece) :
    cell.convert (.exact (.integer w)) capacity offset = r ↔ cell.GivesInteger w r := by
  have hgives := givesInteger_read hcell w capacity offset
  constructor
  · rintro rfl
    exact hgives
  · exact hgives.unique

theorem integer_readings_of_texts :
    let far : Cell := .text " -32769"
    let blank : Cell := .text "\u3000- 5 "
    let near : Cell := .text "\u3000-000000000000000000000032768\n"
    (far ≠ .null ∧ blank ≠ .null ∧ near ≠ .null) ∧
    far.GivesInteger .short (.error (.refused (.outOfRange (-32769) (-15)))) ∧
    blank.GivesInteger .short (.error (.refused (.notInteger "\u3000- 5 "))) ∧
    near.GivesInteger .short (.ok ⟨[0, 128], 2, false, 2⟩) := by
  intro far blank near
  have hfar : far ≠ .null := by decide
  have hblank : blank ≠ .null := by decide
  have hnear : near ≠ .null := by decide
  refine ⟨⟨hfar, hblank, hnear⟩, ?_, ?_, ?_⟩
  · exact (integer_reading_iff far hfar .short 0 7 _).1 (by decide +kernel)
  · exact (integer_reading_iff blank hblank .short 0 7 _).1 (by decide +kernel)
  · exact (integer_reading_iff near hnear .short 0 7 _).1 (by decide +kernel)

/-! Integers and their texts -/

theorem integer?_text_toString {v : Int} (hlow : -2 ^ 63 ≤ v) (hhigh : v < 2 ^ 63) :
    (text (toString v)).integer? = some v :=
  integer?_eq_some_iff.2 (denotes_toString hlow hhigh)

theorem content_toString {v : Int} (hlow : -2 ^ 63 ≤ v) (hhigh : v < 2 ^ 63) (t : Target) :
    (text (toString v)).content t = (int v).content t := by
  have hvalue : (text (toString v)).integer? = (int v).integer? := integer?_text_toString hlow hhigh
  cases t with
  | text e => rfl
  | integer w => simp only [content, hvalue, display]

theorem read_whole_text (hcell : cell ≠ .null) {e : Encoding} {capacity : Nat}
    (hroom : (e.bytes cell.display).length + e.unit ≤ capacity) :
    ∃ p, cell.read (.text e) capacity 0 = .ok p ∧ p.truncated = false ∧
      p.data = e.bytes cell.display ++ e.terminator := by
  have hlarge : ¬ capacity < e.unit := by omega
  obtain ⟨kept, hfit, hkept⟩ := exists_longestFit (Nat.le_of_not_lt hlarge) cell.display.toList
  -- the whole text is one of the starts that fit
  have hall : kept = cell.display.toList :=
    hfit.begins.eq_of_length_le (hfit.longest _ (List.prefix_refl _) hroom).length_le
  have hread := read_zero_of_content (content_text hcell e) capacity
  have hchars : Content.kept e capacity (e.characters cell.display) = e.characters cell.display := by
    rw [hall] at hkept
    exact hkept
  rw [Content.write_text, if_neg hlarge, hchars] at hread
  exact ⟨_, hread, decide_eq_false (Nat.lt_irrefl _), rfl⟩

theorem read_toString {v : Int} (hlow : -2 ^ 63 ≤ v) (hhigh : v < 2 ^ 63) (t : Target)
    (capacity offset : Nat) :
    (text (toString v)).read t capacity offset = (int v).read t capacity offset := by
  rw [read, content_toString hlow hhigh, read]

theorem untilNul_toString (v : Int) : untilNul (toString v).toList = (toString v).toList := by
  have hliteral := Text.integer?_eq_some_iff.1 (Text.integer?_toString v)
  refine List.takeWhile_eq_self_iff.2 fun c hc => decide_eq_true ?_
  rintro rfl
  have hsign := hliteral.isDigit_or_sign hc
  revert hsign
  decide

/-- An integer of sixty-four bits and its decimal text are read alike in every form, and a buffer that
takes the whole of it as a text gives the same integer. -/
theorem integer_reads_as_its_text (v : Int) (hlow : -2 ^ 63 ≤ v) (hhigh : v < 2 ^ 63) :
    (∀ r capacity offset,
      (int v).convert r capacity offset = (text (toString v)).convert r capacity offset) ∧
    ∀ (e : Encoding) (capacity : Nat), (e.bytes (toString v)).length + e.unit ≤ capacity →
      ∃ p s, (int v).convert (.exact (.text e)) capacity 0 = .ok p ∧ p.truncated = false ∧
        e.decode? p.data = some s ∧ (text s).integer? = some v := by
  constructor
  · intro r capacity offset
    cases r with
    | exact t => exact (read_toString hlow hhigh t capacity offset).symm
    | byColumn => rfl
  · intro e capacity hroom
    have hcell : int v ≠ .null := nofun
    obtain ⟨p, hread, htruncated, hdata⟩ := read_whole_text hcell hroom
    have hdecode := e.decode?_append_terminator (toString v).toList
    rw [untilNul_toString, String.ofList_toList] at hdecode
    refine ⟨p, toString v, hread, htruncated, ?_, integer?_text_toString hlow hhigh⟩
    rw [hdata]
    exact hdecode

theorem least_integer_reads_as_its_text :
    let least : Int := -9223372036854775808
    (-2 ^ 63 ≤ least ∧ least < 2 ^ 63) ∧
    (int least).convert (.exact (.integer .long)) 4 0 =
      (text "-9223372036854775808").convert (.exact (.integer .long)) 4 0 ∧
    ∃ p s, (int least).convert (.exact (.text .utf16le)) 42 0 = .ok p ∧ p.truncated = false ∧
      Encoding.utf16le.decode? p.data = some s ∧ (text s).integer? = some least := by
  intro least
  have hlow : -2 ^ 63 ≤ least := by decide
  have hhigh : least < 2 ^ 63 := by decide
  have htext : toString least = "-9223372036854775808" := by decide +kernel
  have hroom : (Encoding.utf16le.bytes (toString least)).length + Encoding.utf16le.unit ≤ 42 := by
    decide +kernel
  obtain ⟨halike, hback⟩ := integer_reads_as_its_text least hlow hhigh
  refine ⟨⟨hlow, hhigh⟩, ?_, hback .utf16le 42 hroom⟩
  rw [← htext]
  exact halike _ 4 0

end Cell
end CacheCatalog
