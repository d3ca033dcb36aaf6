import CacheCatalog.Proofs.Boundaries
import CacheCatalog.Proofs.Decoding

/-! What one reading takes of a text. No character begins with another one, so bytes are whole
characters in one way only, and of all starts of a text that are whole characters and leave room for a
terminator a buffer takes the longest. -/
namespace CacheCatalog
open Text

namespace Text.Encoding
variable {e : Encoding}

def Whole (e : Encoding) (bs : List UInt8) : Prop := ∃ cs : List Char, bs = cs.flatMap e.encode

theorem eq_of_encode_append {c d : Char} {xs ys : List UInt8}
    (h : e.encode c ++ xs = e.encode d ++ ys) : c = d := by
  cases e with
  | utf8 =>
    have hdecode (a : Char) (bs : List UInt8) :
        (encode utf8 a ++ bs).toByteArray.utf8DecodeChar? 0 = some a := by
      rw [List.toByteArray_append]
      exact ByteArray.utf8DecodeChar?_utf8EncodeChar_append
    have hfirst := hdecode c xs
    rw [h, hdecode d ys] at hfirst
    exact (Option.some.inj hfirst).symm
  | utf16le =>
    have hdecode (a : Char) (bs : List UInt8) :
        ofUnits16 (units16 (encode utf16le a ++ bs)) = a :: ofUnits16 (units16 bs) := by
      rw [units16_encode, ofUnits16_units]
    have hfirst := hdecode c xs
    rw [h, hdecode d ys] at hfirst
    exact (List.cons.inj hfirst).1.symm

theorem prefix_of_flatMap_encode_prefix {as bs : List Char}
    (h : as.flatMap e.encode <+: bs.flatMap e.encode) : as <+: bs := by
  induction as generalizing bs with
  | nil => exact List.nil_prefix
  | cons a as ih =>
    cases bs with
    | nil =>
      have hlength := h.length_le
      have hpos := (e.length_encode a).2.1
      rw [List.flatMap_cons, List.length_append, List.flatMap_nil, List.length_nil] at hlength
      omega
    | cons b bs =>
      obtain ⟨behind, hbytes⟩ := h
      rw [List.flatMap_cons, List.flatMap_cons, List.append_assoc] at hbytes
      -- the bytes tell their first character, and the rest begins at the same place
      obtain rfl := eq_of_encode_append hbytes
      have htail : as.flatMap e.encode <+: bs.flatMap e.encode :=
        ⟨behind, List.append_cancel_left hbytes⟩
      exact List.cons_prefix_cons.2 ⟨rfl, ih htail⟩

end Text.Encoding

/-- The longest start of some bytes that is whole characters and leaves room for a terminator. Of a
capacity only full code units count. -/
structure LongestWhole (e : Encoding) (capacity : Nat) (bs kept : List UInt8) : Prop where
  begins : kept <+: bs
  whole : e.Whole kept
  fits : kept.length + e.terminator.length ≤ capacity / e.unit * e.unit
  longest : ∀ other, other <+: bs → e.Whole other →
    other.length + e.terminator.length ≤ capacity → other.length ≤ kept.length

theorem LongestFit.longestWhole {e : Encoding} {capacity : Nat} {text kept : List Char}
    (h : LongestFit e capacity text kept) :
    LongestWhole e capacity (text.flatMap e.encode) (kept.flatMap e.encode) := by
  obtain ⟨left, rfl⟩ := h.begins
  constructor
  case begins => exact ⟨left.flatMap e.encode, List.flatMap_append.symm⟩
  case whole => exact ⟨kept, rfl⟩
  case fits =>
    have hfits := h.fits
    have hdvd : e.unit ∣ Content.size (kept.map e.encode) := Content.dvd_size fun c hc => by
      obtain ⟨a, -, rfl⟩ := List.mem_map.1 hc
      exact (e.length_encode a).1
    have hsize : Content.size (kept.map e.encode) = (kept.flatMap e.encode).length := rfl
    rw [hsize] at hdvd
    rw [e.length_terminator]
    -- characters and terminator are whole code units, so an odd byte of the capacity stays empty
    cases e <;> simp only [Encoding.unit] at hfits hdvd ⊢ <;> omega
  case longest =>
    rintro _ hother ⟨other, rfl⟩ hroom
    rw [e.length_terminator] at hroom
    -- any other start of the bytes is one of the text, to which the longest one compares
    have hchars := h.longest other (Encoding.prefix_of_flatMap_encode_prefix hother) hroom
    obtain ⟨more, rfl⟩ := hchars
    rw [List.flatMap_append, List.length_append]
    exact Nat.le_add_right ..

namespace Content

theorem skipText_of_size_le {e : Encoding} {cs : List (List UInt8)} (hcs : ∀ c ∈ cs, 0 < c.length)
    {n : Nat} (h : size cs ≤ n) : skipText e n cs = some [] := by
  induction cs generalizing n with
  | nil => rw [skipText]
  | cons c cs ih =>
    rw [List.forall_mem_cons] at hcs
    rw [size_cons] at h
    rw [skipText_cons hcs.1 (by omega)]
    exact ih hcs.2 (by omega)

theorem size_le_whole_units {e : Encoding} {s : String} {n : Nat} (h : size (e.characters s) ≤ n) :
    size (e.characters s) ≤ n / e.unit * e.unit := by
  have hdvd : e.unit ∣ size (e.characters s) := dvd_size fun c hc => (mem_characters hc).1
  have hpos : 0 < e.unit := by cases e <;> decide
  obtain ⟨m, hm⟩ := hdvd
  rw [hm, Nat.mul_comm] at h ⊢
  exact Nat.mul_le_mul_right e.unit ((Nat.le_div_iff_mul_le hpos).2 h)

end Content

theorem Cell.read_text_of_boundary {e : Encoding} {s : String} {offset : Nat}
    (h : Content.Boundary (e.characters s) offset) (capacity : Nat) :
    ∃ done left : List Char, e.characters s = done.map e.encode ++ left.map e.encode ∧
      (e.bytes s).drop offset = left.flatMap e.encode ∧
      (Cell.text s).read (.text e) capacity offset =
        .ok ((Content.text e (left.map e.encode)).write capacity) := by
  obtain hbeyond | ⟨done, left, hsplit, rfl⟩ := h
  · -- behind the text nothing is left, even where the offset is no whole number of code units
    refine ⟨s.toList, [], (List.append_nil _).symm, List.drop_eq_nil_of_le hbeyond, ?_⟩
    have hrest : Content.skipText e (offset / e.unit * e.unit) (e.characters s) = some [] :=
      Content.skipText_of_size_le (fun c hc => (mem_characters hc).2.1)
        (Content.size_le_whole_units hbeyond)
    rw [read, content_text (by simp)]
    simp only [display, Content.skip, hrest, Option.map_some]
    rfl
  · obtain ⟨dones, lefts, -, rfl, rfl⟩ := List.map_eq_append_iff.1 hsplit
    refine ⟨dones, lefts, hsplit, ?_, Cell.read_text (by simp) hsplit capacity⟩
    rw [bytes_eq hsplit]
    exact List.drop_left

structure Piece.TakesLongest (e : Encoding) (capacity : Nat) (rest : List UInt8) (p : Piece) :
    Prop where
  data : p.data = if e.unit ≤ capacity then p.payload e ++ e.terminator else []
  longest : e.unit ≤ capacity → LongestWhole e capacity rest (p.payload e)
  empty : capacity < e.unit → p.payload e = []
  fits : p.data.length ≤ capacity
  indicator : p.indicator = rest.length
  consumed : p.consumed = (p.payload e).length
  truncated : p.truncated = true ↔ p.payload e ≠ rest

theorem takesLongest_write {e : Encoding} {s : String} {done left : List Char}
    (hsplit : e.characters s = done.map e.encode ++ left.map e.encode) (capacity : Nat) :
    ((Content.text e (left.map e.encode)).write capacity).TakesLongest e capacity
      (left.flatMap e.encode) := by
  have hcontinues := continues_write capacity hsplit
  have hbytes : e.bytes s = (done.map e.encode).flatten ++ left.flatMap e.encode := bytes_eq hsplit
  have hpayload := Piece.payload_write_text e capacity (left.map e.encode)
  constructor
  case data =>
    rw [hcontinues.data]
    by_cases hsmall : capacity < e.unit
    · rw [if_pos hsmall, if_neg (Nat.not_le.2 hsmall)]
    · rw [if_neg hsmall, if_pos (Nat.le_of_not_lt hsmall)]
  case longest =>
    intro hroom
    obtain ⟨kept, hfit, hkept⟩ := exists_longestFit hroom left
    rw [hpayload, hkept]
    exact hfit.longestWhole
  case empty =>
    intro hsmall
    rw [hpayload, Content.kept, if_pos hsmall, List.flatten_nil]
  case fits => exact hcontinues.fits
  case indicator => rw [Content.write_text]; rfl
  case consumed =>
    rw [hpayload, Content.write_text]
    rfl
  case truncated => rw [hcontinues.truncated, hbytes, ne_eq, List.append_cancel_left_eq]

/-- A reading of a text that begins at one of its characters, or behind them all, gives the longest
run of whole characters that fits into the buffer with a terminator. -/
theorem text_reading_takes_longest (e : Encoding) (s : String) (capacity offset : Nat)
    (hoffset : Content.Boundary (e.characters s) offset) :
    ∃ p, (Cell.text s).read (.text e) capacity offset = .ok p ∧
      p.TakesLongest e capacity ((e.bytes s).drop offset) := by
  obtain ⟨done, left, hsplit, hrest, hread⟩ := Cell.read_text_of_boundary hoffset capacity
  rw [hrest]
  exact ⟨_, hread, takesLongest_write hsplit capacity⟩

/-- An odd capacity ends inside a pair of surrogates, and one byte of UTF-8 is too few for the character
that comes next. -/
theorem text_readings_stop_before_wide_characters :
    Content.Boundary (Encoding.utf16le.characters "aé😀") 2 ∧
    Content.Boundary (Encoding.utf8.characters "aé😀") 3 ∧
    (∃ p, (Cell.text "aé😀").read (.text .utf16le) 7 2 = .ok p ∧
      p.TakesLongest .utf16le 7 [233, 0, 61, 216, 0, 222] ∧ p.data = [233, 0, 0, 0]) ∧
    ∃ p, (Cell.text "aé😀").read (.text .utf8) 4 3 = .ok p ∧
      p.TakesLongest .utf8 4 [240, 159, 152, 128] ∧ p.data = [0] := by
  have hwide : Content.Boundary (Encoding.utf16le.characters "aé😀") 2 :=
    .inr ⟨[[97, 0]], [[233, 0], [61, 216, 0, 222]], by decide +kernel, rfl⟩
  have hnarrow : Content.Boundary (Encoding.utf8.characters "aé😀") 3 :=
    .inr ⟨[[97], [195, 169]], [[240, 159, 152, 128]], by decide +kernel, rfl⟩
  obtain ⟨p, hread, hlongest⟩ := text_reading_takes_longest .utf16le "aé😀" 7 2 hwide
  obtain ⟨q, hread', hlongest'⟩ := text_reading_takes_longest .utf8 "aé😀" 4 3 hnarrow
  have hp : (Cell.text "aé😀").read (.text .utf16le) 7 2 = .ok ⟨[233, 0, 0, 0], 6, true, 2⟩ := by
    decide +kernel
  have hq : (Cell.text "aé😀").read (.text .utf8) 4 3 = .ok ⟨[0], 4, true, 0⟩ := by decide +kernel
  have hrest : (Encoding.utf16le.bytes "aé😀").drop 2 = [233, 0, 61, 216, 0, 222] := by decide +kernel
  have hrest' : (Encoding.utf8.bytes "aé😀").drop 3 = [240, 159, 152, 128] := by decide +kernel
  rw [hrest] at hlongest
  rw [hrest'] at hlongest'
  refine ⟨hwide, hnarrow, ⟨p, hread, hlongest, ?_⟩, q, hread', hlongest', ?_⟩
  · obtain rfl := Except.ok.inj (hp.symm.trans hread)
    rfl
  · obtain rfl := Except.ok.inj (hq.symm.trans hread')
    rfl

end CacheCatalog
