import CacheCatalog.Transfer

/-! Pieces of a text. A piece carries whole characters, as many as its buffer takes beside the
terminator, and the next one begins at the character after them, because every character fills a
whole number of code units. -/
namespace CacheCatalog

namespace Text.Encoding

theorem length_littleEndian (width n : Nat) : (littleEndian width n).length = width := by
  rw [littleEndian, List.length_map, List.length_range]

theorem length_encode (e : Encoding) (c : Char) :
    e.unit ∣ (e.encode c).length ∧ 0 < (e.encode c).length ∧ (e.encode c).length ≤ 4 := by
  cases e with
  | utf8 =>
    rw [encode, String.length_utf8EncodeChar]
    exact ⟨Nat.one_dvd _, c.utf8Size_pos, c.utf8Size_le_four⟩
  | utf16le =>
    rw [encode]
    split <;> simp [length_littleEndian, unit]

theorem length_terminator (e : Encoding) : e.terminator.length = e.unit := by
  rw [terminator, List.length_replicate]

end Text.Encoding

open Text

namespace Content

theorem size_append (as bs : List (List UInt8)) : size (as ++ bs) = size as + size bs := by
  rw [size, size, size, List.flatten_append, List.length_append]

theorem size_cons (c : List UInt8) (cs : List (List UInt8)) :
    size (c :: cs) = c.length + size cs := by
  rw [size, size, List.flatten_cons, List.length_append]

theorem fit_spec (room : Nat) (cs : List (List UInt8)) :
    ∃ rest, cs = fit room cs ++ rest ∧ size (fit room cs) ≤ room ∧
      ∀ c ∈ rest.head?, room < size (fit room cs) + c.length := by
  induction cs generalizing room with
  | nil => exact ⟨[], by simp [fit], by simp [fit, size], by simp⟩
  | cons c cs ih =>
    unfold fit
    split
    · next hfits =>
      obtain ⟨rest, hrest, hsize, hnext⟩ := ih (room - c.length)
      refine ⟨rest, by rw [List.cons_append, ← hrest], ?_, ?_⟩
      · rw [size_cons]
        omega
      · intro d hd
        have hlarge := hnext d hd
        rw [size_cons]
        omega
    · next hlarge =>
      refine ⟨c :: cs, rfl, Nat.zero_le _, ?_⟩
      intro d hd
      obtain rfl : c = d := by simpa using hd
      simpa [size] using hlarge

def kept (e : Encoding) (capacity : Nat) (cs : List (List UInt8)) : List (List UInt8) :=
  if capacity < e.unit then [] else fit (capacity - e.unit) cs

theorem kept_spec (e : Encoding) (capacity : Nat) (cs : List (List UInt8)) :
    ∃ rest, cs = kept e capacity cs ++ rest ∧
      (e.unit ≤ capacity → size (kept e capacity cs) + e.unit ≤ capacity) ∧
      ∀ c ∈ rest.head?, capacity < size (kept e capacity cs) + c.length + e.unit := by
  unfold kept
  split
  · next hsmall =>
    refine ⟨cs, rfl, fun h => absurd hsmall (Nat.not_lt.2 h), fun c _ => ?_⟩
    omega
  · next hlarge =>
    obtain ⟨rest, hrest, hsize, hnext⟩ := fit_spec (capacity - e.unit) cs
    refine ⟨rest, hrest, fun _ => by omega, fun c hc => ?_⟩
    have := hnext c hc
    omega

theorem write_text (e : Encoding) (capacity : Nat) (cs : List (List UInt8)) :
    (text e cs).write capacity =
      ⟨if capacity < e.unit then [] else (kept e capacity cs).flatten ++ e.terminator, size cs,
        (kept e capacity cs).length < cs.length, size (kept e capacity cs)⟩ := by
  by_cases hsmall : capacity < e.unit
  · simp only [write, kept, if_pos hsmall, List.length_nil, Piece.mk.injEq, true_and]
    cases cs <;> simp [size]
  · simp only [write, kept, if_neg hsmall]

theorem dvd_size {n : Nat} {cs : List (List UInt8)} (h : ∀ c ∈ cs, n ∣ c.length) :
    n ∣ size cs := by
  induction cs with
  | nil => exact Nat.dvd_zero n
  | cons c cs ih =>
    rw [List.forall_mem_cons] at h
    rw [size_cons]
    exact Nat.dvd_add h.1 (ih h.2)

theorem skipText_cons {e : Encoding} {n : Nat} {c : List UInt8} {cs : List (List UInt8)}
    (hc : 0 < c.length) (h : c.length ≤ n) :
    skipText e n (c :: cs) = skipText e (n - c.length) cs := by
  have hn : n ≠ 0 := by omega
  cases e <;> rw [skipText, if_pos h] <;> exact hn

theorem skip_text {e : Encoding} {done : List (List UInt8)} (left : List (List UInt8))
    (hdone : ∀ c ∈ done, e.unit ∣ c.length ∧ 0 < c.length) :
    (text e (done ++ left)).skip (size done) = some (text e left) := by
  -- whole characters are whole code units, so rounding down to units loses nothing
  have hwhole : size done / e.unit * e.unit = size done :=
    Nat.div_mul_cancel (dvd_size fun c hc => (hdone c hc).1)
  rw [skip, hwhole]
  suffices skipText e (size done) (done ++ left) = some left by rw [this]; rfl
  clear hwhole
  induction done with
  | nil => cases left <;> simp [size, skipText]
  | cons c done ih =>
    rw [List.forall_mem_cons] at hdone
    rw [List.cons_append, size_cons, skipText_cons hdone.1.2 (Nat.le_add_right ..),
      Nat.add_sub_cancel_left]
    exact ih hdone.2

end Content

def Piece.payload (e : Encoding) (p : Piece) : List UInt8 := p.data.take (p.data.length - e.unit)

theorem Piece.payload_write_text (e : Encoding) (capacity : Nat) (cs : List (List UInt8)) :
    ((Content.text e cs).write capacity).payload e = (Content.kept e capacity cs).flatten := by
  rw [Content.write_text]
  unfold payload
  by_cases hsmall : capacity < e.unit
  · simp only [Content.kept, if_pos hsmall, List.take_nil, List.flatten_nil]
  · simp only [if_neg hsmall]
    rw [List.length_append, e.length_terminator, Nat.add_sub_cancel, List.take_left]

end CacheCatalog
