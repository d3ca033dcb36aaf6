import CacheCatalog.Proofs.Literals
import CacheCatalog.Proofs.Pieces
import CacheCatalog.Text.Characters

/-! Values read back from their bytes. The characters of a text come back from either encoding as far
as the first `U+0000`, which cannot be told from the terminator; an integer comes back from every width
that it fits into. -/
namespace CacheCatalog.Text

def untilNul (cs : List Char) : List Char := cs.takeWhile (· ≠ '\u0000')

theorem untilNul_cons (c : Char) (cs : List Char) :
    untilNul (c :: cs) = if c = '\u0000' then [] else c :: untilNul cs := by
  rw [untilNul, List.takeWhile_cons]
  by_cases h : c = '\u0000' <;> simp [h, untilNul]

/-! Little-endian numbers -/

theorem littleEndian_succ (width n : Nat) :
    littleEndian (width + 1) n = UInt8.ofNat n :: littleEndian width (n / 256) := by
  rw [littleEndian, littleEndian, List.range_succ_eq_map, List.map_cons, List.map_map]
  refine congrArg₂ List.cons (by simp) (List.map_congr_left fun i _ => ?_)
  have hshift : n >>> (8 * (i + 1)) = (n / 256) >>> (8 * i) := by
    rw [Nat.mul_add, Nat.add_comm, Nat.shiftRight_add, Nat.shiftRight_eq_div_pow n]
  exact congrArg UInt8.ofNat hshift

theorem foldr_littleEndian (width n : Nat) :
    (littleEndian width n).foldr (fun b m => b.toNat + 256 * m) 0 = n % 2 ^ (8 * width) := by
  induction width generalizing n with
  | zero => simp [littleEndian, Nat.mod_one]
  | succ width ih =>
    have hpow : 2 ^ (8 * (width + 1)) = 256 * 2 ^ (8 * width) := by
      rw [Nat.mul_add, Nat.add_comm, Nat.pow_add]
    rw [littleEndian_succ, List.foldr_cons, ih, UInt8.toNat_ofNat', hpow, Nat.mod_mul]

theorem foldr_toLittleEndian {width : Nat} {v : Int} (hwidth : 0 < width)
    (hv : fitsSigned (8 * width) v = true) :
    (((toLittleEndian width v).foldr (fun b m => b.toNat + 256 * m) 0 : Nat) : Int) =
      if v < 0 then v + (2 ^ (8 * width) : Nat) else v := by
  obtain ⟨half, hhalf⟩ : ∃ half, 2 ^ (8 * width - 1) = half := ⟨_, rfl⟩
  have hrange : 2 ^ (8 * width) = 2 * half := by
    rw [← hhalf, Nat.mul_comm 2, Nat.two_pow_pred_mul_two (by omega)]
  simp only [fitsSigned, Nat.one_shiftLeft, hhalf, Bool.and_eq_true, decide_eq_true_eq] at hv
  have hbound : v % (2 * half : Nat) < (2 * half : Nat) := Int.emod_lt_of_pos v (by omega)
  rw [toLittleEndian, foldr_littleEndian, Nat.one_shiftLeft, hrange, Nat.mod_eq_of_lt (by omega)]
  by_cases hneg : v < 0
  · have hmod : v % (2 * half : Nat) = v + (2 * half : Nat) := by
      rw [← Int.add_emod_right, Int.emod_eq_of_lt] <;> omega
    rw [if_pos hneg, hmod]
    exact Int.toNat_of_nonneg (by omega)
  · have hmod : v % (2 * half : Nat) = v := Int.emod_eq_of_lt (by omega) (by omega)
    rw [if_neg hneg, hmod]
    exact Int.toNat_of_nonneg (by omega)

theorem ofLittleEndian_toLittleEndian {width : Nat} {v : Int} (hwidth : 0 < width)
    (hv : fitsSigned (8 * width) v = true) : ofLittleEndian (toLittleEndian width v) = v := by
  have hvalue := foldr_toLittleEndian hwidth hv
  have hlength : (toLittleEndian width v).length = width := Encoding.length_littleEndian width _
  have hrange : 2 ^ (8 * width) = 2 * 2 ^ (8 * width - 1) := by
    rw [Nat.mul_comm 2, Nat.two_pow_pred_mul_two (by omega)]
  simp only [fitsSigned, Nat.one_shiftLeft, Bool.and_eq_true, decide_eq_true_eq] at hv
  simp only [ofLittleEndian, hlength, Nat.one_shiftLeft]
  by_cases hneg : v < 0
  · rw [if_pos hneg] at hvalue
    rw [if_neg] <;> omega
  · rw [if_neg hneg] at hvalue
    rw [if_pos] <;> omega

namespace Encoding

/-! UTF-8 -/

theorem zero_notMem_encode_utf8 {c : Char} (h : c ≠ '\u0000') : 0 ∉ encode utf8 c := by
  have hpos : c.toNat ≠ 0 := fun hzero => h (Char.toNat_inj.1 hzero)
  simp only [encode, String.utf8EncodeChar, Char.toNat_val]
  split_ifs <;> simp [← UInt8.toNat_inj] <;> omega

theorem takeWhile_utf8 (cs : List Char) (rest : List UInt8) :
    (cs.flatMap (encode utf8) ++ 0 :: rest).takeWhile (· != 0) =
      (untilNul cs).flatMap String.utf8EncodeChar := by
  induction cs with
  | nil => rfl
  | cons c cs ih =>
    rw [List.flatMap_cons, List.append_assoc, untilNul_cons]
    by_cases h : c = '\u0000'
    · subst h
      rfl
    · have hbytes : ∀ b ∈ encode utf8 c, (b != 0) = true := fun b hb =>
        bne_iff_ne.2 fun hzero => zero_notMem_encode_utf8 h (hzero ▸ hb)
      rw [List.takeWhile_append_of_pos hbytes, ih, if_neg h, List.flatMap_cons]
      rfl

theorem fromUTF8?_flatMap (cs : List Char) :
    String.fromUTF8? (cs.flatMap String.utf8EncodeChar).toByteArray = some (String.ofList cs) := by
  show String.fromUTF8? cs.utf8Encode = _
  rw [String.fromUTF8?, dif_pos ByteArray.isValidUTF8_utf8Encode]
  rfl

/-! UTF-16 -/

def units (c : Char) : List Nat :=
  if c.toNat < 0x10000 then [c.toNat]
  else [0xD800 + (c.toNat - 0x10000) / 0x400, 0xDC00 + (c.toNat - 0x10000) % 0x400]

theorem toNat_cases (c : Char) : c.toNat < 0xD800 ∨ 0xE000 ≤ c.toNat ∧ c.toNat < 0x110000 :=
  c.valid.imp id fun h => ⟨h.1, h.2⟩

theorem units16_littleEndian {n : Nat} (h : n < 0x10000) (bs : List UInt8) :
    units16 (littleEndian 2 n ++ bs) = n :: units16 bs := by
  have hbytes : littleEndian 2 n = [UInt8.ofNat n, UInt8.ofNat (n / 256)] := by
    rw [littleEndian_succ, littleEndian_succ]
    rfl
  rw [hbytes, List.cons_append, List.cons_append, units16, UInt8.toNat_ofNat', UInt8.toNat_ofNat']
  congr 1
  omega

theorem units16_encode (c : Char) (bs : List UInt8) :
    units16 (encode utf16le c ++ bs) = units c ++ units16 bs := by
  have hcases := toNat_cases c
  rw [encode, units]
  split_ifs with hplane
  · exact units16_littleEndian hplane bs
  · rw [List.append_assoc, units16_littleEndian (by omega), units16_littleEndian (by omega)]
    rfl

theorem units16_flatMap (cs : List Char) (bs : List UInt8) :
    units16 (cs.flatMap (encode utf16le) ++ bs) = cs.flatMap units ++ units16 bs := by
  induction cs with
  | nil => rfl
  | cons c cs ih => rw [List.flatMap_cons, List.append_assoc, units16_encode, ih,
      List.flatMap_cons, List.append_assoc]

theorem takeWhile_utf16 (cs : List Char) (rest : List Nat) :
    (cs.flatMap units ++ 0 :: rest).takeWhile (· != 0) = (untilNul cs).flatMap units := by
  induction cs with
  | nil => rfl
  | cons c cs ih =>
    rw [List.flatMap_cons, List.append_assoc, untilNul_cons]
    by_cases h : c = '\u0000'
    · subst h
      rfl
    · have hpos : c.toNat ≠ 0 := fun hzero => h (Char.toNat_inj.1 hzero)
      have hunits : ∀ u ∈ units c, (u != 0) = true := by
        intro u hu
        rw [bne_iff_ne]
        unfold units at hu
        split_ifs at hu <;> simp only [List.mem_cons, List.not_mem_nil, or_false] at hu <;> omega
      rw [List.takeWhile_append_of_pos hunits, ih, if_neg h, List.flatMap_cons]

theorem ofUnits16_cons {u : Nat} (h : u < 0xD800 ∨ 0xE000 ≤ u) (us : List Nat) :
    ofUnits16 (u :: us) = Char.ofNat u :: ofUnits16 us := by
  have hplain : ¬ (0xD800 ≤ u ∧ u < 0xE000) := by omega
  have hfirst : ¬ (0xD800 ≤ u ∧ u < 0xDC00) := by omega
  cases us with
  | nil => simp [ofUnits16, hplain]
  | cons v us =>
    rw [ofUnits16]
    simp only [Bool.and_eq_true, decide_eq_true_eq]
    rw [if_neg fun hpair => hfirst hpair.1.1, if_neg hplain]

theorem ofUnits16_units (c : Char) (us : List Nat) : ofUnits16 (units c ++ us) = c :: ofUnits16 us := by
  have hcases := toNat_cases c
  unfold units
  split_ifs with hplane
  · rw [List.singleton_append, ofUnits16_cons (by omega), Char.ofNat_toNat]
  · -- the pair is put together again
    obtain ⟨high, hhigh⟩ : ∃ high, high = (c.toNat - 0x10000) / 0x400 := ⟨_, rfl⟩
    obtain ⟨low, hlow⟩ : ∃ low, low = (c.toNat - 0x10000) % 0x400 := ⟨_, rfl⟩
    have hvalue : 0x10000 + (0xD800 + high - 0xD800) * 0x400 + (0xDC00 + low - 0xDC00) = c.toNat := by
      omega
    rw [← hhigh, ← hlow, List.cons_append, List.cons_append, List.nil_append, ofUnits16, if_pos, hvalue,
      Char.ofNat_toNat]
    simp only [Bool.and_eq_true, decide_eq_true_eq]
    omega

theorem ofUnits16_flatMap (cs : List Char) : ofUnits16 (cs.flatMap units) = cs := by
  induction cs with
  | nil => rfl
  | cons c cs ih => rw [List.flatMap_cons, ofUnits16_units, ih]

theorem decode?_append_terminator (e : Encoding) (cs : List Char) :
    e.decode? (cs.flatMap e.encode ++ e.terminator) = some (String.ofList (untilNul cs)) := by
  cases e with
  | utf8 =>
    have hterminator : (cs.flatMap (encode utf8) ++ terminator utf8).contains 0 = true := by
      simp [terminator, unit]
    rw [decode?, if_pos hterminator]
    exact (congrArg (fun bs => String.fromUTF8? bs.toByteArray) (takeWhile_utf8 cs [])).trans
      (fromUTF8?_flatMap _)
  | utf16le =>
    have hterminator : (cs.flatMap (encode utf16le) ++ terminator utf16le).isEmpty = false := by
      simp [terminator, unit]
    have hunits : units16 (cs.flatMap (encode utf16le) ++ terminator utf16le) =
        cs.flatMap units ++ [0] := units16_flatMap cs _
    rw [decode?, hterminator, if_neg Bool.false_ne_true, hunits, takeWhile_utf16, ofUnits16_flatMap]

theorem decode?_nil (e : Encoding) : e.decode? [] = none := by
  cases e <;> rfl

end Encoding

end CacheCatalog.Text
