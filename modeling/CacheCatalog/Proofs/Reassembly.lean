import CacheCatalog.Proofs.Pieces
import CacheCatalog.Proofs.Reading

/-! Texts read in pieces. However the capacities are chosen and whatever is done to other columns in
between, the pieces of a column make up its text from the start, each of them as long as its buffer
allows, until the text is complete and no more pieces come. -/
namespace CacheCatalog
open Text

def payloads (e : Encoding) (ps : List (TargetRequest × Piece)) : List UInt8 :=
  ps.flatMap fun x => x.2.payload e

def Progress.Marks (e : Encoding) (s : String) (sent : List UInt8) : Option Progress → Prop
  | none => sent = []
  | some (.consumed n) =>
    ∃ done left, e.characters s = done ++ left ∧ sent = done.flatten ∧ n = Content.size done
  | some .finished => sent = e.bytes s

open Progress (Marks)

structure Piece.Continues (e : Encoding) (s : String) (sent : List UInt8) (capacity : Nat)
    (p : Piece) : Prop where
  data : p.data = if capacity < e.unit then [] else p.payload e ++ e.terminator
  fits : p.data.length ≤ capacity
  indicator : p.indicator = (e.bytes s).length - sent.length
  truncated : p.truncated = true ↔ sent ++ p.payload e ≠ e.bytes s
  /-- It ends with a whole character, and there is no room for the next one. -/
  longest : ∃ done left, e.characters s = done ++ left ∧ sent ++ p.payload e = done.flatten ∧
    ∀ next ∈ left.head?, capacity < (p.payload e).length + next.length + e.unit
  advances : sent ≠ e.bytes s → 4 + e.unit ≤ capacity → p.payload e ≠ []

theorem mem_characters {e : Encoding} {s : String} {c : List UInt8} (h : c ∈ e.characters s) :
    e.unit ∣ c.length ∧ 0 < c.length ∧ c.length ≤ 4 := by
  obtain ⟨a, -, rfl⟩ := List.mem_map.1 h
  exact e.length_encode a

theorem flatten_eq_nil_iff {e : Encoding} {s : String} {done left : List (List UInt8)}
    (h : e.characters s = done ++ left) : left.flatten = [] ↔ left = [] := by
  refine ⟨fun hflatten => ?_, fun hleft => by rw [hleft]; rfl⟩
  cases left with
  | nil => rfl
  | cons c rest =>
    have hmem : c ∈ e.characters s := by simp [h]
    have hc : 0 < c.length := (mem_characters hmem).2.1
    rw [List.flatten_cons] at hflatten
    rw [(List.append_eq_nil_iff.1 hflatten).1] at hc
    exact absurd hc (Nat.lt_irrefl 0)

theorem bytes_eq {e : Encoding} {s : String} {done left : List (List UInt8)}
    (h : e.characters s = done ++ left) : e.bytes s = done.flatten ++ left.flatten := by
  rw [Encoding.bytes, h, List.flatten_append]

section Write
variable {e : Encoding} {s : String} {done left : List (List UInt8)} (k : Nat)
  (h : e.characters s = done ++ left)
include h

theorem exists_rest : ∃ rest, left = Content.kept e k left ++ rest ∧
    e.characters s = (done ++ Content.kept e k left) ++ rest ∧
    done.flatten ++ ((Content.text e left).write k).payload e =
      (done ++ Content.kept e k left).flatten ∧
    ∀ next ∈ rest.head?,
      k < (((Content.text e left).write k).payload e).length + next.length + e.unit := by
  obtain ⟨rest, hrest, -, hnext⟩ := Content.kept_spec e k left
  refine ⟨rest, hrest, by rw [List.append_assoc, ← hrest, h], ?_, ?_⟩
  · rw [Piece.payload_write_text, List.flatten_append]
  · rw [Piece.payload_write_text]
    exact hnext

theorem truncated_write_iff :
    ((Content.text e left).write k).truncated = true ↔
      done.flatten ++ ((Content.text e left).write k).payload e ≠ e.bytes s := by
  obtain ⟨rest, hrest, hsplit, hcarried, -⟩ := exists_rest k h
  -- no character is empty, so bytes are missing exactly where characters are
  have hlength := congrArg List.length hrest
  rw [List.length_append] at hlength
  rw [hcarried, bytes_eq hsplit, ne_eq, List.self_eq_append_right, flatten_eq_nil_iff hsplit,
    Content.write_text, decide_eq_true_eq, ← List.length_eq_zero_iff]
  omega

theorem continues_write : ((Content.text e left).write k).Continues e s done.flatten k := by
  obtain ⟨rest, hrest, hsplit, hcarried, hnext⟩ := exists_rest k h
  have hkept := Content.kept_spec e k left
  have hbytes := congrArg List.length (bytes_eq h)
  rw [List.length_append] at hbytes
  refine ⟨?_, ?_, ?_, truncated_write_iff k h, ⟨_, rest, hsplit, hcarried, hnext⟩, ?_⟩
  · rw [Piece.payload_write_text, Content.write_text]
  · obtain ⟨-, -, hroom, -⟩ := hkept
    rw [Content.write_text]
    by_cases hsmall : k < e.unit
    · simp [hsmall]
    · simp only [if_neg hsmall, List.length_append, e.length_terminator]
      exact hroom (Nat.le_of_not_lt hsmall)
  · simp only [Content.write_text, Content.size, hbytes]
    omega
  · intro hmore hroom hnil
    rw [hnil] at hnext
    rw [hnil, List.append_nil] at hcarried
    cases rest with
    | nil =>
      rw [List.append_nil] at hsplit
      rw [hcarried, Encoding.bytes, hsplit] at hmore
      exact hmore rfl
    | cons next rest =>
      have hmem : next ∈ e.characters s := by simp [hsplit]
      have hshort := (mem_characters hmem).2.2
      have hlong := hnext next rfl
      rw [List.length_nil] at hlong
      omega

theorem marks_write :
    Marks e s (done.flatten ++ ((Content.text e left).write k).payload e)
      (some (((Content.text e left).write k).progress (Content.size done))) := by
  obtain ⟨rest, hrest, hsplit, hcarried, -⟩ := exists_rest k h
  unfold Piece.progress
  by_cases htruncated : ((Content.text e left).write k).truncated = true
  · rw [if_pos htruncated]
    refine ⟨_, rest, hsplit, hcarried, ?_⟩
    rw [Content.write_text, Content.size_append]
  · rw [if_neg htruncated]
    exact not_not.1 (mt (truncated_write_iff k h).2 htruncated)

end Write

theorem Progress.Marks.split {e : Encoding} {s : String} {sent : List UInt8} {offset : Nat}
    {progress : Option Progress} (h : Marks e s sent progress)
    (hoffset : progress.getD (.consumed 0) = .consumed offset) :
    ∃ done left, e.characters s = done ++ left ∧ sent = done.flatten ∧
      offset = Content.size done := by
  match progress, h with
  | none, h =>
    obtain rfl : 0 = offset := by simpa using hoffset
    exact ⟨[], e.characters s, rfl, h, rfl⟩
  | some (.consumed n), h =>
    obtain rfl : n = offset := by simpa using hoffset
    exact h
  | some .finished, h => simp at hoffset

theorem Progress.Marks.whole {e : Encoding} {s : String} {sent : List UInt8}
    {progress : Option Progress} (h : Marks e s sent progress) :
    ∃ done left, e.characters s = done ++ left ∧ sent = done.flatten := by
  match progress, h with
  | none, h => exact ⟨[], e.characters s, rfl, h⟩
  | some (.consumed n), ⟨done, left, hsplit, hsent, _⟩ => exact ⟨done, left, hsplit, hsent⟩
  | some .finished, h => exact ⟨e.characters s, [], (List.append_nil _).symm, h⟩

theorem Cell.content_text {cell : Cell} (hcell : cell ≠ .null) (e : Encoding) :
    cell.content (.text e) = .ok (.text e (e.characters cell.display)) := by
  cases cell with
  | null => exact absurd rfl hcell
  | int v => rfl
  | text s => rfl

theorem Cell.read_text {cell : Cell} {e : Encoding} {done left : List (List UInt8)}
    (hcell : cell ≠ .null) (h : e.characters cell.display = done ++ left) (k : Nat) :
    cell.read (.text e) k (Content.size done) = .ok ((Content.text e left).write k) := by
  have hdone : ∀ c ∈ done, e.unit ∣ c.length ∧ 0 < c.length := fun c hc =>
    have hmem : c ∈ e.characters cell.display := by simp [h, hc]
    ⟨(mem_characters hmem).1, (mem_characters hmem).2.1⟩
  simp only [read, content_text hcell, h, Content.skip_text left hdone]

namespace Cursor
variable {c : Cursor} {n : Nat} {cell : Cell} {e : Encoding} {sent : List UInt8}

theorem event_continues (hcell : c.cellAt n = some cell) (hnull : cell ≠ .null)
    (hmarks : Marks e cell.display sent (c.progress? n)) {call : CursorCall} {r : TargetRequest}
    {p : Piece} (htarget : c.target? n r = some (.text e))
    (hpiece : (c.event call).pieceOf n = some (r, p)) :
    Marks e cell.display (sent ++ p.payload e) ((c.event call).after.progress? n) := by
  obtain ⟨t, found, offset, k, ht, hfound, hoffset, hread, hafter⟩ := of_pieceOf_eq_some hpiece
  obtain rfl : t = .text e := Option.some.inj (ht.symm.trans htarget)
  obtain rfl : found = cell := Option.some.inj (hfound.symm.trans hcell)
  obtain ⟨done, left, hsplit, rfl, rfl⟩ := hmarks.split hoffset
  rw [Cell.read_text hnull hsplit] at hread
  obtain rfl := Except.ok.inj hread
  rw [hafter]
  exact marks_write k hsplit

theorem run_marks {calls : List CursorCall} (hcell : c.cellAt n = some cell) (hnull : cell ≠ .null)
    (hmarks : Marks e cell.display sent (c.progress? n))
    (hcalls : ∀ call ∈ calls, call.keepsRow = true)
    (honly : ∀ x ∈ pieces n (c.trace calls), c.target? n x.1 = some (.text e)) :
    Marks e cell.display (sent ++ payloads e (pieces n (c.trace calls)))
      ((c.run calls).progress? n) := by
  induction calls generalizing c sent with
  | nil => simpa [run, trace, pieces, payloads] using hmarks
  | cons call calls ih =>
    rw [List.forall_mem_cons] at hcalls
    have hplace := c.samePlace_of_keepsRow hcalls.1
    have hcell' := (hplace.cellAt n).trans hcell
    rw [trace, pieces_cons] at honly ⊢
    cases hpiece : (c.event call).pieceOf n with
    | none =>
      -- nothing was carried, and the mark stands where it stood
      rw [hpiece] at honly
      rw [← progress?_of_pieceOf_none hcalls.1 hpiece] at hmarks
      refine ih hcell' hmarks hcalls.2 fun x hx => ?_
      rw [hplace.target?]
      exact honly x hx
    | some x =>
      obtain ⟨r, p⟩ := x
      rw [hpiece, Option.toList_some, List.singleton_append, List.forall_mem_cons] at honly
      have hnext := event_continues hcell hnull hmarks honly.1 hpiece
      rw [Option.toList_some, List.singleton_append, payloads, List.flatMap_cons,
        ← List.append_assoc]
      refine ih hcell' hnext hcalls.2 fun x hx => ?_
      rw [hplace.target?]
      exact honly.2 x hx

/-- The pieces of a column that was not read before, over calls that keep the row and give the column
out in one encoding only. What they have carried ends with a whole character of its text; while no
piece was the last one, the next reading gives the piece that continues them; and once one was, the
text is complete and there are no more, in whatever form they are asked for. -/
theorem pieces_reassemble_text (c : Cursor) (n : Nat) (cell : Cell) (e : Encoding)
    (calls : List CursorCall) (hcell : c.cellAt n = some cell) (hnull : cell ≠ .null)
    (hunread : c.progress? n = none) (hcalls : ∀ call ∈ calls, call.keepsRow = true)
    (honly : ∀ x ∈ pieces n (c.trace calls), c.target? n x.1 = some (.text e)) :
    let given := pieces n (c.trace calls)
    let sent := payloads e given
    let d := c.run calls
    (∃ done left, e.characters cell.display = done ++ left ∧ sent = done.flatten) ∧
    ((∀ x ∈ given, x.2.truncated = true) →
      ∀ r k, c.target? n r = some (.text e) →
        ∃ p after, d.getData n r k = .ok (some p, after) ∧ p.Continues e cell.display sent k) ∧
    ((∃ x ∈ given, x.2.truncated = false) →
      sent = e.bytes cell.display ∧ ∀ r k, d.getData n r k = .ok (none, d)) := by
  intro given sent d
  have hplace : SamePlace c d := c.samePlace_run hcalls
  have hcell' : d.cellAt n = some cell := (hplace.cellAt n).trans hcell
  have hstart : Marks e cell.display [] (c.progress? n) := by rw [hunread]; rfl
  have hmarks : Marks e cell.display sent (d.progress? n) :=
    run_marks hcell hnull hstart hcalls honly
  have hfinished : d.progress? n = some .finished ↔ ∃ x ∈ given, x.2.truncated = false := by
    rw [run_finished_iff hcalls, hunread]
    simp [given]
  refine ⟨hmarks.whole, ?_, ?_⟩
  · intro hmore r k htarget
    have hnot : d.progress? n ≠ some .finished := by
      rw [ne_eq, hfinished]
      rintro ⟨x, hx, hlast⟩
      rw [hmore x hx] at hlast
      cases hlast
    obtain ⟨offset, hoffset⟩ := exists_offset hnot
    obtain ⟨done, left, hsplit, hsent, rfl⟩ := hmarks.split hoffset
    rw [← hplace.target?] at htarget
    obtain ⟨after, hread⟩ :=
      getData_of_read htarget hcell' hoffset (Cell.read_text hnull hsplit k)
    rw [hsent]
    exact ⟨_, after, hread, continues_write k hsplit⟩
  · intro hlast
    have hend := hfinished.2 hlast
    obtain ⟨x, hx, -⟩ := hlast
    obtain ⟨column, hcolumn, -⟩ := of_target?_eq_some (honly x hx)
    rw [hend] at hmarks
    refine ⟨hmarks, fun r k => ?_⟩
    rw [← hplace.column] at hcolumn
    exact getData_of_finished (target?_of_column hcolumn r) hcell' hend k

/-- A buffer that has no room for a pair of surrogates gets the character before it, and the next
reading begins with the pair, whatever has failed in between. -/
theorem pieces_around_surrogates :
    let wide : TargetRequest := .exact (.text .utf16le)
    let c := (ofRows [⟨1, "C", ⟨"", ""⟩, .string, {}, 1⟩] [[.text "a😀"]] true).run [.next]
    let calls : List CursorCall :=
      [.getData 1 wide 5, .getData 1 (.exact (.integer .big)) 8, .unbindAll]
    c.cellAt 1 = some (.text "a😀") ∧ Cell.text "a😀" ≠ .null ∧ c.progress? 1 = none ∧
    (∀ call ∈ calls, call.keepsRow = true) ∧
    (∀ x ∈ pieces 1 (c.trace calls), c.target? 1 x.1 = some (.text .utf16le)) ∧
    ∃ p after, (c.run calls).getData 1 wide 6 = .ok (some p, after) ∧
      p.Continues .utf16le "a😀" [97, 0] 6 := by
  intro wide c calls
  have hcell : c.cellAt 1 = some (.text "a😀") := by decide +kernel
  have hunread : c.progress? 1 = none := by decide +kernel
  have hcalls : ∀ call ∈ calls, call.keepsRow = true := by decide
  have honly : ∀ x ∈ pieces 1 (c.trace calls), c.target? 1 x.1 = some (.text .utf16le) := by
    decide +kernel
  have hsent : payloads .utf16le (pieces 1 (c.trace calls)) = [97, 0] := by decide +kernel
  have hnext := (pieces_reassemble_text c 1 (.text "a😀") .utf16le calls hcell (by decide) hunread
    hcalls honly).2.1 (by decide +kernel) wide 6 (by decide +kernel)
  rw [hsent] at hnext
  exact ⟨hcell, by decide, hunread, hcalls, honly, hnext⟩

end Cursor
end CacheCatalog
