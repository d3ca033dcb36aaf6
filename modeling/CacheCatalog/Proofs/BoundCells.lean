import CacheCatalog.Proofs.Conversions
import CacheCatalog.Proofs.Decoding
import CacheCatalog.Proofs.Fetches

/-! Cells read back from bound buffers. Once a fetch has stored a cell, the buffer of its column gives
the longest prefix of the text that the asked size has room for, as far as the first `U+0000`, or the
very integer that the cell denotes; a NULL leaves the buffer without either. -/
namespace CacheCatalog
open Text

inductive Binding.Gives (cell : Cell) (requested : Nat) (b : Binding) : Prop
  | null (hcell : cell = .null) (data : b.data = []) (indicator : b.indicator = some nullLength)
    (text : b.text? = none) (integer : b.integer? = none)
  | tooSmall {e : Encoding} (hcell : cell ≠ .null) (htarget : b.target = .text e)
    (hsmall : requested < e.unit) (data : b.data = []) (text : b.text? = none)
    (truncated : b.truncated = true ↔ cell.display ≠ "")
  | text {e : Encoding} {kept : List Char} (hcell : cell ≠ .null) (htarget : b.target = .text e)
    (hroom : e.unit ≤ requested) (hkept : LongestFit e requested cell.display.toList kept)
    (length : b.data.length ≤ requested) (text : b.text? = some (String.ofList (untilNul kept)))
    (truncated : b.truncated = true ↔ kept ≠ cell.display.toList)
  | integer {w : IntegerWidth} {v : Int} (hcell : cell.Denotes v) (htarget : b.target = .integer w)
    (length : b.data.length = w.bytes) (integer : b.integer? = some v)

namespace Binding
variable {cell : Cell} {requested : Nat}

theorem gives_of_null {b : Binding} (hdata : b.data = []) (hindicator : b.indicator = some nullLength) :
    b.Gives .null requested := by
  refine .null rfl hdata hindicator ?text ?integer
  case text =>
    unfold text?
    split
    · next e _ => rw [hdata, e.decode?_nil]
    · rfl
  case integer =>
    unfold integer?
    split
    · rfl
    · next w _ =>
      rw [hdata]
      cases w <;> rfl

theorem gives_of_text {e : Encoding} (hcell : cell ≠ .null) :
    ((fresh (.text e) requested).store
      ((Content.text e (e.characters cell.display)).write requested)).Gives cell requested := by
  have hwrite := Content.write_text e requested (e.characters cell.display)
  rw [hwrite]
  -- without room for a terminator there is no text at all, not even an empty one
  by_cases hsmall : requested < e.unit
  · refine .tooSmall hcell rfl hsmall (if_pos hsmall) ?_ ?_
    · simp only [text?, store, fresh, if_pos hsmall]
      exact e.decode?_nil
    · simp [store, Content.kept, hsmall, Encoding.characters, List.length_pos_iff]
  · have hroom : e.unit ≤ requested := Nat.le_of_not_lt hsmall
    obtain ⟨kept, hkept, hfit⟩ := exists_longestFit hroom cell.display.toList
    have hchars : Content.kept e requested (e.characters cell.display) = kept.map e.encode := hfit
    rw [hchars, if_neg hsmall]
    have hdata : (kept.map e.encode).flatten = kept.flatMap e.encode := rfl
    refine .text hcell rfl hroom hkept ?length ?text ?truncated
    case length =>
      show ((kept.map e.encode).flatten ++ e.terminator).length ≤ requested
      rw [hdata, List.length_append, e.length_terminator]
      exact hkept.fits
    case text => exact e.decode?_append_terminator kept
    case truncated =>
      show decide ((kept.map e.encode).length < (cell.display.toList.map e.encode).length) = true ↔ _
      have hle := hkept.begins.length_le
      rw [decide_eq_true_iff, List.length_map, List.length_map, ne_eq, ← hkept.length_eq_iff]
      omega

theorem gives_of_integer {w : IntegerWidth} {v : Int} (hcell : cell.Denotes v)
    (hwidth : fitsSigned (8 * w.bytes) v = true) (k : Nat) :
    ((fresh (.integer w) requested).store
      ((Content.fixed (toLittleEndian w.bytes v)).write k)).Gives cell requested := by
  have hlength : (toLittleEndian w.bytes v).length = w.bytes := Encoding.length_littleEndian w.bytes _
  have hpos : 0 < w.bytes := by cases w <;> decide
  refine .integer hcell rfl hlength ?_
  show (if (toLittleEndian w.bytes v).length == w.bytes then _ else none) = some v
  rw [hlength, beq_self_eq_true, if_pos rfl]
  exact congrArg some (ofLittleEndian_toLittleEndian hpos hwidth)

theorem gives_of_read {t : Target} {p : Piece}
    (h : cell.read t (fresh t requested).capacity 0 = .ok p) :
    ((fresh t requested).store p).Gives cell requested := by
  cases hcontent : cell.content t with
  | error e =>
    rw [Cell.read_zero_of_unfit (Cell.content_eq_error_iff.1 hcontent)] at h
    cases h
  | ok content =>
    rw [Cell.read_zero_of_content hcontent] at h
    obtain rfl := Except.ok.inj h
    obtain ⟨rfl, rfl⟩ | ⟨hcell, e, rfl, rfl⟩ | ⟨w, v, rfl, hcell, hwidth, rfl⟩ :=
      Cell.content_cases hcontent
    · exact gives_of_null rfl rfl
    · exact gives_of_text hcell
    · exact gives_of_integer hcell hwidth _

end Binding

def CursorCall.leavesBuffer (n : Nat) : CursorCall → Bool
  | bind m _ _ | unbind m => m != n
  | unbindAll | close => false
  | fetch | next | fetchAll | getData .. => true

namespace Bindings

def Holds (bs : Bindings) (n : Nat) (t : Target) (k : Nat) : Prop :=
  ∃ b, bs.get? n = some b ∧ b.target = t ∧ b.capacity = k

theorem holds_iff_mem_forms {bs : Bindings} {n k : Nat} {t : Target} :
    bs.Holds n t k ↔ (n, t, k) ∈ bs.forms := by
  simp only [Holds, forms, List.mem_map, Keyed.get?_eq_some_iff, Prod.exists, Prod.mk.injEq]
  constructor
  · rintro ⟨b, hb, rfl, rfl⟩
    exact ⟨n, b, hb, rfl, rfl, rfl⟩
  · rintro ⟨m, b, hb, rfl, rfl, rfl⟩
    exact ⟨b, hb, rfl, rfl⟩

end Bindings

namespace Cursor
variable {c : Cursor} {n k : Nat} {t : Target}

theorem holds_of_event {call : CursorCall} (hcall : call.leavesBuffer n = true)
    (h : c.bindings.Holds n t k) : (c.event call).after.bindings.Holds n t k := by
  -- what asks for rows writes into the buffers, but each keeps its target and its size
  by_cases hadvances : call.advances = true
  · rw [Bindings.holds_iff_mem_forms] at h ⊢
    obtain ⟨-, hafter⟩ | ⟨_, _, -, hafter⟩ | ⟨_, _, _, -, hforms, hafter⟩ :=
      c.after_of_advances hadvances <;> rw [hafter]
    · exact h
    · exact h
    · exact hforms ▸ h
  obtain ⟨b, hb, htarget, hcapacity⟩ := h
  cases call with
  | fetch | next | fetchAll => exact absurd rfl hadvances
  | unbindAll | close => cases hcall
  | unbind m =>
    have hne : compare m n ≠ .eq := fun heq => bne_iff_ne.1 hcall (Std.LawfulEqCmp.eq_of_compare heq)
    refine ⟨b, ?_, htarget, hcapacity⟩
    show (c.bindings.erase m).get? n = some b
    rw [Keyed.get?_erase, if_neg hne, hb]
  | bind m r requested =>
    have hne : compare m n ≠ .eq := fun heq => bne_iff_ne.1 hcall (Std.LawfulEqCmp.eq_of_compare heq)
    refine ⟨b, ?_, htarget, hcapacity⟩
    cases hbind : c.bind m r requested with
    | error e => simpa only [event, perform, hbind] using hb
    | ok bound =>
      obtain ⟨column, -, rfl⟩ := of_bind_eq_ok hbind
      simp only [event, perform, hbind]
      rw [Keyed.get?_insert, if_neg hne, hb]
  | getData m r requested =>
    refine ⟨b, ?_, htarget, hcapacity⟩
    cases hread : c.getData m r requested with
    | error fault => simpa only [event, perform, hread] using hb
    | ok answer =>
      obtain ⟨piece, after⟩ := answer
      obtain ⟨_, _, _, _, -, -, -, ⟨-, -, rfl⟩ | ⟨_, _, -, -, -, rfl⟩⟩ := of_getData_eq_ok hread <;>
        simpa only [event, perform, hread] using hb

theorem holds_of_run {calls : List CursorCall} (hcalls : ∀ call ∈ calls, call.leavesBuffer n = true)
    (h : c.bindings.Holds n t k) : (c.run calls).bindings.Holds n t k :=
  run_induction (P := fun d => d.bindings.Holds n t k) (fun _ _ => holds_of_event) calls hcalls h

theorem holds_of_bind {r : TargetRequest} (ht : c.target? n r = some t) (requested : Nat) :
    (c.event (.bind n r requested)).after.bindings.Holds n t (t.fixedWidth.getD requested) := by
  obtain ⟨column, hcolumn, rfl⟩ := of_target?_eq_some ht
  have hbind : c.bind n r requested = .ok { c with
      bindings := c.bindings.insert n (.fresh (r.resolve column.type) requested) } := by
    rw [bind, hcolumn]
    rfl
  refine ⟨.fresh (r.resolve column.type) requested, ?_, rfl, rfl⟩
  simp only [event, perform, hbind]
  rw [Keyed.get?_insert, if_pos Std.ReflCmp.compare_self]

theorem exists_stored {row : Row} {rows : List Row} {cell : Cell} (hbound : c.BoundInRange)
    (hholds : c.bindings.Holds n t k) (hrows : c.pending = row :: rows)
    (hcell : row[n - 1]? = some cell) (hstops : ∀ m e, c.bindings.StopsAt row m e → n < m) :
    ∃ p, cell.read t k 0 = .ok p ∧
      c.fetch.2.bindings.get? n = some ⟨t, k, p.data, some p.indicator, p.truncated⟩ := by
  obtain ⟨b, hb, rfl, rfl⟩ := hholds
  have hfirst := (hbound n (Keyed.mem_keys_iff.2 ⟨b, hb⟩)).1
  have hreached : n ≤ row.length := by
    have := (List.getElem?_eq_some_iff.1 hcell).1
    omega
  have hstored : ∃ found p, row[n - 1]? = some found ∧ found.read b.target b.capacity 0 = .ok p ∧
      (c.bindings.refresh row).2.get? n =
        some ⟨b.target, b.capacity, p.data, some p.indicator, p.truncated⟩ := by
    obtain ⟨m, e, hstop, -, hrefreshed⟩ | ⟨-, ns, -, hrefreshed, -⟩ :=
      Bindings.refresh_spec (fun m hm => (hbound m hm).1) row
    · exact hrefreshed.stored n b hb (hstops m e hstop) hreached
    · exact hrefreshed.stored n b hb trivial hreached
  obtain ⟨found, p, hfound, hread, hget⟩ := hstored
  obtain rfl := Option.some.inj (hfound.symm.trans hcell)
  rw [fetch_of_pending_cons hrows]
  exact ⟨p, hread, hget⟩

/-- A buffer that was bound to a column of an open cursor, and not taken away again, gives every cell
that a fetch stores in it: one that the row has for its column, where no buffer up to this one stops the
row. -/
theorem stored_cell_is_given (columns : List Column) (rows : List Row) (bounds : RowBounds)
    (before later : List CursorCall) (n requested : Nat) (r : TargetRequest) (t : Target)
    (htarget : ((ofBounded columns rows bounds).run before).target? n r = some t)
    (hlater : ∀ call ∈ later, call.leavesBuffer n = true) (row : Row) (pending : List Row) (cell : Cell)
    (hcell : row[n - 1]? = some cell) :
    let c := (ofBounded columns rows bounds).run (before ++ .bind n r requested :: later)
    c.pending = row :: pending → (∀ k e, c.bindings.StopsAt row k e → n < k) →
      ∃ b, c.fetch.2.bindings.get? n = some b ∧ b.target = t ∧
        b.capacity = t.fixedWidth.getD requested ∧ b.Gives cell requested := by
  intro c hrows hstops
  have hbound : c.BoundInRange := ((sound_ofBounded columns rows bounds).run _).bound
  have hholds : c.bindings.Holds n t (t.fixedWidth.getD requested) := by
    have hrun : c = (((ofBounded columns rows bounds).run before).event (.bind n r requested)).after.run
        later := run_append _ before _
    rw [hrun]
    exact holds_of_run hlater (holds_of_bind htarget requested)
  obtain ⟨p, hread, hget⟩ := exists_stored hbound hholds hrows hcell hstops
  exact ⟨_, hget, rfl, rfl, Binding.gives_of_read hread⟩

/-- The text holds a `U+0000` and a pair of surrogates, for which seven bytes are too few; the integer
is negative and stands between blanks, and its buffer was asked to be empty. -/
theorem stored_cells_are_given_by_two_buffers :
    let columns : List Column := [⟨1, "A", ⟨"", ""⟩, .string, {}, 1⟩, ⟨2, "B", ⟨"", ""⟩, .string, {}, 1⟩]
    let row : Row := [.text "a\u0000😀", .text " -5 "]
    let integer : CursorCall := .bind 2 (.exact (.integer .short)) 0
    let wide : CursorCall := .bind 1 (.exact (.text .utf16le)) 7
    let c := (ofBounded columns [[.null, .int 3], row] ⟨0, none⟩).run [integer, wide, .fetch]
    c.pending = [row] ∧ (∀ k e, ¬ c.bindings.StopsAt row k e) ∧
    (∃ b, c.fetch.2.bindings.get? 1 = some b ∧ b.Gives (.text "a\u0000😀") 7 ∧
      b.data = [97, 0, 0, 0, 0, 0] ∧ b.text? = some "a" ∧ b.truncated = true) ∧
    ∃ b, c.fetch.2.bindings.get? 2 = some b ∧ b.Gives (.text " -5 ") 0 ∧ b.data = [251, 255] ∧
      b.integer? = some (-5) := by
  intro columns row integer wide c
  have hrows : c.pending = [row] := by decide +kernel
  have hstops : ∀ k e, ¬ c.bindings.StopsAt row k e := by
    have htakes : (c.bindings.refresh row).1 = .ok [1] := by decide +kernel
    have hfirst : ∀ n ∈ c.bindings.keys, 1 ≤ n := by decide +kernel
    obtain ⟨k, e, -, houtcome, -⟩ | ⟨hnowhere, -⟩ := Bindings.refresh_spec hfirst row
    · cases htakes.symm.trans houtcome
    · exact hnowhere
  obtain ⟨a, (ha : c.fetch.2.bindings.get? 1 = some a), -, -, hgives⟩ :=
    stored_cell_is_given columns [[.null, .int 3], row] ⟨0, none⟩ [integer] [.fetch] 1 7
      (.exact (.text .utf16le)) (.text .utf16le) (by decide +kernel) (by decide) row [] _ rfl hrows
      fun k e h => absurd h (hstops k e)
  obtain ⟨b, (hb : c.fetch.2.bindings.get? 2 = some b), -, -, hgives'⟩ :=
    stored_cell_is_given columns [[.null, .int 3], row] ⟨0, none⟩ [] [wide, .fetch] 2 0
      (.exact (.integer .short)) (.integer .short) (by decide +kernel) (by decide) row [] _ rfl hrows
      fun k e h => absurd h (hstops k e)
  have hstored : (c.fetch.2.bindings.get? 1).map (fun b => (b.data, b.text?, b.truncated)) =
      some ([97, 0, 0, 0, 0, 0], some "a", true) := by decide +kernel
  have hstored' : (c.fetch.2.bindings.get? 2).map (fun b => (b.data, b.integer?)) =
      some ([251, 255], some (-5)) := by decide +kernel
  rw [ha] at hstored
  rw [hb] at hstored'
  simp only [Option.map_some, Option.some.injEq, Prod.mk.injEq] at hstored hstored'
  exact ⟨hrows, hstops, ⟨a, ha, hgives, hstored⟩, b, hb, hgives', hstored'⟩

end Cursor
end CacheCatalog
