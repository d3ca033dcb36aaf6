import CacheCatalog.Proofs.Calls

/-! Reading the columns of the current row. Whether a reading gives a piece, and which one, follows
from the cell of its column, from the form that it asks for, and from how far that column has been
read; and only a reading of a column that gives a piece moves that mark. -/
namespace CacheCatalog

def Piece.progress (p : Piece) (offset : Nat) : Progress :=
  if p.truncated then .consumed (offset + p.consumed) else .finished

def CursorEvent.pieceOf (n : Nat) (event : CursorEvent) : Option (TargetRequest × Piece) :=
  match event.call, event.reply with
  | .getData m r _, .ok (.piece (some p)) => if m = n then some (r, p) else none
  | _, _ => none

def pieces (n : Nat) (events : List CursorEvent) : List (TargetRequest × Piece) :=
  events.filterMap (·.pieceOf n)

theorem pieces_cons (n : Nat) (event : CursorEvent) (events : List CursorEvent) :
    pieces n (event :: events) = (event.pieceOf n).toList ++ pieces n events := by
  rw [pieces, List.filterMap_cons]
  cases event.pieceOf n <;> rfl

theorem Column.atOrdinal_eq_ok {columns : List Column} {n : Nat} {column : Column} :
    Column.atOrdinal columns n = .ok column ↔ 1 ≤ n ∧ columns[n - 1]? = some column := by
  cases n with
  | zero => simp [Column.atOrdinal]
  | succ n =>
    unfold Column.atOrdinal
    cases h : columns[n]? <;> simp [h]

theorem Column.exists_atOrdinal_iff {columns : List Column} {n : Nat} :
    (∃ c, Column.atOrdinal columns n = .ok c) ↔ 1 ≤ n ∧ n ≤ columns.length := by
  constructor
  · rintro ⟨c, hc⟩
    obtain ⟨hfirst, hc⟩ := Column.atOrdinal_eq_ok.1 hc
    obtain ⟨hlast, -⟩ := List.getElem?_eq_some_iff.1 hc
    exact ⟨hfirst, by omega⟩
  · rintro ⟨hfirst, hlast⟩
    have hbound : n - 1 < columns.length := by omega
    exact ⟨columns[n - 1], Column.atOrdinal_eq_ok.2 ⟨hfirst, List.getElem?_eq_getElem hbound⟩⟩

namespace Cursor

def cellAt (c : Cursor) : Nat → Option Cell
  | 0 => none
  | n + 1 => c.currentRow?.bind fun row => row[n]?

def progress? (c : Cursor) (n : Nat) : Option Progress := c.current?.bind (·.reads.get? n)

theorem exists_offset {c : Cursor} {n : Nat} (h : c.progress? n ≠ some .finished) :
    ∃ offset, (c.progress? n).getD (.consumed 0) = .consumed offset := by
  cases hprogress : c.progress? n with
  | none => exact ⟨0, rfl⟩
  | some progress =>
    cases progress with
    | consumed offset => exact ⟨offset, rfl⟩
    | finished => exact absurd hprogress h

def target? (c : Cursor) (n : Nat) (r : TargetRequest) : Option Target :=
  (c.column n).toOption.map fun column => r.resolve column.type

theorem of_target?_eq_some {c : Cursor} {n : Nat} {r : TargetRequest} {t : Target}
    (h : c.target? n r = some t) : ∃ column, c.column n = .ok column ∧ r.resolve column.type = t := by
  unfold target? at h
  cases hcol : c.column n with
  | error e => simp [hcol, Except.toOption] at h
  | ok column => exact ⟨column, rfl, by simpa [hcol, Except.toOption] using h⟩

theorem target?_of_column {c : Cursor} {n : Nat} {column : Column} (h : c.column n = .ok column)
    (r : TargetRequest) : c.target? n r = some (r.resolve column.type) := by
  simp [target?, h, Except.toOption]

theorem of_cellAt_eq_some {c : Cursor} {n : Nat} {cell : Cell} (h : c.cellAt n = some cell) :
    ∃ rows current, c.phase = .active rows (some current) ∧ current.row[n - 1]? = some cell := by
  cases n with
  | zero => cases h
  | succ n =>
    obtain ⟨row, hrow, hcell⟩ := Option.bind_eq_some_iff.1 h
    obtain ⟨current, hcurrent, rfl⟩ := Option.map_eq_some_iff.1 hrow
    unfold current? at hcurrent
    split at hcurrent
    · next rows _ hphase =>
      subst hcurrent
      exact ⟨rows, current, hphase, hcell⟩
    · cases hcurrent

theorem column_eq (c : Cursor) (n : Nat) :
    c.column n =
      if c.isClosed = true then .error .cursorClosed else Column.atOrdinal c.columns n := by
  cases hphase : c.phase <;> simp [column, isClosed, hphase]

theorem column_eq_ok {c : Cursor} {n : Nat} {column : Column} (h : c.column n = .ok column) :
    Column.atOrdinal c.columns n = .ok column := by
  rw [column_eq] at h
  split at h
  · cases h
  · exact h

theorem column_zero (c : Cursor) : ∃ e, c.column 0 = .error e := by
  rw [column_eq]
  split
  · exact ⟨_, rfl⟩
  · exact ⟨_, rfl⟩

theorem cellAt_of_column {c : Cursor} {n : Nat} {column : Column} {rows : List Row}
    {current : CurrentRow} (hcol : c.column n = .ok column)
    (hphase : c.phase = .active rows (some current)) : c.cellAt n = current.row[n - 1]? := by
  cases n with
  | zero =>
    obtain ⟨e, he⟩ := c.column_zero
    rw [he] at hcol
    cases hcol
  | succ n => simp [cellAt, currentRow?, current?, hphase]

theorem progress?_of_advances (c : Cursor) {call : CursorCall} (h : call.advances = true) (n : Nat) :
    (c.event call).after.progress? n = none := by
  obtain ⟨hphase, hafter⟩ | ⟨_, _, -, hafter⟩ | ⟨_, _, _, -, -, hafter⟩ := c.after_of_advances h
  · rw [hafter]
    rcases hphase with hphase | hphase <;> simp [progress?, current?, hphase]
  · rw [hafter]
    rfl
  · rw [hafter]
    rfl

theorem SamePlace.cellAt {c d : Cursor} (h : SamePlace c d) (n : Nat) : d.cellAt n = c.cellAt n := by
  cases n with
  | zero => rfl
  | succ n => rw [Cursor.cellAt, Cursor.cellAt, h.currentRow]

theorem SamePlace.column {c d : Cursor} (h : SamePlace c d) (n : Nat) : d.column n = c.column n := by
  rw [column_eq, column_eq, h.isClosed, h.columns]

theorem SamePlace.target? {c d : Cursor} (h : SamePlace c d) (n : Nat) (r : TargetRequest) :
    d.target? n r = c.target? n r := by
  rw [Cursor.target?, Cursor.target?, h.column]

section Spec
variable {c : Cursor} {n : Nat} {r : TargetRequest} {t : Target} {cell : Cell}

theorem getData_of_finished (ht : c.target? n r = some t) (hcell : c.cellAt n = some cell)
    (hprogress : c.progress? n = some .finished) (k : Nat) : c.getData n r k = .ok (none, c) := by
  obtain ⟨column, hcol, rfl⟩ := of_target?_eq_some ht
  obtain ⟨rows, current, hphase, hcell⟩ := of_cellAt_eq_some hcell
  have hreads : current.reads.get? n = some .finished := by
    simpa [progress?, current?, hphase] using hprogress
  simp [getData, hcol, hphase, hcell, hreads]

theorem getData_of_read {k offset : Nat} {p : Piece} (ht : c.target? n r = some t)
    (hcell : c.cellAt n = some cell)
    (hprogress : (c.progress? n).getD (.consumed 0) = .consumed offset)
    (hread : cell.read t k offset = .ok p) : ∃ after, c.getData n r k = .ok (some p, after) := by
  obtain ⟨column, hcol, rfl⟩ := of_target?_eq_some ht
  obtain ⟨rows, current, hphase, hcell⟩ := of_cellAt_eq_some hcell
  have hreads : (current.reads.get? n).getD (.consumed 0) = .consumed offset := by
    simpa [progress?, current?, hphase] using hprogress
  simp [getData, hcol, hphase, hcell, hreads, hread, Bind.bind, Except.bind, pure, Except.pure]

theorem getData_of_read_error {k offset : Nat} {fault : Fault} (ht : c.target? n r = some t)
    (hcell : c.cellAt n = some cell)
    (hprogress : (c.progress? n).getD (.consumed 0) = .consumed offset)
    (hread : cell.read t k offset = .error fault) : c.getData n r k = .error fault := by
  obtain ⟨column, hcol, rfl⟩ := of_target?_eq_some ht
  obtain ⟨rows, current, hphase, hcell⟩ := of_cellAt_eq_some hcell
  have hreads : (current.reads.get? n).getD (.consumed 0) = .consumed offset := by
    simpa [progress?, current?, hphase] using hprogress
  simp [getData, hcol, hphase, hcell, hreads, hread, Bind.bind, Except.bind]

theorem progress?_of_pieceOf_none {call : CursorCall} (hkeeps : call.keepsRow = true)
    (h : (c.event call).pieceOf n = none) : (c.event call).after.progress? n = c.progress? n := by
  cases call with
  | fetch | next | fetchAll | close => simp [CursorCall.keepsRow] at hkeeps
  | unbind m => rfl
  | unbindAll => rfl
  | bind m r k =>
    cases hbind : c.bind m r k with
    | error e => simp only [event, perform, hbind]
    | ok bound =>
      obtain ⟨column, -, rfl⟩ := of_bind_eq_ok hbind
      simp only [event, perform, hbind, progress?, current?]
  | getData m r k =>
    cases hread : c.getData m r k with
    | error fault => simp only [event, perform, hread]
    | ok answer =>
      obtain ⟨piece, after⟩ := answer
      obtain ⟨column, rows, current, cell, -, hphase, -, hanswer⟩ := of_getData_eq_ok hread
      rcases hanswer with ⟨-, -, rfl⟩ | ⟨offset, p, -, -, rfl, rfl⟩
      · simp only [event, perform, hread]
      · -- there was a piece, but of another column
        have hne : m ≠ n := by
          rintro rfl
          simp [event, perform, hread, CursorEvent.pieceOf] at h
        have hcompare : compare m n ≠ .eq := by simpa using hne
        simp only [event, perform, hread, progress?, current?, hphase, Option.bind_some,
          Keyed.get?_insert, if_neg hcompare]

theorem of_pieceOf_eq_some {call : CursorCall} {p : Piece}
    (h : (c.event call).pieceOf n = some (r, p)) :
    ∃ t cell offset k, c.target? n r = some t ∧ c.cellAt n = some cell ∧
      (c.progress? n).getD (.consumed 0) = .consumed offset ∧ cell.read t k offset = .ok p ∧
      (c.event call).after.progress? n = some (p.progress offset) := by
  cases call with
  | fetch | next | fetchAll | close | unbind | unbindAll | bind =>
    simp [event, CursorEvent.pieceOf] at h
  | getData m s k =>
    cases hread : c.getData m s k with
    | error fault => simp [event, perform, hread, CursorEvent.pieceOf] at h
    | ok answer =>
      obtain ⟨piece, after⟩ := answer
      obtain ⟨column, rows, current, cell, hcol, hphase, hcell, hanswer⟩ := of_getData_eq_ok hread
      rcases hanswer with ⟨-, rfl, -⟩ | ⟨offset, q, hreads, hpiece, rfl, rfl⟩
      · simp [event, perform, hread, CursorEvent.pieceOf] at h
      · simp only [event, perform, hread, CursorEvent.pieceOf] at h
        obtain ⟨rfl, hsome⟩ := Option.ite_none_right_eq_some.1 h
        obtain ⟨rfl, rfl⟩ := Prod.mk.inj (Option.some.inj hsome)
        refine ⟨_, cell, offset, k, target?_of_column hcol s, ?_, ?_, hpiece, ?_⟩
        · rw [cellAt_of_column hcol hphase, hcell]
        · simpa [progress?, current?, hphase] using hreads
        · simp [event, perform, hread, progress?, current?, Keyed.get?_insert, Piece.progress]

theorem event_finished_iff {call : CursorCall} (hkeeps : call.keepsRow = true) :
    (c.event call).after.progress? n = some .finished ↔ c.progress? n = some .finished ∨
      ∃ x ∈ (c.event call).pieceOf n, x.2.truncated = false := by
  cases hpiece : (c.event call).pieceOf n with
  | none =>
    rw [progress?_of_pieceOf_none hkeeps hpiece]
    simp
  | some x =>
    obtain ⟨r, p⟩ := x
    obtain ⟨t, cell, offset, k, -, -, hoffset, -, hafter⟩ := of_pieceOf_eq_some hpiece
    have hbefore : c.progress? n ≠ some .finished := by
      intro hfinished
      simp [hfinished] at hoffset
    rw [hafter]
    unfold Piece.progress
    cases htruncated : p.truncated <;> simp [hbefore, htruncated]

theorem run_finished_iff {calls : List CursorCall} (h : ∀ call ∈ calls, call.keepsRow = true) :
    (c.run calls).progress? n = some .finished ↔ c.progress? n = some .finished ∨
      ∃ x ∈ pieces n (c.trace calls), x.2.truncated = false := by
  induction calls generalizing c with
  | nil => simp [run, trace, pieces]
  | cons call calls ih =>
    rw [List.forall_mem_cons] at h
    rw [run, ih h.2, event_finished_iff h.1, or_assoc, trace, pieces_cons]
    cases hpiece : (c.event call).pieceOf n <;> simp

end Spec
end Cursor
end CacheCatalog
