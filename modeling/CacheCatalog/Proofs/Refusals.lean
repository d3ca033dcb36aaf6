import CacheCatalog.Proofs.Agreement
import CacheCatalog.Proofs.ResultColumns

/-! Why calls are refused. Each call has its tests in an order, and it is refused for the first of them
that it fails and for nothing else; what it says of a cell that does not convert comes after all of
them. That a row is never shorter than the columns of its cursor leaves no other cause. -/
namespace CacheCatalog

def targetCodes : List Int := [1, -8, -15, -16, -25, 99]

theorem TargetRequest.ofCode_cases (code : Int) :
    (code ∈ targetCodes ∧ ∃ r, ofCode code = .ok r) ∨
      (code ∉ targetCodes ∧ ofCode code = .error (.targetCode code)) := by
  unfold ofCode
  split
  case h_7 => exact .inr ⟨by simp_all [targetCodes], rfl⟩
  all_goals exact .inl ⟨by decide, _, rfl⟩

theorem Column.atOrdinal_cases (columns : List Column) (n : Nat) :
    ((1 ≤ n ∧ n ≤ columns.length) ∧ ∃ c, atOrdinal columns n = .ok c) ∨
      (¬ (1 ≤ n ∧ n ≤ columns.length) ∧
        atOrdinal columns n = .error (.columnIndex n columns.length)) := by
  by_cases hrange : 1 ≤ n ∧ n ≤ columns.length
  · exact .inl ⟨hrange, exists_atOrdinal_iff.2 hrange⟩
  · refine .inr ⟨hrange, ?_⟩
    cases n with
    | zero => rfl
    | succ n =>
      have hnone : columns[n]? = none := List.getElem?_eq_none_iff.2 (by omega)
      simp only [atOrdinal, hnone]

structure Outcome.RefusedBy (outcome : Outcome) (reason : Error → Prop) : Prop where
  refused : ∀ e, outcome = .error (.refused e) ↔ reason e
  answered : (∀ e, ¬ reason e) → ∃ reply, outcome = .ok reply

theorem Outcome.refusedBy {outcome : Outcome} {reason : Error → Prop}
    (hrefused : ∀ e, reason e → outcome = .error (.refused e))
    (hcases : (∃ e, reason e) ∨ ∃ reply, outcome = .ok reply) : outcome.RefusedBy reason := by
  constructor
  · refine fun e => ⟨fun h => ?_, hrefused e⟩
    obtain ⟨e', he'⟩ | ⟨reply, hreply⟩ := hcases
    · have hsame : outcome = .error (.refused e') := hrefused e' he'
      rw [h] at hsame
      obtain rfl := Fault.refused.inj (Except.error.inj hsame)
      exact he'
    · rw [hreply] at h
      cases h
  · intro hnone
    obtain ⟨e, he⟩ | hreply := hcases
    · exact absurd he (hnone e)
    · exact hreply

namespace Cursor
variable {c : Cursor} {n : Nat} {r : TargetRequest} {column : Column}

theorem getData_of_column_error {e : Error} (h : c.column n = .error e) (r : TargetRequest) (k : Nat) :
    c.getData n r k = .error (.refused e) := by
  simp only [getData, h]

theorem getData_of_no_row (hcolumn : c.column n = .ok column) (hrow : c.currentRow? = none) (k : Nat) :
    c.getData n r k = .error (.refused .noCurrentRow) := by
  have hphase : ∀ rows current, c.phase ≠ .active rows (some current) := by
    intro rows current hphase
    simp [currentRow?, current?, hphase] at hrow
  unfold getData
  rw [hcolumn]
  dsimp only
  split
  · next rows current heq => exact absurd heq (hphase rows current)
  · rfl

theorem getData_of_content {t : Target} {cell : Cell} {content : Content}
    (ht : c.target? n r = some t) (hcell : c.cellAt n = some cell)
    (hunread : c.progress? n ≠ some .finished) (hcontent : cell.content t = .ok content) (k : Nat) :
    c.getData n r k = .error .splitCharacter ∨ ∃ p after, c.getData n r k = .ok (some p, after) := by
  obtain ⟨offset, hoffset⟩ := exists_offset hunread
  cases hskip : content.skip offset with
  | none =>
    have hread : cell.read t k offset = .error .splitCharacter := by
      simp only [Cell.read, hcontent, hskip]
    exact .inl (getData_of_read_error ht hcell hoffset hread)
  | some rest =>
    have hread : cell.read t k offset = .ok (rest.write k) := by
      simp only [Cell.read, hcontent, hskip]
    exact .inr ⟨_, getData_of_read ht hcell hoffset hread⟩

theorem Conforms.exists_cellAt (h : c.Conforms) {row : Row} (hrow : c.currentRow? = some row)
    (hfirst : 1 ≤ n) (hlast : n ≤ c.columns.length) : ∃ cell, c.cellAt n = some cell := by
  have hlength : c.columns.length = row.length := (h.current row hrow).length_eq
  obtain ⟨m, rfl⟩ : ∃ m, n = m + 1 := ⟨n - 1, by omega⟩
  refine ⟨row[m], ?_⟩
  rw [cellAt, hrow]
  exact List.getElem?_eq_getElem (by omega)

theorem exists_row_of_progress? {progress : Progress} (h : c.progress? n = some progress) :
    ∃ row, c.currentRow? = some row := by
  obtain ⟨current, hcurrent, -⟩ := Option.bind_eq_some_iff.1 h
  exact ⟨current.row, by rw [currentRow?, hcurrent]; rfl⟩

theorem fetch_of_isClosed (h : c.isClosed = true) : c.fetch.1 = .error .cursorClosed := by
  have hphase : c.phase = .closed := by simpa [isClosed] using h
  simp only [fetch, next, hphase]

theorem fetch_of_pending_nil (hopen : c.isClosed = false) (h : c.pending = []) :
    c.fetch.1 = .ok .noData := by
  unfold fetch next
  cases hphase : c.phase with
  | closed => simp [isClosed, hphase] at hopen
  | exhausted => rfl
  | active rows current =>
    obtain rfl : rows = [] := by simpa [pending, hphase] using h
    rfl

theorem currentRow?_of_fetch (h : c.isClosed = false) :
    c.fetch.2.currentRow? = c.pending.head? := by
  unfold fetch next pending
  cases hphase : c.phase with
  | closed => simp [isClosed, hphase] at h
  | exhausted => simp [currentRow?, current?, hphase]
  | active rows current => cases rows <;> rfl

end Cursor

namespace Statement
variable {settings : Settings} {s : Statement} {n k : Nat} {target : Int} {e : Error}

/-! Calls for a column of the cursor -/

inductive ColumnRefused (s : Statement) (n : Nat) (target : Int) : Error → Prop
  | target (htarget : target ∉ targetCodes) : ColumnRefused s n target (.targetCode target)
  | noCursor (htarget : target ∈ targetCodes) (hcursor : s.cursor? = none) :
    ColumnRefused s n target .noResultSet
  | closed {c : Cursor} (htarget : target ∈ targetCodes) (hcursor : s.cursor? = some c)
      (hclosed : c.isClosed = true) : ColumnRefused s n target .cursorClosed
  | index {c : Cursor} (htarget : target ∈ targetCodes) (hcursor : s.cursor? = some c)
      (hopen : c.isClosed = false) (hindex : ¬ (1 ≤ n ∧ n ≤ c.columns.length)) :
    ColumnRefused s n target (.columnIndex n c.columns.length)

structure Reaches (s : Statement) (n : Nat) (target : Int) (c : Cursor) (r : TargetRequest)
    (column : Column) : Prop where
  target : TargetRequest.ofCode target = .ok r
  cursor : s.cursor? = some c
  column : c.column n = .ok column

theorem refused_or_reaches (s : Statement) (n : Nat) (target : Int) :
    (∃ e, s.ColumnRefused n target e) ∨ ∃ c r column, s.Reaches n target c r column := by
  obtain ⟨htarget, r, hr⟩ | ⟨htarget, -⟩ := TargetRequest.ofCode_cases target
  case inr => exact .inl ⟨_, .target htarget⟩
  cases hcursor : s.cursor? with
  | none => exact .inl ⟨_, .noCursor htarget hcursor⟩
  | some c =>
    cases hclosed : c.isClosed with
    | true => exact .inl ⟨_, .closed htarget hcursor hclosed⟩
    | false =>
      obtain ⟨-, column, hcolumn⟩ | ⟨hindex, -⟩ := Column.atOrdinal_cases c.columns n
      · have hreached : c.column n = .ok column := by
          rw [Cursor.column_eq, hclosed]
          exact hcolumn
        exact .inr ⟨c, r, column, hr, hcursor, hreached⟩
      · exact .inl ⟨_, .index htarget hcursor hclosed hindex⟩

theorem ColumnRefused.stops (h : s.ColumnRefused n target e) :
    TargetRequest.ofCode target = .error e ∨ ∃ r, TargetRequest.ofCode target = .ok r ∧
      (s.result.cursor = .error e ∨ ∃ c, s.result.cursor = .ok c ∧ c.column n = .error e) := by
  have hform (htarget : target ∈ targetCodes) : ∃ r, TargetRequest.ofCode target = .ok r := by
    obtain ⟨-, hr⟩ | ⟨hnot, -⟩ := TargetRequest.ofCode_cases target
    · exact hr
    · exact absurd htarget hnot
  have hcursor_ok {c : Cursor} (hcursor : s.cursor? = some c) : s.result.cursor = .ok c := by
    unfold ResultSet.cursor
    rw [show s.result.cursor? = some c from hcursor]
  cases h with
  | target htarget =>
    obtain ⟨hmem, -⟩ | ⟨-, herror⟩ := TargetRequest.ofCode_cases target
    · exact absurd hmem htarget
    · exact .inl herror
  | noCursor htarget hcursor =>
    obtain ⟨r, hr⟩ := hform htarget
    refine .inr ⟨r, hr, .inl ?_⟩
    unfold ResultSet.cursor
    rw [show s.result.cursor? = none from hcursor]
  | closed htarget hcursor hclosed =>
    obtain ⟨r, hr⟩ := hform htarget
    exact .inr ⟨r, hr, .inr ⟨_, hcursor_ok hcursor, by rw [Cursor.column_eq, if_pos hclosed]⟩⟩
  | @index c htarget hcursor hopen hindex =>
    obtain ⟨r, hr⟩ := hform htarget
    obtain ⟨hrange, -⟩ | ⟨-, herror⟩ := Column.atOrdinal_cases c.columns n
    · exact absurd hrange hindex
    · refine .inr ⟨r, hr, .inr ⟨c, hcursor_ok hcursor, ?_⟩⟩
      rw [Cursor.column_eq, hopen]
      exact herror

theorem bind_of_columnRefused (h : s.ColumnRefused n target e) :
    (s.call settings (.bind n target k)).1 = .error (.refused e) := by
  show (s.result.bind n target k).1 = _
  unfold ResultSet.bind
  obtain hform | ⟨r, hr, hcursor | ⟨c, hc, hcolumn⟩⟩ := h.stops
  · rw [hform]
    rfl
  · rw [hr, hcursor]
    rfl
  · have hbind : c.bind n r k = .error e := by
      unfold Cursor.bind
      rw [hcolumn]
      rfl
    rw [hr, hc]
    simp only [Bind.bind, Except.bind, hbind]

theorem getData_of_columnRefused (h : s.ColumnRefused n target e) :
    (s.call settings (.getData n target k)).1 = .error (.refused e) := by
  show (s.result.getData n target k).1 = _
  unfold ResultSet.getData
  obtain hform | ⟨r, hr, hcursor | ⟨c, hc, hcolumn⟩⟩ := h.stops
  · rw [hform]
    rfl
  · rw [hr, hcursor]
    rfl
  · have hread : c.getData n r k = .error (.refused e) := Cursor.getData_of_column_error hcolumn r k
    rw [hr, hc]
    simp only [Bind.bind, Except.bind, pure, Except.pure, hread]

section Reached
variable {c : Cursor} {r : TargetRequest} {column : Column}

theorem Reaches.range (h : s.Reaches n target c r column) : 1 ≤ n ∧ n ≤ c.columns.length :=
  Column.exists_atOrdinal_iff.1 ⟨column, Cursor.column_eq_ok h.column⟩

theorem Reaches.bind (h : s.Reaches n target c r column) (settings : Settings) (k : Nat) :
    (s.call settings (.bind n target k)).1 = .ok .done := by
  show (s.result.bind n target k).1 = _
  unfold ResultSet.bind
  rw [h.target, ResultSet.eq_rows_of_cursor? h.cursor]
  simp only [Bind.bind, Except.bind, ResultSet.cursor, ResultSet.cursor?, Cursor.bind, h.column]
  rfl

theorem Reaches.getData (h : s.Reaches n target c r column) (settings : Settings) (k : Nat) :
    (∀ fault, c.getData n r k = .error fault →
      (s.call settings (.getData n target k)).1 = .error fault) ∧
    (∀ after, c.getData n r k = .ok (none, after) →
      (s.call settings (.getData n target k)).1 = .ok .noData) ∧
    ∀ p after, c.getData n r k = .ok (some p, after) →
      (s.call settings (.getData n target k)).1 = .ok (.piece n p) := by
  have hasked : (do
      let request ← TargetRequest.ofCode target
      return (request, ← s.result.cursor) : Except Error (TargetRequest × Cursor)) = .ok (r, c) := by
    rw [h.target, ResultSet.eq_rows_of_cursor? h.cursor]
    rfl
  have hanswer : (s.call settings (.getData n target k)).1 = (s.result.getData n target k).1 := rfl
  unfold ResultSet.getData at hanswer
  rw [hasked] at hanswer
  refine ⟨fun fault hread => ?_, fun after hread => ?_, fun p after hread => ?_⟩ <;>
    rw [hanswer] <;> simp only [hread]

end Reached

/-- That the cell does not convert matters only while there is something left of it. -/
inductive ReadRefused (s : Statement) (n : Nat) (target : Int) : Error → Prop
  | column {e : Error} (h : s.ColumnRefused n target e) : ReadRefused s n target e
  | noRow {c : Cursor} {r : TargetRequest} {column : Column} (h : s.Reaches n target c r column)
      (hrow : s.currentRow? = none) : ReadRefused s n target .noCurrentRow
  | unfit {c : Cursor} {r : TargetRequest} {column : Column} {cell : Cell} {e : Error}
      (h : s.Reaches n target c r column) (hcell : c.cellAt n = some cell)
      (hunread : c.progress? n ≠ some .finished) (hunfit : cell.Unfit (r.resolve column.type) e) :
    ReadRefused s n target e

theorem currentRow?_of_cursor {c : Cursor} (h : s.cursor? = some c) :
    s.currentRow? = c.currentRow? := by
  unfold currentRow?
  rw [h]
  rfl

theorem getData_of_readRefused (h : s.ReadRefused n target e) :
    (s.call settings (.getData n target k)).1 = .error (.refused e) := by
  cases h with
  | column h => exact getData_of_columnRefused h
  | noRow h hrow =>
    rw [currentRow?_of_cursor h.cursor] at hrow
    exact (h.getData settings k).1 _ (Cursor.getData_of_no_row h.column hrow k)
  | @unfit c r column cell _ h hcell hunread hunfit =>
    obtain ⟨offset, hoffset⟩ := Cursor.exists_offset hunread
    have hread : cell.read (r.resolve column.type) k offset = .error (.refused e) := by
      simp only [Cell.read, Cell.content_eq_error_iff.2 hunfit]
    exact (h.getData settings k).1 _
      (Cursor.getData_of_read_error (Cursor.target?_of_column h.column r) hcell hoffset hread)

theorem getData_cases (hs : ∀ c, s.cursor? = some c → c.Conforms) (settings : Settings) (n : Nat)
    (target : Int) (k : Nat) :
    (∃ e, s.ReadRefused n target e) ∨
    ∃ c r column, s.Reaches n target c r column ∧
      ((c.progress? n = some .finished ∧ (s.call settings (.getData n target k)).1 = .ok .noData) ∨
      (c.progress? n ≠ some .finished ∧
        ((s.call settings (.getData n target k)).1 = .error .splitCharacter ∨
          ∃ p, (s.call settings (.getData n target k)).1 = .ok (.piece n p)))) := by
  obtain ⟨e, he⟩ | ⟨c, r, column, h⟩ := s.refused_or_reaches n target
  case inl => exact .inl ⟨e, .column he⟩
  obtain ⟨hrefused, hended, hread⟩ := h.getData settings k
  cases hrow : s.currentRow? with
  | none => exact .inl ⟨_, .noRow h hrow⟩
  | some row =>
    rw [currentRow?_of_cursor h.cursor] at hrow
    obtain ⟨cell, hcell⟩ := (hs c h.cursor).exists_cellAt hrow h.range.1 h.range.2
    have htarget : c.target? n r = some (r.resolve column.type) :=
      Cursor.target?_of_column h.column r
    by_cases hfinished : c.progress? n = some .finished
    case pos =>
      have hnone : c.getData n r k = .ok (none, c) :=
        Cursor.getData_of_finished htarget hcell hfinished k
      exact .inr ⟨c, r, column, h, .inl ⟨hfinished, hended c hnone⟩⟩
    case neg =>
      cases hcontent : cell.content (r.resolve column.type) with
      | error e => exact .inl ⟨e, .unfit h hcell hfinished (Cell.content_eq_error_iff.1 hcontent)⟩
      | ok content =>
        refine .inr ⟨c, r, column, h, .inr ⟨hfinished, ?_⟩⟩
        obtain hsplit | ⟨p, after, hpiece⟩ :=
          Cursor.getData_of_content htarget hcell hfinished hcontent k
        · exact .inl (hrefused _ hsplit)
        · exact .inr ⟨p, hread p after hpiece⟩

theorem getData_eq_refused_iff (hs : ∀ c, s.cursor? = some c → c.Conforms) (settings : Settings) :
    (s.call settings (.getData n target k)).1 = .error (.refused e) ↔ s.ReadRefused n target e := by
  refine ⟨fun h => ?_, getData_of_readRefused⟩
  obtain ⟨e', he'⟩ | ⟨_, _, _, -, ⟨-, hended⟩ | ⟨-, hsplit | ⟨p, hpiece⟩⟩⟩ :=
    getData_cases hs settings n target k
  · rw [getData_of_readRefused he'] at h
    obtain rfl := Fault.refused.inj (Except.error.inj h)
    exact he'
  · rw [hended] at h
    cases h
  · rw [hsplit] at h
    cases h
  · rw [hpiece] at h
    cases h

theorem getData_eq_noData_iff (hs : ∀ c, s.cursor? = some c → c.Conforms) (settings : Settings) :
    (s.call settings (.getData n target k)).1 = .ok .noData ↔
      ∃ c r column, s.Reaches n target c r column ∧ c.progress? n = some .finished := by
  constructor
  · intro h
    obtain ⟨e, he⟩ | ⟨c, r, column, hreaches, ⟨hfinished, -⟩ | ⟨-, hsplit | ⟨p, hpiece⟩⟩⟩ :=
      getData_cases hs settings n target k
    · rw [getData_of_readRefused he] at h
      cases h
    · exact ⟨c, r, column, hreaches, hfinished⟩
    · rw [hsplit] at h
      cases h
    · rw [hpiece] at h
      cases h
  · rintro ⟨c, r, column, hreaches, hfinished⟩
    obtain ⟨row, hrow⟩ := Cursor.exists_row_of_progress? hfinished
    obtain ⟨cell, hcell⟩ :=
      (hs c hreaches.cursor).exists_cellAt hrow hreaches.range.1 hreaches.range.2
    exact (hreaches.getData settings k).2.1 c
      (Cursor.getData_of_finished (Cursor.target?_of_column hreaches.column r) hcell hfinished k)

/-! Fetches -/

inductive FetchRefused (s : Statement) : Error → Prop
  | noCursor (hcursor : s.cursor? = none) : FetchRefused s .noResultSet
  | closed {c : Cursor} (hcursor : s.cursor? = some c) (hclosed : c.isClosed = true) :
    FetchRefused s .cursorClosed
  | unfit {c : Cursor} {row : Row} {e : Error} (hcursor : s.cursor? = some c)
      (hrow : c.pending.head? = some row) (hstopped : c.bindings.StoppedBy row e) :
    FetchRefused s e

theorem fetch_of_cursor {c : Cursor} (h : s.cursor? = some c) (settings : Settings) :
    (∀ e, c.fetch.1 = .error e → (s.call settings .fetch).1 = .error (.refused e)) ∧
    (∀ fetched, c.fetch.1 = .ok fetched → ∃ reply, (s.call settings .fetch).1 = .ok reply) ∧
    (s.call settings .fetch).2.currentRow? = c.fetch.2.currentRow? := by
  have hresult : s.result = .rows c := ResultSet.eq_rows_of_cursor? h
  unfold call
  rw [hresult]
  dsimp only [ResultSet.answer, ResultSet.fetch, ResultSet.cursor, ResultSet.cursor?]
  rcases c.fetch with ⟨e | _ | ns, after⟩
  · exact ⟨fun e' he => by rw [Except.error.inj he], fun _ hf => (by cases hf), rfl⟩
  · exact ⟨fun _ he => (by cases he), fun _ _ => ⟨_, rfl⟩, rfl⟩
  · exact ⟨fun _ he => (by cases he), fun _ _ => ⟨_, rfl⟩, rfl⟩

theorem fetch_of_fetchRefused (h : s.FetchRefused e) :
    (s.call settings .fetch).1 = .error (.refused e) := by
  cases h with
  | noCursor hcursor =>
    have hnone : s.result.cursor? = none := hcursor
    show s.result.fetch.1 = _
    unfold ResultSet.fetch ResultSet.cursor
    rw [hnone]
  | @closed c hcursor hclosed =>
    exact (fetch_of_cursor hcursor settings).1 _ (Cursor.fetch_of_isClosed hclosed)
  | @unfit c row _ hcursor hrow hstopped =>
    refine (fetch_of_cursor hcursor settings).1 _ ?_
    obtain ⟨rows, hpending⟩ := List.head?_eq_some_iff.1 hrow
    rw [Cursor.fetch_of_pending_cons hpending]
    obtain ⟨e', hstopped', herror⟩ | ⟨hnone, -⟩ := c.bindings.refresh_cases row
    · obtain rfl := hstopped.unique hstopped'
      rw [herror]
      rfl
    · obtain ⟨m, b, hb, hstops, -⟩ := hstopped
      exact absurd hstops (hnone m b hb e)

theorem fetch_cases (settings : Settings) (s : Statement) :
    (∃ e, s.FetchRefused e) ∨
    ∃ c reply, s.cursor? = some c ∧ (s.call settings .fetch).1 = .ok reply ∧
      ∀ row, c.pending.head? = some row →
        ∀ n b, c.bindings.get? n = some b → ∀ e, ¬ row.Stops n b e := by
  cases hcursor : s.cursor? with
  | none => exact .inl ⟨_, .noCursor hcursor⟩
  | some c =>
    obtain ⟨-, hok, -⟩ := fetch_of_cursor hcursor settings
    cases hclosed : c.isClosed with
    | true => exact .inl ⟨_, .closed hcursor hclosed⟩
    | false =>
      cases hpending : c.pending with
      | nil =>
        obtain ⟨reply, hreply⟩ := hok _ (Cursor.fetch_of_pending_nil hclosed hpending)
        exact .inr ⟨c, reply, rfl, hreply, fun row hrow => by simp [hpending] at hrow⟩
      | cons row rows =>
        obtain ⟨e, hstopped, -⟩ | ⟨hnone, ns, hns⟩ := c.bindings.refresh_cases row
        · exact .inl ⟨e, .unfit hcursor (by rw [hpending]; rfl) hstopped⟩
        · have houtcome : c.fetch.1 = .ok (.row ns) := by
            rw [Cursor.fetch_of_pending_cons hpending, hns]
            rfl
          obtain ⟨reply, hreply⟩ := hok _ houtcome
          refine .inr ⟨c, reply, rfl, hreply, fun other hother => ?_⟩
          rw [hpending] at hother
          obtain rfl := Option.some.inj hother
          exact hnone

theorem FetchRefused.stopped {c : Cursor} (h : s.FetchRefused e) (hcursor : s.cursor? = some c)
    (hopen : c.isClosed = false) :
    ∃ row, c.pending.head? = some row ∧ c.bindings.StoppedBy row e := by
  cases h with
  | noCursor hnone =>
    rw [hcursor] at hnone
    cases hnone
  | closed hcursor' hclosed =>
    obtain rfl := Option.some.inj (hcursor.symm.trans hcursor')
    rw [hopen] at hclosed
    cases hclosed
  | @unfit _ row _ hcursor' hrow hstopped =>
    obtain rfl := Option.some.inj (hcursor.symm.trans hcursor')
    exact ⟨row, hrow, hstopped⟩

theorem fetch_fails_iff {c : Cursor} (hcursor : s.cursor? = some c) (hopen : c.isClosed = false)
    (settings : Settings) :
    (∃ fault, (s.call settings .fetch).1 = .error fault) ↔
      ∃ row, (s.call settings .fetch).2.currentRow? = some row ∧
        ∃ n b e, s.binding? n = some b ∧ row.Stops n b e := by
  have hreached : (s.call settings .fetch).2.currentRow? = c.pending.head? :=
    (fetch_of_cursor hcursor settings).2.2.trans (Cursor.currentRow?_of_fetch hopen)
  have hbinding (n : Nat) : s.binding? n = c.bindings.get? n := by
    unfold binding?
    rw [hcursor]
    rfl
  rw [hreached]
  simp only [hbinding]
  constructor
  · rintro ⟨fault, hfault⟩
    obtain ⟨e, he⟩ | ⟨_, reply, -, hreply, -⟩ := fetch_cases settings s
    · obtain ⟨row, hrow, n, b, hb, hstops, -⟩ := he.stopped hcursor hopen
      exact ⟨row, hrow, n, b, e, hb, hstops⟩
    · rw [hreply] at hfault
      cases hfault
  · rintro ⟨row, hrow, n, b, e, hb, hstops⟩
    obtain ⟨e', he'⟩ | ⟨c', _, hcursor', -, hnone⟩ := fetch_cases settings s
    · exact ⟨_, fetch_of_fetchRefused he'⟩
    · obtain rfl := Option.some.inj (hcursor.symm.trans hcursor')
      exact absurd hstops (hnone row hrow n b hb e)

/-! Questions for columns -/

def Offers (s : Statement) (columns : List Column) : Prop :=
  s.projection? = some columns ∨
    ∃ c, s.cursor? = some c ∧ c.isClosed = false ∧ columns = c.columns

theorem offers_iff {columns : List Column} : s.Offers columns ↔ s.result.columns = .ok columns := by
  obtain ⟨hcolumns, hheld⟩ | ⟨hcolumns, hprojection, hclosed⟩ := s.result.columns_cases
  · rw [hcolumns]
    constructor
    · rintro (hcs | ⟨c, hc, -, rfl⟩)
      · rw [ResultSet.held_of_projection? hcs]
      · rw [ResultSet.eq_rows_of_cursor? hc]
        rfl
    · intro h
      obtain rfl := Except.ok.inj h
      exact hheld
  · rw [hcolumns]
    refine ⟨?_, fun h => by cases h⟩
    rintro (hcs | ⟨c, hc, hopen, -⟩)
    · rw [show s.result.projection? = some columns from hcs] at hprojection
      cases hprojection
    · rw [hclosed c hc] at hopen
      cases hopen

theorem columns_of_not_offers (h : ∀ columns, ¬ s.Offers columns) :
    s.result.columns = .error .noResultSet := by
  obtain ⟨hcolumns, -⟩ | ⟨hnone, -⟩ := s.result.columns_cases
  · exact absurd (offers_iff.2 hcolumns) (h _)
  · exact hnone

inductive AskRefused (s : Statement) (n : Nat) : Error → Prop
  | noColumns (h : ∀ columns, ¬ s.Offers columns) : AskRefused s n .noResultSet
  | index {columns : List Column} (h : s.Offers columns)
      (hindex : ¬ (1 ≤ n ∧ n ≤ columns.length)) :
    AskRefused s n (.columnIndex n columns.length)

theorem AskRefused.stops (h : s.AskRefused n e) :
    s.result.columns = .error e ∨
      ∃ columns, s.result.columns = .ok columns ∧ Column.atOrdinal columns n = .error e := by
  cases h with
  | noColumns h => exact .inl (columns_of_not_offers h)
  | @index columns h hindex =>
    obtain ⟨hrange, -⟩ | ⟨-, herror⟩ := Column.atOrdinal_cases columns n
    · exact absurd hrange hindex
    · exact .inr ⟨columns, offers_iff.1 h, herror⟩

theorem refused_or_asked (s : Statement) (n : Nat) :
    (∃ e, s.AskRefused n e) ∨
      ∃ columns c, s.result.columns = .ok columns ∧ Column.atOrdinal columns n = .ok c := by
  by_cases hoffers : ∃ columns, s.Offers columns
  case neg => exact .inl ⟨_, .noColumns (not_exists.1 hoffers)⟩
  obtain ⟨columns, hcolumns⟩ := hoffers
  obtain ⟨-, c, hc⟩ | ⟨hindex, -⟩ := Column.atOrdinal_cases columns n
  · exact .inr ⟨columns, c, offers_iff.1 hcolumns, hc⟩
  · exact .inl ⟨_, .index hcolumns hindex⟩

theorem describeColumn_refusedBy (settings : Settings) (s : Statement) (n : Nat) :
    (s.call settings (.describeColumn n)).1.RefusedBy (s.AskRefused n) := by
  refine Outcome.refusedBy (fun e h => ?_) ?_
  · show Outcome.ofExcept (s.result.describeColumn settings.limits n) = _
    unfold ResultSet.describeColumn
    obtain hcolumns | ⟨columns, hcolumns, hcolumn⟩ := h.stops
    · rw [hcolumns]
      rfl
    · rw [hcolumns]
      simp only [Bind.bind, Except.bind, hcolumn]
      rfl
  · obtain hrefused | ⟨columns, c, hcolumns, hcolumn⟩ := s.refused_or_asked n
    · exact .inl hrefused
    · exact .inr ⟨_, call_describeColumn hcolumns hcolumn⟩

inductive AttributeRefused (s : Statement) (n number : Nat) : Error → Prop
  | unknown (hfield : AttributeField.ofNumber? number = none) :
    AttributeRefused s n number (.unknownField number)
  | noColumns {field : AttributeField} (hfield : AttributeField.ofNumber? number = some field)
      (h : ∀ columns, ¬ s.Offers columns) : AttributeRefused s n number .noResultSet
  | index {field : AttributeField} {columns : List Column}
      (hfield : AttributeField.ofNumber? number = some field) (hcount : field ≠ .count)
      (h : s.Offers columns) (hindex : ¬ (1 ≤ n ∧ n ≤ columns.length)) :
    AttributeRefused s n number (.columnIndex n columns.length)

section Attributes
variable {limits : Limits} {number : Nat} {field : AttributeField}

theorem attributeValue_of_known (hfield : AttributeField.ofNumber? number = some field)
    (s : Statement) (limits : Limits) (n : Nat) :
    s.result.attributeValue limits n number =
      s.result.columns >>= fun columns => Column.attributeValue columns limits n field := by
  unfold ResultSet.attributeValue AttributeField.ofNumber
  rw [hfield]
  rfl

theorem attributeValue_of_refused (h : s.AttributeRefused n number e) :
    s.result.attributeValue limits n number = .error e := by
  cases h with
  | unknown hfield =>
    unfold ResultSet.attributeValue AttributeField.ofNumber
    rw [hfield]
    rfl
  | noColumns hfield h =>
    rw [attributeValue_of_known hfield, columns_of_not_offers h]
    rfl
  | @index field columns hfield hcount h hindex =>
    obtain ⟨hrange, -⟩ | ⟨-, herror⟩ := Column.atOrdinal_cases columns n
    · exact absurd hrange hindex
    · rw [attributeValue_of_known hfield, offers_iff.1 h]
      show Column.attributeValue columns limits n field = _
      rw [Column.attributeValue_of_ne_count hcount, herror]
      rfl

theorem attributeValue_cases (s : Statement) (limits : Limits) (n number : Nat) :
    (∃ e, s.AttributeRefused n number e) ∨
      ∃ value, s.result.attributeValue limits n number = .ok value := by
  cases hfield : AttributeField.ofNumber? number with
  | none => exact .inl ⟨_, .unknown hfield⟩
  | some field =>
    rw [attributeValue_of_known hfield]
    by_cases hoffers : ∃ columns, s.Offers columns
    case neg => exact .inl ⟨_, .noColumns hfield (not_exists.1 hoffers)⟩
    obtain ⟨columns, hcolumns⟩ := hoffers
    rw [offers_iff.1 hcolumns]
    -- the count is told for every number, be there such a column or not
    by_cases hcount : field = .count
    · subst hcount
      exact .inr ⟨_, rfl⟩
    · obtain ⟨-, c, hc⟩ | ⟨hindex, -⟩ := Column.atOrdinal_cases columns n
      · refine .inr ⟨field.valueIn columns.length limits c, ?_⟩
        show Column.attributeValue columns limits n field = _
        rw [Column.attributeValue_of_ne_count hcount, hc]
        rfl
      · exact .inl ⟨_, .index hfield hcount hcolumns hindex⟩

theorem columnAttribute_refusedBy (settings : Settings) (s : Statement) (n number : Nat) :
    (s.call settings (.columnAttribute n number)).1.RefusedBy (s.AttributeRefused n number) := by
  have houtcome : (s.call settings (.columnAttribute n number)).1 =
      .ofExcept ((s.result.attributeValue settings.limits n number).map .value) := rfl
  rw [houtcome]
  refine Outcome.refusedBy (fun e h => ?_) ?_
  · rw [attributeValue_of_refused h]
    rfl
  · obtain hrefused | ⟨value, hvalue⟩ := s.attributeValue_cases settings.limits n number
    · exact .inl hrefused
    · exact .inr ⟨.value value, by rw [hvalue]; rfl⟩

theorem attributeText_refusedBy (settings : Settings) (s : Statement) (n number k : Nat) :
    (s.call settings (.attributeText n number k)).1.RefusedBy (s.AttributeRefused n number) := by
  have houtcome : (s.call settings (.attributeText n number k)).1 =
      .ofExcept (s.result.attributeText settings.limits n number k) := rfl
  rw [houtcome]
  unfold ResultSet.attributeText
  refine Outcome.refusedBy (fun e h => ?_) ?_
  · rw [attributeValue_of_refused h]
    rfl
  · obtain hrefused | ⟨value, hvalue⟩ := s.attributeValue_cases settings.limits n number
    · exact .inl hrefused
    · rw [hvalue]
      cases value <;> exact .inr ⟨_, rfl⟩

end Attributes

structure RefusesExactly (settings : Settings) (s : Statement) : Prop where
  bind : ∀ n target k,
    (s.call settings (.bind n target k)).1.RefusedBy (s.ColumnRefused n target)
  getData : ∀ n target k e, (s.call settings (.getData n target k)).1 = .error (.refused e) ↔
    s.ReadRefused n target e
  noData : ∀ n target k, (s.call settings (.getData n target k)).1 = .ok .noData ↔
    ∃ c r column, s.Reaches n target c r column ∧ c.progress? n = some .finished
  piece : ∀ n target k, (s.call settings (.getData n target k)).1 ≠ .error .splitCharacter →
    (∀ e, ¬ s.ReadRefused n target e) → (s.call settings (.getData n target k)).1 = .ok .noData ∨
      ∃ p, (s.call settings (.getData n target k)).1 = .ok (.piece n p)
  fetch : (s.call settings .fetch).1.RefusedBy s.FetchRefused
  fetchOpen : ∀ c, s.cursor? = some c → c.isClosed = false →
    ((∃ fault, (s.call settings .fetch).1 = .error fault) ↔
      ∃ row, (s.call settings .fetch).2.currentRow? = some row ∧
        ∃ n b e, s.binding? n = some b ∧ row.Stops n b e)
  describeColumn : ∀ n, (s.call settings (.describeColumn n)).1.RefusedBy (s.AskRefused n)
  columnAttribute : ∀ n number,
    (s.call settings (.columnAttribute n number)).1.RefusedBy (s.AttributeRefused n number)
  attributeText : ∀ n number k,
    (s.call settings (.attributeText n number k)).1.RefusedBy (s.AttributeRefused n number)

/-- After any requests, every call on columns, rows or attributes is refused exactly for the first of
its tests that it fails, and it is answered where it fails none, unless reading breaks off. -/
theorem refusals_exact (settings : Settings) (requests : List Request) :
    (({} : Statement).run settings requests).RefusesExactly settings := by
  have hconforms : ∀ c, (({} : Statement).run settings requests).cursor? = some c → c.Conforms :=
    fun c hc => (conforms_of_cursor? hc).1
  generalize ({} : Statement).run settings requests = s at hconforms
  constructor
  case bind =>
    intro n target k
    refine Outcome.refusedBy (fun e h => bind_of_columnRefused h) ?_
    obtain hrefused | ⟨c, r, column, hreaches⟩ := s.refused_or_reaches n target
    · exact .inl hrefused
    · exact .inr ⟨_, hreaches.bind settings k⟩
  case getData => exact fun n target k e => getData_eq_refused_iff hconforms settings
  case noData => exact fun n target k => getData_eq_noData_iff hconforms settings
  case piece =>
    intro n target k hreturns hnone
    obtain ⟨e, he⟩ | ⟨c, r, column, -, ⟨-, hended⟩ | ⟨-, hsplit | hpiece⟩⟩ :=
      getData_cases hconforms settings n target k
    · exact absurd he (hnone e)
    · exact .inl hended
    · exact absurd hsplit hreturns
    · exact .inr hpiece
  case fetch =>
    refine Outcome.refusedBy (fun e h => fetch_of_fetchRefused h) ?_
    obtain hrefused | ⟨_, reply, -, hreply, -⟩ := fetch_cases settings s
    · exact .inl hrefused
    · exact .inr ⟨reply, hreply⟩
  case fetchOpen => exact fun c hcursor hopen => fetch_fails_iff hcursor hopen settings
  case describeColumn => exact describeColumn_refusedBy settings s
  case columnAttribute => exact columnAttribute_refusedBy settings s
  case attributeText => exact attributeText_refusedBy settings s

theorem refusals_after_unfit_fetch :
    let source : Source := ⟨.ok [⟨"S", "T"⟩], fun _ => .ok []⟩
    let before : List Request := [⟨source, .query (.tables {})⟩, ⟨source, .call (.bind 3 (-16) 4)⟩,
      ⟨source, .call (.bind 2 99 9)⟩, ⟨source, .call (.bind 2 (-25) 8)⟩]
    let after : List Request := before ++ [⟨source, .call .fetch⟩, ⟨source, .call .closeCursor⟩]
    let s := ({} : Statement).run {} before
    let t := ({} : Statement).run {} after
    s.FetchRefused (.notInteger "S") ∧ s.ReadRefused 3 1 .noCurrentRow ∧
    s.AttributeRefused 9 3 (.columnIndex 9 5) ∧ (∀ e, ¬ s.AttributeRefused 9 0 e) ∧
    t.ColumnRefused 9 7 (.targetCode 7) ∧ t.ReadRefused 9 1 .cursorClosed ∧
    t.AttributeRefused 9 19 (.unknownField 19) ∧ t.AskRefused 9 .noResultSet := by
  intro source before after s t
  have hs : s.RefusesExactly {} := refusals_exact {} before
  have ht : t.RefusesExactly {} := refusals_exact {} after
  refine ⟨(hs.fetch.refused _).1 ?_, (hs.getData 3 1 8 _).1 ?_, ((hs.columnAttribute 9 3).refused _).1 ?_,
    fun e he => ?_, ((ht.bind 9 7 8).refused _).1 ?_, (ht.getData 9 1 8 _).1 ?_,
    ((ht.columnAttribute 9 19).refused _).1 ?_, ((ht.describeColumn 9).refused _).1 ?_⟩
  case refine_4 =>
    have hcount : (s.call {} (.columnAttribute 9 0)).1 = .ok (.value (.int 5)) := by decide +kernel
    rw [((hs.columnAttribute 9 0).refused e).2 he] at hcount
    cases hcount
  all_goals decide +kernel

end Statement
end CacheCatalog
