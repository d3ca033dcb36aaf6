import CacheCatalog.Proofs.Buffers
import CacheCatalog.Proofs.Conformance
import CacheCatalog.Proofs.Delivery
import CacheCatalog.Proofs.Numbering
import CacheCatalog.Proofs.Reading
import CacheCatalog.Statement

/-! Cursors over catalog answers. Their rows conform to their columns, whatever the source answers and
whatever is searched for; so buffers bound in the form of their columns take every row, and a column
read in its own form gives at least a first piece. -/
namespace CacheCatalog

def Query.Opens (limits : Limits) (source : Source) : Query → Cursor → Prop
  | .types code, c =>
    c = Cursor.ofRows (Layout.types limits).columns
      ((FieldType.requested code).map (Layout.types limits).row) true
  | .columns search, c => ∃ found, search.run source = .ok found ∧
    c = Cursor.ofRows (Layout.columnList limits).columns
      (found.map (Layout.columnList limits).row) true
  | .tables search, c => ∃ found, search.run source = .ok found ∧
    c = Cursor.ofRows Layout.tables.columns (found.map Layout.tables.row) true
  | .describe .., _ => False

theorem Query.opens_of_query {settings : Settings} {source : Source} {s : Statement} {q : Query}
    {c : Cursor} (h : (s.query settings source q).2.cursor? = some c) :
    q.Opens settings.limits source c := by
  unfold Statement.query at h
  cases hanswer : q.answer settings source with
  | error e => simp [hanswer, Statement.cursor?, Statement.cleared, ResultSet.cursor?] at h
  | ok result =>
    simp only [hanswer, Statement.cursor?] at h
    cases q with
    | types code =>
      obtain rfl := Except.ok.inj hanswer
      exact (Option.some.inj h).symm
    | columns search =>
      obtain ⟨found, hfound, rfl⟩ := map_eq_ok.1 hanswer
      exact ⟨found, hfound, (Option.some.inj h).symm⟩
    | tables search =>
      obtain ⟨found, hfound, rfl⟩ := map_eq_ok.1 hanswer
      exact ⟨found, hfound, (Option.some.inj h).symm⟩
    | describe table names =>
      obtain ⟨columns, -, rfl⟩ := map_eq_ok.1 hanswer
      cases h

theorem Column.shown_of_declared {table : TableRef} {index : Nat} {d : DeclaredColumn} {c : Column}
    (h : Column.ofDeclared table index d = .ok c) : Layout.Shown c := by
  obtain ⟨hbound, type, -, rfl⟩ := of_ofDeclared_eq_ok h
  refine ⟨⟨Nat.le_add_left 1 index, hbound⟩, ?_⟩
  cases d.nullable
  · exact .inl rfl
  · exact .inr rfl

theorem ColumnSearch.exists_declared_of_run {search : ColumnSearch} {source : Source}
    {found : List Column} {c : Column} (h : search.run source = .ok found) (hc : c ∈ found) :
    ∃ tables t declared i d, source.tables = .ok tables ∧ t ∈ tables ∧
      source.columns t = .ok declared ∧ declared[i]? = some d ∧ Column.ofDeclared t i d = .ok c := by
  unfold ColumnSearch.run at h
  split at h
  · obtain ⟨tables, htables, h⟩ := bind_eq_ok.1 h
    obtain ⟨parts, hparts, h⟩ := bind_eq_ok.1 h
    obtain rfl := Except.ok.inj h
    obtain ⟨part, hpart, hc⟩ := List.mem_flatten.1 hc
    obtain ⟨t, ht, htable⟩ := exists_of_mem_mapM hparts hpart
    obtain ⟨declared, hdeclared, hcolumns⟩ := bind_eq_ok.1 htable
    obtain ⟨⟨d, i⟩, hd, hcolumn⟩ := exists_of_mem_mapM hcolumns hc
    have hplace := List.mem_zipIdx_iff_getElem?.1 (List.mem_filter.1 hd).1
    exact ⟨tables, t, declared, i, d, htables, (List.mem_filter.1 ht).1, hdeclared, hplace, hcolumn⟩
  · obtain rfl := Except.ok.inj h
    cases hc

theorem ColumnSearch.shown_of_run {search : ColumnSearch} {source : Source} {found : List Column}
    (h : search.run source = .ok found) : ∀ c ∈ found, Layout.Shown c := by
  intro c hc
  obtain ⟨_, _, _, _, _, -, -, -, -, hcolumn⟩ := exists_declared_of_run h hc
  exact Column.shown_of_declared hcolumn

theorem Query.Opens.exists_rows {limits : Limits} {source : Source} {q : Query} {c : Cursor}
    (h : q.Opens limits source c) : ∃ columns rows, c = Cursor.ofRows columns rows true ∧
      ∀ row ∈ rows, Row.Conforms columns row := by
  cases q with
  | types code =>
    refine ⟨_, _, h, fun row hrow => ?_⟩
    obtain ⟨t, -, rfl⟩ := List.mem_map.1 hrow
    exact Layout.conforms_row (Layout.types_admits limits t)
  | columns search =>
    obtain ⟨found, hfound, h⟩ := h
    refine ⟨_, _, h, fun row hrow => ?_⟩
    obtain ⟨c, hc, rfl⟩ := List.mem_map.1 hrow
    exact Layout.conforms_row
      (Layout.columnList_admits limits (ColumnSearch.shown_of_run hfound c hc))
  | tables search =>
    obtain ⟨found, -, h⟩ := h
    refine ⟨_, _, h, fun row hrow => ?_⟩
    obtain ⟨entry, -, rfl⟩ := List.mem_map.1 hrow
    exact Layout.conforms_row (Layout.tables_admits entry)
  | describe table names => exact absurd h id

theorem Row.Conforms.admits {columns : List Column} {row : Row} (h : Row.Conforms columns row)
    {i : Nat} {column : Column} {cell : Cell} (hcolumn : columns[i]? = some column)
    (hcell : row[i]? = some cell) : column.admits cell = true := by
  unfold Row.Conforms at h
  induction h generalizing i with
  | nil => cases hcolumn
  | cons hhead _ ih =>
    cases i with
    | zero =>
      obtain rfl := Option.some.inj hcolumn
      obtain rfl := Option.some.inj hcell
      exact hhead
    | succ i => exact ih hcolumn hcell

theorem Column.content_of_admits {column : Column} {cell : Cell} (h : column.admits cell = true) :
    ∃ content, cell.content column.type.target = .ok content := by
  cases cell with
  | null => exact ⟨.null, rfl⟩
  | text s =>
    have htype : column.type = .string := by simpa [Column.admits] using h
    rw [htype]
    exact ⟨_, rfl⟩
  | int v =>
    dsimp only [Column.admits] at h
    split at h
    · next htype =>
      refine ⟨.fixed (Text.toLittleEndian 2 v), ?_⟩
      rw [htype]
      exact if_pos h
    · next htype =>
      refine ⟨.fixed (Text.toLittleEndian 4 v), ?_⟩
      rw [htype]
      exact if_pos h
    · cases h

def CursorCall.bindsByColumn : CursorCall → Bool
  | bind _ r _ => r == .byColumn
  | _ => true

namespace Cursor

structure Conforms (c : Cursor) : Prop where
  pending : ∀ row ∈ c.pending, Row.Conforms c.columns row
  current : ∀ row ∈ c.currentRow?, Row.Conforms c.columns row

theorem Conforms.event {c : Cursor} (h : c.Conforms) (call : CursorCall) :
    (c.event call).after.Conforms := by
  obtain ⟨hpending, hcurrent⟩ := c.rows_of_event call
  refine ⟨fun row hrow => ?_, fun row hrow => ?_⟩ <;> rw [c.columns_of_event call]
  · exact h.pending row (hpending row hrow)
  · exact (hcurrent row hrow).elim (h.pending row) (h.current row)

theorem Conforms.run {c : Cursor} (h : c.Conforms) (calls : List CursorCall) :
    (c.run calls).Conforms :=
  run_invariant (fun _ call hc => hc.event call) calls h

theorem columns_of_run (c : Cursor) (calls : List CursorCall) :
    (c.run calls).columns = c.columns :=
  run_invariant (P := fun d => d.columns = c.columns)
    (fun d call hd => (d.columns_of_event call).trans hd) calls rfl

theorem Conforms.delivered {c : Cursor} (h : c.Conforms) (calls : List CursorCall) :
    ∀ row ∈ deliveredRows (c.trace calls), Row.Conforms c.columns row :=
  fun row hrow => h.pending row (mem_pending_of_mem_deliveredRows hrow)

def BoundByColumn (c : Cursor) : Prop :=
  ∀ x ∈ c.bindings.forms, ∃ column, Column.atOrdinal c.columns x.1 = .ok column ∧
    x.2.1 = column.type.target

theorem BoundByColumn.event {c : Cursor} (h : c.BoundByColumn) {call : CursorCall}
    (hcall : call.bindsByColumn = true) : (c.event call).after.BoundByColumn := by
  intro x hx
  rw [c.columns_of_event call]
  obtain hx | ⟨n, r, k, column, rfl, hcolumn, rfl, hform⟩ := c.forms_of_event call x hx
  · exact h x hx
  · obtain rfl : r = .byColumn := by simpa [CursorCall.bindsByColumn] using hcall
    exact ⟨column, column_eq_ok hcolumn, hform⟩

theorem Conforms.fetch_ok {c : Cursor} (h : c.Conforms) (hbound : c.BoundByColumn)
    (hopen : c.isClosed = false) : ∃ outcome, c.fetch.1 = .ok outcome := by
  cases hrows : c.pending with
  | nil =>
    obtain ⟨ended, hnext, -, -⟩ := next_of_pending_nil hopen hrows
    exact ⟨.noData, by rw [fetch_of_next_none hnext]⟩
  | cons row rows =>
    have hrow : Row.Conforms c.columns row := h.pending row (hrows ▸ List.mem_cons_self ..)
    -- each buffer asks for its cell in the form of the column that the cell conforms to
    have htakes : ∀ x ∈ c.bindings.forms, ∀ cell ∈ row[x.1 - 1]?,
        ∃ content, cell.content x.2.1 = .ok content := by
      intro x hx cell hcell
      obtain ⟨column, hcolumn, hform⟩ := hbound x hx
      rw [hform]
      exact Column.content_of_admits
        (hrow.admits (Column.atOrdinal_eq_ok.1 hcolumn).2 hcell)
    obtain ⟨ns, hns⟩ := Bindings.refresh_ok htakes
    refine ⟨.row ns, ?_⟩
    rw [fetch_of_pending_cons hrows]
    simp only [hns]
    rfl

theorem isClosed_of_currentRow? {c : Cursor} {row : Row} (h : c.currentRow? = some row) :
    c.isClosed = false := by
  unfold currentRow? current? at h
  cases hphase : c.phase with
  | active rows current => simp [isClosed, hphase]
  | exhausted | closed => simp [hphase] at h

theorem Conforms.getData_ok {c : Cursor} (h : c.Conforms) {row : Row} {n : Nat}
    (hrow : c.currentRow? = some row) (hfirst : 1 ≤ n) (hlast : n ≤ c.columns.length)
    (hunread : c.progress? n = none) (k : Nat) :
    ∃ p after, c.getData n .byColumn k = .ok (some p, after) := by
  have hconforms : Row.Conforms c.columns row := h.current row hrow
  obtain ⟨column, hordinal⟩ := Column.exists_atOrdinal_iff.2 ⟨hfirst, hlast⟩
  have hcolumn : c.column n = .ok column := by
    rw [column_eq, isClosed_of_currentRow? hrow]
    exact hordinal
  have hbound : n - 1 < row.length := by
    have := hconforms.length_eq
    omega
  have hcell : c.cellAt n = some row[n - 1] := by
    obtain ⟨m, rfl⟩ : ∃ m, n = m + 1 := ⟨n - 1, by omega⟩
    rw [cellAt, hrow]
    exact List.getElem?_eq_getElem hbound
  obtain ⟨content, hcontent⟩ := Column.content_of_admits
    (hconforms.admits (Column.atOrdinal_eq_ok.1 hordinal).2 (List.getElem?_eq_getElem hbound))
  have hread := Cell.read_zero_of_content hcontent k
  obtain ⟨after, hafter⟩ := getData_of_read (target?_of_column hcolumn .byColumn) hcell
    (by rw [hunread]; rfl) hread
  exact ⟨_, after, hafter⟩

theorem progress?_of_pieces_nil {c : Cursor} {n : Nat} {calls : List CursorCall}
    (hcalls : ∀ call ∈ calls, call.keepsRow = true) (h : pieces n (c.trace calls) = []) :
    (c.run calls).progress? n = c.progress? n := by
  induction calls generalizing c with
  | nil => rfl
  | cons call calls ih =>
    rw [List.forall_mem_cons] at hcalls
    rw [trace, pieces_cons, List.append_eq_nil_iff, Option.toList_eq_nil_iff] at h
    rw [run, ih hcalls.2 h.2, progress?_of_pieceOf_none hcalls.1 h.1]

/-- The queries for types, columns and tables open cursors whose rows, all that are delivered and the
current one, conform to their columns, after any calls. While every buffer has the form of its column
no fetch of an open cursor fails; and a column that gave no piece since the last call for rows gives
one in its own form, wherever there is a current row. -/
theorem answers_conform :
    (∀ (settings : Settings) (source : Source) (s : Statement) (q : Query) (opened : Cursor),
      (s.query settings source q).2.cursor? = some opened →
      q.Opens settings.limits source opened) ∧
    ∀ (limits : Limits) (source : Source) (q : Query) (opened : Cursor),
      q.Opens limits source opened → ∀ calls : List CursorCall,
      let c := opened.run calls
      c.columns = opened.columns ∧
      (∀ row ∈ deliveredRows (opened.trace calls), Row.Conforms opened.columns row) ∧
      (∀ row ∈ c.currentRow?, Row.Conforms opened.columns row) ∧
      ((∀ call ∈ calls, call.bindsByColumn = true) → c.isClosed = false →
        ∃ outcome, c.fetch.1 = .ok outcome) ∧
      ∀ (call : CursorCall) (later : List CursorCall) (n k : Nat), call.advances = true →
        (∀ x ∈ later, x.keepsRow = true) → pieces n ((c.event call).after.trace later) = [] →
        let d := (c.event call).after.run later
        d.currentRow?.isSome = true → 1 ≤ n → n ≤ opened.columns.length →
        ∃ p after, d.getData n .byColumn k = .ok (some p, after) := by
  refine ⟨fun settings source s q opened h => Query.opens_of_query h, ?_⟩
  intro limits source q opened hopened calls c
  obtain ⟨columns, rows, rfl, hrows⟩ := hopened.exists_rows
  have hconforms : (ofRows columns rows true).Conforms := ⟨hrows, fun row hrow => by cases hrow⟩
  have hcolumns : c.columns = columns := (ofRows columns rows true).columns_of_run calls
  refine ⟨hcolumns, hconforms.delivered calls, ?current, ?fetch, ?read⟩
  case current =>
    intro row hrow
    rw [← hcolumns]
    exact (hconforms.run calls).current row hrow
  case fetch =>
    intro hcalls hopen
    have hfresh : (ofRows columns rows true).BoundByColumn := fun x hx => by cases hx
    have hbound : c.BoundByColumn :=
      run_induction (fun _ _ hcall hd => hd.event hcall) calls hcalls hfresh
    exact (hconforms.run calls).fetch_ok hbound hopen
  case read =>
    intro call later n k hadvances hlater hpieces d hcurrent hfirst hlast
    obtain ⟨row, hrow⟩ := Option.isSome_iff_exists.1 hcurrent
    have hd : d.Conforms := ((hconforms.run calls).event call).run later
    -- the call for rows forgot what had been read, and no later one has read this column
    have hunread : d.progress? n = none := by
      rw [progress?_of_pieces_nil hlater hpieces, c.progress?_of_advances hadvances]
    refine hd.getData_ok hrow hfirst ?_ hunread k
    rwa [columns_of_run, columns_of_event, hcolumns]

theorem small_buffers_take_row :
    let source : Source := ⟨.ok [⟨"S", "T"⟩], fun _ => .ok [⟨"C", 30, {}, false⟩]⟩
    let found : Column := ⟨1, "C", ⟨"S", "T"⟩, .decimal, {}, 0⟩
    let opened := ofRows (Layout.columnList {}).columns [(Layout.columnList {}).row found] true
    let calls : List CursorCall := [.bind 4 .byColumn 0, .bind 7 .byColumn 0]
    Query.Opens {} source (.columns {}) opened ∧
    (∀ call ∈ calls, call.bindsByColumn = true) ∧ (opened.run calls).isClosed = false ∧
    (∃ outcome, (opened.run calls).fetch.1 = .ok outcome) ∧
    ∃ p after, ((opened.run calls).event .fetch).after.getData 7 .byColumn 0 = .ok (some p, after) := by
  intro source found opened calls
  have hopened : Query.Opens {} source (.columns {}) opened := ⟨[found], by decide +kernel, rfl⟩
  have hcalls : ∀ call ∈ calls, call.bindsByColumn = true := by decide
  have hopen : (opened.run calls).isClosed = false := by decide +kernel
  obtain ⟨-, -, -, hfetch, hread⟩ := answers_conform.2 {} source (.columns {}) opened hopened calls
  exact ⟨hopened, hcalls, hopen, hfetch hcalls hopen,
    hread .fetch [] 7 0 rfl (by simp) rfl (by decide +kernel) (by decide) (by decide)⟩

end Cursor
end CacheCatalog
