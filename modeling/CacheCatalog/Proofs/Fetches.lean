import CacheCatalog.Proofs.Answers
import CacheCatalog.Proofs.Refreshment
import CacheCatalog.Proofs.Refusals

/-! What a fetch does to a cursor with bound buffers. It goes to the next row, which can be read from
there on, and refreshes the buffers as far as the row comes; a cell that does not convert fails the fetch
but keeps nothing of this from being done. -/
namespace CacheCatalog

namespace Cursor
variable {c : Cursor} {row : Row} {rows : List Row}

theorem getData_of_unread {n : Nat} {column : Column} {cell : Cell}
    (hphase : c.phase = .active rows (some ⟨row, Keyed.empty⟩)) (hcolumn : c.column n = .ok column)
    (hcell : row[n - 1]? = some cell) (r : TargetRequest) (k : Nat) :
    (∀ p, cell.read (r.resolve column.type) k 0 = .ok p → ∃ after, c.getData n r k = .ok (some p, after)) ∧
      ∀ fault, cell.read (r.resolve column.type) k 0 = .error fault → c.getData n r k = .error fault := by
  have htarget := target?_of_column hcolumn r
  have hcellAt : c.cellAt n = some cell := by rw [cellAt_of_column hcolumn hphase, hcell]
  have hprogress : (c.progress? n).getD (.consumed 0) = .consumed 0 := by
    simp only [progress?, current?, hphase]
    rfl
  exact ⟨fun p => getData_of_read htarget hcellAt hprogress,
    fun fault => getData_of_read_error htarget hcellAt hprogress⟩

/-- Every cursor keeps its buffers to its columns. A fetch of one with a row to come goes to that row
and forgets what has been read of the row before. It refreshes the buffers before the least column
whose cell does not convert, if there is one, and fails with what that conversion fails with; otherwise
it refreshes all that the row has cells for and tells which of them it truncated. In either case the
row can be read, and the next fetch goes on behind it. -/
theorem fetch_refreshes_buffers :
    (∀ columns rows bounds calls, ((ofBounded columns rows bounds).run calls).BoundInRange) ∧
    ∀ c : Cursor, c.BoundInRange → ∀ (row : Row) (rows : List Row), c.pending = row :: rows →
      let after := c.fetch.2
      after.columns = c.columns ∧ after.position = c.position + 1 ∧ after.currentRow? = some row ∧
      (∀ n, after.progress? n = none) ∧
      ((∃ k e, c.bindings.StopsAt row k e ∧ c.fetch.1 = .error e ∧
          Bindings.Refreshed row (· < k) c.bindings after.bindings) ∨
        (∀ k e, ¬ c.bindings.StopsAt row k e) ∧ ∃ ns, c.fetch.1 = .ok (.row ns) ∧
          Bindings.Refreshed row (fun _ => True) c.bindings after.bindings ∧ ns.Pairwise (· < ·) ∧
          ∀ n, n ∈ ns ↔
            n ≤ row.length ∧ ∃ b, after.bindings.get? n = some b ∧ b.truncated = true) ∧
      (∀ n r k column cell, c.column n = .ok column → row[n - 1]? = some cell →
        (∀ p, cell.read (r.resolve column.type) k 0 = .ok p →
          ∃ later, after.getData n r k = .ok (some p, later)) ∧
        ∀ fault, cell.read (r.resolve column.type) k 0 = .error fault →
          after.getData n r k = .error fault) ∧
      (∀ next left, rows = next :: left →
        after.fetch.2.currentRow? = some next ∧ after.fetch.2.position = c.position + 2) ∧
      (rows = [] → after.fetch.1 = .ok .noData) := by
  refine ⟨fun columns rows bounds calls => ((sound_ofBounded columns rows bounds).run calls).bound, ?_⟩
  intro c hbound row rows hrows after
  have hfetch := fetch_of_pending_cons hrows
  have hoffers : after.pending = rows := by
    show c.fetch.2.pending = rows
    rw [hfetch]
    rfl
  have hopen : after.isClosed = false := by
    show c.fetch.2.isClosed = false
    rw [hfetch]
    rfl
  refine ⟨?columns, ?position, ?current, fun n => ?progress, ?buffers, fun n r k column cell => ?read,
    fun next left hnext => ⟨?next, ?count⟩, fun hnone => ?ended⟩
  case columns | position => simp only [after, hfetch]
  case current | progress =>
    simp only [after, hfetch, currentRow?, current?, progress?]
    rfl
  case buffers =>
    obtain ⟨k, e, hstops, houtcome, hrefreshed⟩ | ⟨hnowhere, ns, houtcome, hrefreshed, hns⟩ :=
      Bindings.refresh_spec (fun n hn => (hbound n hn).1) row
    · refine .inl ⟨k, e, hstops, ?_, ?_⟩ <;> simp only [after, hfetch, houtcome]
      · rfl
      · exact hrefreshed
    · refine .inr ⟨hnowhere, ns, ?_, ?_, ?_⟩ <;> simp only [after, hfetch, houtcome]
      · rfl
      · exact hrefreshed
      · exact hns
  case read =>
    intro hcolumn hcell
    -- a fetch changes neither the columns nor that the cursor is open
    have hphase : after.phase = .active rows (some ⟨row, Keyed.empty⟩) := by simp only [after, hfetch]
    have hcolumn' : after.column n = .ok column := by
      rw [column_eq, hopen, if_neg Bool.false_ne_true]
      simpa only [after, hfetch] using column_eq_ok hcolumn
    exact getData_of_unread hphase hcolumn' hcell r k
  case next =>
    rw [currentRow?_of_fetch hopen, hoffers, hnext]
    rfl
  case count =>
    rw [fetch_of_pending_cons (hoffers.trans hnext)]
    simp only [after, hfetch]
  case ended => exact fetch_of_pending_nil hopen (hoffers.trans hnone)

theorem fetch_stops_between_buffers :
    let columns : List Column := [⟨1, "A", ⟨"", ""⟩, .string, {}, 1⟩, ⟨2, "B", ⟨"", ""⟩, .int, {}, 1⟩,
      ⟨3, "C", ⟨"", ""⟩, .string, {}, 1⟩]
    let row : Row := [.text "abc", .text "x", .text "z"]
    let c := (ofBounded columns [row, []] ⟨0, none⟩).run
      [.bind 1 .byColumn 3, .bind 2 .byColumn 0, .bind 3 .byColumn 9]
    c.BoundInRange ∧ c.pending = [row, []] ∧ c.fetch.2.position = 1 ∧
    (∃ k, c.bindings.StopsAt row k (.notInteger "x") ∧
      Bindings.Refreshed row (· < k) c.bindings c.fetch.2.bindings) ∧
    (c.fetch.2.bindings.get? 1).map Binding.text? = some (some "ab") ∧
    c.fetch.2.fetch.2.currentRow? = some [] := by
  intro columns row c
  have hbound : c.BoundInRange := fetch_refreshes_buffers.1 columns [row, []] ⟨0, none⟩ _
  have hrows : c.pending = [row, []] := by decide +kernel
  have herror : c.fetch.1 = .error (.notInteger "x") := by decide +kernel
  obtain ⟨-, hposition, -, -, hbuffers, -, hnext, -⟩ := fetch_refreshes_buffers.2 c hbound row [[]] hrows
  refine ⟨hbound, hrows, hposition, ?_, by decide +kernel, (hnext [] [] rfl).1⟩
  obtain ⟨k, e, hstops, houtcome, hrefreshed⟩ | ⟨-, ns, houtcome, -⟩ := hbuffers
  · obtain rfl := Except.error.inj (herror.symm.trans houtcome)
    exact ⟨k, hstops, hrefreshed⟩
  · cases herror.symm.trans houtcome

end Cursor
end CacheCatalog
