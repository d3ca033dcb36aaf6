import CacheCatalog.Proofs.Requests

/-! Failed calls leave no trace. A call that is refused leaves the result of its statement as it was,
a fetch apart that has gone to a row which a buffer could not take; so the requests after it are
answered as if it had not been made. They would be even if a failed reading marked its column as one of
which nothing has been read. -/
namespace CacheCatalog

def Error.isConversion : Error → Bool
  | outOfRange .. | notInteger _ => true
  | _ => false

def Action.searches : Action → Bool
  | query (.types _) => false
  | query _ => true
  | call _ => false

/-! Refused calls -/

theorem Cell.Unfit.isConversion {cell : Cell} {t : Target} {e : Error} (h : cell.Unfit t e) :
    e.isConversion = true := by
  cases h <;> rfl

theorem Bindings.isConversion_of_refresh {row : Row} {bs : Bindings} {e : Error}
    (h : (bs.refresh row).1 = .error e) : e.isConversion = true := by
  obtain ⟨e', ⟨_, _, -, ⟨cell, -, hunfit⟩, -⟩, herror⟩ | ⟨-, ns, hns⟩ := bs.refresh_cases row
  · obtain rfl := Except.error.inj (herror.symm.trans h)
    exact hunfit.isConversion
  · rw [hns] at h
    cases h

theorem Cursor.fetch_of_error {c : Cursor} {e : Error} (h : c.fetch.1 = .error e) :
    c.fetch.2 = c ∨ e.isConversion = true := by
  obtain ⟨_, hfetch⟩ | ⟨_, hfetch⟩ | ⟨row, rows, -, hfetch⟩ := c.fetch_cases
  · rw [hfetch]
    exact .inl rfl
  · rw [hfetch] at h
    cases h
  -- once it has gone to a row, only a cell can fail a fetch
  · right
    rw [hfetch] at h
    cases hrefresh : (c.bindings.refresh row).1 with
    | error e' =>
      rw [hrefresh] at h
      obtain rfl := Except.error.inj h
      exact Bindings.isConversion_of_refresh hrefresh
    | ok ns =>
      rw [hrefresh] at h
      cases h

theorem ResultSet.answer_of_error {limits : Limits} {r : ResultSet} {call : Call} {e : Error}
    (h : (r.answer limits call).1 = .error (.refused e))
    (hfetch : call = .fetch → e.isConversion = false) : (r.answer limits call).2 = r := by
  cases call with
  | columnCount | describeColumn | columnAttribute | attributeText => rfl
  | moreResults | closeCursor | unbind | close => cases h
  | takeCursor => cases r <;> cases h
  | bind n target k =>
    change (r.bind n target k).1 = _ at h
    change (r.bind n target k).2 = r
    obtain ⟨_, hbind⟩ | ⟨c, request, bound, -, -, hbind⟩ := r.bind_cases n target k
    · rw [hbind]
    · rw [hbind] at h
      cases h
  | getData n target k =>
    change (r.getData n target k).1 = _ at h
    change (r.getData n target k).2 = r
    obtain ⟨_, hread⟩ | ⟨_, _, _, _, -, -, -, ⟨-, hread⟩ | ⟨_, -, hread⟩⟩ :=
      r.getData_cases n target k
    · rw [hread]
    · rw [hread] at h
      cases h
    · rw [hread] at h
      cases h
  | fetch =>
    change r.fetch.1 = _ at h
    change r.fetch.2 = r
    obtain ⟨_, hanswer⟩ | ⟨c, hc, hafter, ⟨e', herror, hanswer⟩ | ⟨-, hanswer⟩ | ⟨_, -, hanswer⟩⟩ :=
      r.fetch_cases
    · rw [hanswer]
    · rw [hanswer] at h
      obtain rfl := Fault.refused.inj (Except.error.inj h)
      obtain hstay | hconversion := Cursor.fetch_of_error herror
      · rw [hafter, hstay, hc]
      · rw [hfetch rfl] at hconversion
        cases hconversion
    · rw [hanswer] at h
      cases h
    · rw [hanswer] at h
      cases h

theorem Statement.perform_of_error {settings : Settings} {s : Statement} {request : Request}
    {e : Error} (h : (s.perform settings request).1 = .error (.refused e))
    (hsearch : request.action.searches = false)
    (hfetch : request.action = .call .fetch → e.isConversion = false) :
    (s.perform settings request).2.result = s.result := by
  cases haction : request.action with
  | query q =>
    rw [haction] at hsearch
    rw [perform_query haction] at h
    cases q with
    | types code => cases h
    | columns | tables | describe => cases hsearch
  | call c =>
    rw [perform_call haction] at h ⊢
    exact ResultSet.answer_of_error h fun hc => hfetch (by rw [haction, hc])

/-! Marks of nothing read -/

/-- Two cursors that are one but for marks of columns of which nothing has been read. -/
inductive Cursor.Alike : Cursor → Cursor → Prop
  | same (c : Cursor) : Alike c c
  | marks (columns : List Column) (position : Nat) (total : Option Nat) (rows : List Row) (row : Row)
      (bindings : Bindings) (reads reads' : Keyed Nat Progress)
      (h : ∀ n, (reads'.get? n).getD (.consumed 0) = (reads.get? n).getD (.consumed 0)) :
    Alike ⟨columns, position, total, .active rows (some ⟨row, reads⟩), bindings⟩
      ⟨columns, position, total, .active rows (some ⟨row, reads'⟩), bindings⟩

inductive ResultSet.Alike : ResultSet → ResultSet → Prop
  | same (r : ResultSet) : Alike r r
  | rows {c d : Cursor} (h : c.Alike d) : Alike (.rows c) (.rows d)

inductive Outcome.Alike : Outcome → Outcome → Prop
  | same (outcome : Outcome) : Alike outcome outcome
  | cursor {c d : Cursor} (h : c.Alike d) :
    Alike (.ok (.cursor (some c))) (.ok (.cursor (some d)))

structure Observed.Alike (x y : Outcome × Statement) : Prop where
  outcome : Outcome.Alike x.1 y.1
  diagnostics : y.2.diagnostics = x.2.diagnostics
  result : x.2.result.Alike y.2.result

namespace Cursor

theorem Alike.columns {c d : Cursor} (h : c.Alike d) : d.columns = c.columns := by
  cases h <;> rfl

theorem Alike.isClosed {c d : Cursor} (h : c.Alike d) : d.isClosed = c.isClosed := by
  cases h <;> rfl

theorem Alike.close {c d : Cursor} (h : c.Alike d) : d.close = c.close := by
  cases h <;> rfl

theorem Alike.fetch {c d : Cursor} (h : c.Alike d) : d.fetch = c.fetch := by
  cases h with
  | same => rfl
  | marks columns position total rows => cases rows <;> rfl

theorem Alike.unbindAll {c d : Cursor} (h : c.Alike d) : c.unbindAll.Alike d.unbindAll := by
  cases h with
  | same => exact .same _
  | marks _ _ _ _ _ _ reads reads' hmarks => exact .marks _ _ _ _ _ _ reads reads' hmarks

theorem Alike.bind {c d : Cursor} (h : c.Alike d) (n k : Nat) (r : TargetRequest) :
    (∃ e, c.bind n r k = .error e ∧ d.bind n r k = .error e) ∨
    ∃ c' d', c.bind n r k = .ok c' ∧ d.bind n r k = .ok d' ∧ c'.Alike d' := by
  have hcolumn : d.column n = c.column n := by rw [column_eq, column_eq, h.columns, h.isClosed]
  unfold Cursor.bind
  rw [hcolumn]
  cases c.column n with
  | error e => exact .inl ⟨e, rfl, rfl⟩
  | ok column =>
    refine .inr ⟨_, _, rfl, rfl, ?_⟩
    cases h with
    | same => exact .same _
    | marks _ _ _ _ _ _ reads reads' hmarks => exact .marks _ _ _ _ _ _ reads reads' hmarks

theorem Alike.getData {c d : Cursor} (h : c.Alike d) (n k : Nat) (r : TargetRequest) :
    (∃ fault, c.getData n r k = .error fault ∧ d.getData n r k = .error fault) ∨
    ∃ piece c' d', c.getData n r k = .ok (piece, c') ∧ d.getData n r k = .ok (piece, d') ∧
      c'.Alike d' := by
  have hcolumn : d.column n = c.column n := by rw [column_eq, column_eq, h.columns, h.isClosed]
  cases h with
  | same =>
    cases hread : c.getData n r k with
    | error fault => exact .inl ⟨fault, rfl, rfl⟩
    | ok answer => exact .inr ⟨answer.1, answer.2, answer.2, rfl, rfl, .same _⟩
  | marks columns position total rows row bindings reads reads' hmarks =>
    unfold Cursor.getData
    rw [hcolumn]
    split
    · next e _ => exact .inl ⟨.refused e, rfl, rfl⟩
    next column _ =>
      dsimp only
      split
      · exact .inl ⟨_, rfl, rfl⟩
      next cell _ =>
        rw [hmarks n]
        cases (reads.get? n).getD (.consumed 0) with
        | finished => exact .inr ⟨none, _, _, rfl, rfl, .marks _ _ _ _ _ _ reads reads' hmarks⟩
        | consumed offset =>
          dsimp only
          cases cell.read (r.resolve column.type) k offset with
          | error fault => exact .inl ⟨fault, rfl, rfl⟩
          | ok piece =>
            refine .inr ⟨some piece, _, _, rfl, rfl, .marks _ _ _ _ _ _ _ _ fun m => ?_⟩
            -- both records get the mark of this column, and agree on the others already
            rw [Keyed.get?_insert, Keyed.get?_insert]
            split
            · rfl
            · exact hmarks m

end Cursor

theorem ResultSet.Alike.columns {r r' : ResultSet} (h : r.Alike r') : r'.columns = r.columns := by
  cases h with
  | same => rfl
  | rows h =>
    unfold ResultSet.columns
    dsimp only
    rw [h.isClosed, h.columns]

theorem Outcome.Alike.diagnostics {x y : Outcome} (h : Outcome.Alike x y) :
    y.diagnostics = x.diagnostics := by
  cases h <;> rfl

theorem ResultSet.Alike.answer {r r' : ResultSet} (h : r.Alike r') (limits : Limits) (call : Call) :
    Outcome.Alike (r.answer limits call).1 (r'.answer limits call).1 ∧
      (r.answer limits call).2.Alike (r'.answer limits call).2 := by
  have hcolumns := h.columns
  cases h with
  | same => exact ⟨.same _, .same _⟩
  | @rows c d h =>
  -- questions about columns see nothing of the marks; of all calls only a reading asks for them
  cases call with
  | columnCount =>
    refine ⟨?_, .rows h⟩
    simp only [ResultSet.answer, ResultSet.count, hcolumns]
    exact .same _
  | describeColumn n =>
    refine ⟨?_, .rows h⟩
    simp only [ResultSet.answer, ResultSet.describeColumn, hcolumns]
    exact .same _
  | columnAttribute n field =>
    refine ⟨?_, .rows h⟩
    simp only [ResultSet.answer, ResultSet.attributeValue, hcolumns]
    exact .same _
  | attributeText n field k =>
    refine ⟨?_, .rows h⟩
    simp only [ResultSet.answer, ResultSet.attributeText, ResultSet.attributeValue, hcolumns]
    exact .same _
  | moreResults | closeCursor =>
    refine ⟨.same _, ?_⟩
    simp only [ResultSet.answer, ResultSet.mapCursor, h.close]
    exact .same _
  | unbind => exact ⟨.same _, .rows h.unbindAll⟩
  | close => exact ⟨.same _, .same _⟩
  | takeCursor => exact ⟨.cursor h, .same _⟩
  | fetch =>
    simp only [ResultSet.answer, ResultSet.fetch, ResultSet.cursor, ResultSet.cursor?, h.fetch]
    exact ⟨.same _, .same _⟩
  | bind n target k =>
    simp only [ResultSet.answer, ResultSet.bind]
    cases TargetRequest.ofCode target with
    | error e => exact ⟨.same _, .rows h⟩
    | ok request =>
      simp only [Bind.bind, Except.bind, ResultSet.cursor, ResultSet.cursor?]
      obtain ⟨e, hc, hd⟩ | ⟨c', d', hc, hd, hbound⟩ := h.bind n k request
      · rw [hc, hd]
        exact ⟨.same _, .rows h⟩
      · rw [hc, hd]
        exact ⟨.same _, .rows hbound⟩
  | getData n target k =>
    simp only [ResultSet.answer, ResultSet.getData]
    cases TargetRequest.ofCode target with
    | error e => exact ⟨.same _, .rows h⟩
    | ok request =>
      simp only [Bind.bind, Except.bind, ResultSet.cursor, ResultSet.cursor?]
      obtain ⟨fault, hc, hd⟩ | ⟨piece, c', d', hc, hd, hafter⟩ := h.getData n k request
      · simp only [pure, Except.pure, hc, hd]
        exact ⟨.same _, .rows h⟩
      · simp only [pure, Except.pure, hc, hd]
        cases piece with
        | none => exact ⟨.same _, .rows hafter⟩
        | some p => exact ⟨.same _, .rows hafter⟩

namespace Statement

theorem perform_alike {s t : Statement} (h : s.result.Alike t.result) (settings : Settings)
    (request : Request) :
    Observed.Alike (s.perform settings request) (t.perform settings request) := by
  cases haction : request.action with
  | query q =>
    rw [perform_query haction, perform_query haction,
      query_eq_query settings request.source q t s]
    exact ⟨.same _, rfl, .same _⟩
  | call c =>
    rw [perform_call haction, perform_call haction]
    obtain ⟨houtcome, hresult⟩ := h.answer settings.limits c
    exact ⟨houtcome, houtcome.diagnostics, hresult⟩

theorem trace_alike {s t : Statement} (h : s.result.Alike t.result) (settings : Settings)
    (requests : List Request) :
    List.Forall₂ Observed.Alike (s.trace settings requests) (t.trace settings requests) := by
  induction requests generalizing s t with
  | nil => exact .nil
  | cons request requests ih =>
    have hfirst := perform_alike h settings request
    exact .cons hfirst (ih hfirst.result)

/-- A request that was refused, and that is no search and no fetch that failed at a cell, leaves the
result as it was, so that no reading is lost or begun again; without it every later request is answered
alike and leaves the same statement. The later answers do not depend either on marks of columns of which
nothing has been read, if a refused reading had left any. -/
theorem failed_calls_leave_no_trace (settings : Settings) (start : Statement)
    (before later : List Request) (failing : Request) (e : Error)
    (hfailed : ((start.run settings before).perform settings failing).1 = .error (.refused e))
    (hsearch : failing.action.searches = false)
    (hfetch : failing.action = .call .fetch → e.isConversion = false) :
    let s := start.run settings before
    let failed := s.perform settings failing
    failed.2.result = s.result ∧
    (∃ events, start.trace settings (before ++ later) = start.trace settings before ++ events ∧
      start.trace settings (before ++ failing :: later) =
        start.trace settings before ++ failed :: events) ∧
    ∀ t : Statement, failed.2.result.Alike t.result →
      List.Forall₂ Observed.Alike (s.trace settings later) (t.trace settings later) := by
  intro s failed
  have hresult : failed.2.result = s.result := perform_of_error hfailed hsearch hfetch
  refine ⟨hresult, ⟨s.trace settings later, trace_append .., ?_⟩, fun t hmarks => ?_⟩
  · rw [trace_append, trace]
    congr 2
    exact trace_of_result_eq hresult later
  · rw [hresult] at hmarks
    exact trace_alike hmarks settings later

theorem failed_reading_leaves_no_trace :
    let source : Source := ⟨.ok [⟨"S", "TAB"⟩], fun _ => .ok []⟩
    let before : List Request := [⟨source, .query (.tables {})⟩, ⟨source, .call .fetch⟩,
      ⟨source, .call (.getData 3 1 3)⟩]
    let failing : Request := ⟨source, .call (.getData 3 (-16) 8)⟩
    let later : List Request := [⟨source, .call (.getData 3 1 3)⟩]
    let s := ({} : Statement).run {} before
    (s.perform {} failing).1 = .error (.refused (.notInteger "TAB")) ∧
    failing.action.searches = false ∧
    (failing.action = .call .fetch → (Error.notInteger "TAB").isConversion = false) ∧
    (s.perform {} failing).2.result = s.result ∧
    (s.trace {} later).map Prod.fst = [.ok (.piece 3 ⟨[66, 0], 1, false, 1⟩)] := by
  intro source before failing later s
  have hfailed : (s.perform {} failing).1 = .error (.refused (.notInteger "TAB")) := by
    decide +kernel
  have hfetch : failing.action = .call .fetch → (Error.notInteger "TAB").isConversion = false :=
    fun h => (by cases h)
  obtain ⟨hresult, -, -⟩ := failed_calls_leave_no_trace {} {} before later failing _ hfailed rfl hfetch
  exact ⟨hfailed, rfl, hfetch, hresult, by decide +kernel⟩

end Statement
end CacheCatalog
