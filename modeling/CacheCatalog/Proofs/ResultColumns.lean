import CacheCatalog.Proofs.Numbering
import CacheCatalog.Proofs.Reports

/-! The columns that a statement can be asked about. They are those of its cursor or of its projection,
never of both, and they are numbered whatever has been asked of it; so they can always be counted, and a
column is found under its own number and under no other. -/
namespace CacheCatalog

open Column (Numbered)

theorem Column.Numbered.atOrdinal_eq_ok_iff {columns : List Column} (h : Numbered columns) {n : Nat}
    {c : Column} : Column.atOrdinal columns n = .ok c ↔ c ∈ columns ∧ c.ordinal = n := by
  rw [Column.atOrdinal_eq_ok]
  constructor
  · rintro ⟨hn, hc⟩
    have hordinal := h.ordinal _ c hc
    exact ⟨List.mem_of_getElem? hc, by omega⟩
  · rintro ⟨hc, rfl⟩
    obtain ⟨i, hi⟩ := List.mem_iff_getElem?.1 hc
    rw [h.ordinal i c hi]
    exact ⟨Nat.le_add_left 1 i, hi⟩

namespace ResultSet

def projection? : ResultSet → Option (List Column)
  | projection columns => some columns
  | _ => Option.none

/-- The columns that are there, if only behind a closed cursor. -/
def held : ResultSet → List Column
  | rows c => c.columns
  | projection columns => columns
  | none => []

theorem cursor?_or_projection?_eq_none (r : ResultSet) :
    r.cursor? = Option.none ∨ r.projection? = Option.none := by
  cases r with
  | none | projection => exact .inl rfl
  | rows c => exact .inr rfl

theorem held_of_projection? {r : ResultSet} {columns : List Column}
    (h : r.projection? = some columns) : r.held = columns := by
  cases r with
  | none | rows => cases h
  | projection => exact Option.some.inj h

theorem held_of_answer (limits : Limits) (r : ResultSet) (call : Call) :
    (r.answer limits call).2.held = [] ∨ (r.answer limits call).2.held = r.held := by
  cases hr : r.cursor? with
  | none =>
    obtain hafter | hafter := answer_of_cursor?_eq_none hr limits call
    · exact .inl (congrArg held hafter)
    · exact .inr (congrArg held hafter)
  | some c =>
    obtain rfl := eq_rows_of_cursor? hr
    obtain hafter | hafter := answer_rows limits c call
    · exact .inl (congrArg held hafter)
    · exact .inr ((congrArg held hafter).trans (c.columns_of_run call.onCursor))

theorem numbered_of_query {settings : Settings} {source : Source} {q : Query} {r : ResultSet}
    (h : q.answer settings source = .ok r) : Numbered r.held := by
  cases q with
  | types code =>
    obtain rfl := Except.ok.inj h
    exact Layout.numbered_columns (show 19 ≤ maxColumns by decide)
  | columns search =>
    obtain ⟨found, -, rfl⟩ := map_eq_ok.1 h
    exact Layout.numbered_columns (show 18 ≤ maxColumns by decide)
  | tables search =>
    obtain ⟨found, -, rfl⟩ := map_eq_ok.1 h
    exact Layout.numbered_columns (by decide)
  | describe table names =>
    obtain ⟨columns, hcolumns, rfl⟩ := map_eq_ok.1 h
    exact Projection.numbered_columns hcolumns

theorem columns_cases (r : ResultSet) :
    (r.columns = .ok r.held ∧ (r.projection? = some r.held ∨
      ∃ c, r.cursor? = some c ∧ c.isClosed = false ∧ r.held = c.columns)) ∨
    (r.columns = .error .noResultSet ∧ r.projection? = Option.none ∧
      ∀ c, r.cursor? = some c → c.isClosed = true) := by
  cases r with
  | none => exact .inr ⟨rfl, rfl, fun c hc => by cases hc⟩
  | projection columns => exact .inl ⟨rfl, .inl rfl⟩
  | rows c =>
    cases hclosed : c.isClosed with
    | true =>
      refine .inr ⟨by simp [columns, hclosed], rfl, fun d hd => ?_⟩
      obtain rfl := Option.some.inj hd
      exact hclosed
    | false => exact .inl ⟨by simp [columns, hclosed, held], .inr ⟨c, rfl, hclosed, rfl⟩⟩

end ResultSet

namespace Statement

def projection? (s : Statement) : Option (List Column) := s.result.projection?

theorem numbered_of_run (settings : Settings) (requests : List Request) :
    Numbered (({} : Statement).run settings requests).result.held := by
  refine run_invariant (P := fun s => Numbered s.result.held) (fun s request hs => ?_) requests .nil
  cases haction : request.action with
  | query q =>
    rw [perform_query haction]
    cases hanswer : q.answer settings request.source with
    | ok result =>
      rw [query_of_ok hanswer]
      exact ResultSet.numbered_of_query hanswer
    | error e =>
      rw [query_of_error hanswer]
      exact .nil
  | call c =>
    rw [perform_call haction]
    show Numbered (s.result.answer settings.limits c).2.held
    obtain hheld | hheld := ResultSet.held_of_answer settings.limits s.result c <;> rw [hheld]
    · exact .nil
    · exact hs

structure Shows (settings : Settings) (s : Statement) (columns : List Column) : Prop where
  numbered : Numbered columns
  held : s.projection? = some columns ∨
    ∃ c, s.cursor? = some c ∧ c.isClosed = false ∧ columns = c.columns
  count : ∀ n, (s.call settings (.columnAttribute n 1001)).1 = .ok (.value (.int columns.length))
  range : ∀ n, (∃ c, Column.atOrdinal columns n = .ok c) ↔ 1 ≤ n ∧ n ≤ columns.length
  found : ∀ n c, Column.atOrdinal columns n = .ok c ↔ c ∈ columns ∧ c.ordinal = n
  described : ∀ n, (∃ d, (s.call settings (.describeColumn n)).1 = .ok (.description d)) ↔
    1 ≤ n ∧ n ≤ columns.length

section Shown
variable {settings : Settings} {s : Statement} {columns : List Column}

theorem attribute_count (h : s.result.columns = .ok columns) (n : Nat) :
    (s.call settings (.columnAttribute n 1001)).1 = .ok (.value (.int columns.length)) := by
  have hvalue : s.result.attributeValue settings.limits n 1001 = .ok (.int columns.length) := by
    unfold ResultSet.attributeValue
    rw [h]
    rfl
  show Outcome.ofExcept ((s.result.attributeValue settings.limits n 1001).map .value) = _
  rw [hvalue]
  rfl

theorem exists_description_iff (h : s.result.columns = .ok columns) (n : Nat) :
    (∃ d, (s.call settings (.describeColumn n)).1 = .ok (.description d)) ↔
      1 ≤ n ∧ n ≤ columns.length := by
  rw [← Column.exists_atOrdinal_iff]
  show (∃ d, Outcome.ofExcept (s.result.describeColumn settings.limits n) = _) ↔ _
  unfold ResultSet.describeColumn
  rw [h]
  simp only [Bind.bind, Except.bind]
  cases Column.atOrdinal columns n with
  | error e => exact ⟨fun ⟨d, hd⟩ => (by cases hd), fun ⟨c, hc⟩ => (by cases hc)⟩
  | ok c => exact ⟨fun _ => ⟨c, rfl⟩, fun _ => ⟨_, rfl⟩⟩

theorem count_cases (settings : Settings) (h : Numbered s.result.held) :
    ((s.call settings .columnCount).1 = .ok (.count s.result.held.length) ∧
      s.Shows settings s.result.held) ∨
    ((s.call settings .columnCount).1 = .error (.refused .noResultSet) ∧ s.projection? = none ∧
      ∀ c, s.cursor? = some c → c.isClosed = true) := by
  show (Outcome.ofExcept s.result.count = _ ∧ _) ∨ (Outcome.ofExcept s.result.count = _ ∧ _)
  obtain ⟨hcolumns, hheld⟩ | ⟨hcolumns, hnone⟩ := s.result.columns_cases
  · refine .inl ⟨?_, h, hheld, attribute_count hcolumns, fun n => Column.exists_atOrdinal_iff,
      fun n c => h.atOrdinal_eq_ok_iff, exists_description_iff hcolumns⟩
    unfold ResultSet.count
    rw [hcolumns]
    show Outcome.ofExcept (if _ then _ else _) = _
    rw [if_pos h.length_le]
    rfl
  · refine .inr ⟨?_, hnone⟩
    unfold ResultSet.count
    rw [hcolumns]
    rfl

theorem count_of_cursor_gone {c : Cursor} (hc : s.cursor? = some c) {call : Call}
    (hcall : call ∈ [Call.moreResults, .closeCursor, .takeCursor]) :
    ((s.call settings call).2.call settings .columnCount).1 = .error (.refused .noResultSet) := by
  have hresult : s.result = .rows c := ResultSet.eq_rows_of_cursor? hc
  simp only [List.mem_cons, List.not_mem_nil, or_false] at hcall
  unfold Statement.call
  rw [hresult]
  obtain rfl | rfl | rfl := hcall <;> rfl

end Shown

/-- After any requests: there is a cursor or a projection or neither, and its columns are numbered; no
projection shows up where the cursor has gone. The columns can be counted unless there is no projection
and no cursor that is not closed, which is what the refusal says; and where they are counted, each
number tells of as many columns, and a column is found under its own. -/
theorem result_columns_numbered (settings : Settings) (requests : List Request) :
    let s := ({} : Statement).run settings requests
    (s.cursor? = none ∨ s.projection? = none) ∧
    (∀ c, s.cursor? = some c → Numbered c.columns) ∧
    (∀ columns, s.projection? = some columns → Numbered columns) ∧
    (∀ c, s.cursor? = some c → ∀ call ∈ [Call.moreResults, .closeCursor, .takeCursor],
      ((s.call settings call).2.call settings .columnCount).1 = .error (.refused .noResultSet)) ∧
    (∀ fault, (s.call settings .columnCount).1 = .error fault ↔ fault = .refused .noResultSet ∧
      s.projection? = none ∧ ∀ c, s.cursor? = some c → c.isClosed = true) ∧
    ∀ reply, (s.call settings .columnCount).1 = .ok reply →
      ∃ columns, reply = .count columns.length ∧ s.Shows settings columns := by
  intro s
  have hnumbered : Numbered s.result.held := numbered_of_run settings requests
  have hcases := count_cases settings hnumbered
  refine ⟨s.result.cursor?_or_projection?_eq_none, ?cursor, ?projection,
    fun c hc call => count_of_cursor_gone hc, ?refused, ?counted⟩
  case cursor =>
    intro c hc
    rwa [ResultSet.eq_rows_of_cursor? hc] at hnumbered
  case projection =>
    intro columns hcolumns
    rwa [ResultSet.held_of_projection? hcolumns] at hnumbered
  case refused =>
    intro fault
    obtain ⟨hcount, hshows⟩ | ⟨hcount, hnone⟩ := hcases
    · rw [hcount]
      refine ⟨fun h => (by cases h), fun ⟨_, hprojection, hclosed⟩ => ?_⟩
      -- the columns that are counted are held by what the refusal says is not there
      obtain hheld | ⟨c, hc, hopen, -⟩ := hshows.held
      · rw [hprojection] at hheld
        cases hheld
      · rw [hclosed c hc] at hopen
        cases hopen
    · rw [hcount]
      exact ⟨fun h => ⟨(Except.error.inj h).symm, hnone⟩, fun h => congrArg Except.error h.1.symm⟩
  case counted =>
    intro reply hreply
    obtain ⟨hcount, hshows⟩ | ⟨hcount, -⟩ := hcases
    · rw [hcount] at hreply
      exact ⟨_, (Except.ok.inj hreply).symm, hshows⟩
    · rw [hcount] at hreply
      cases hreply

theorem repeated_columns_numbered :
    let source : Source := ⟨.ok [], fun _ => .ok [⟨"A", 9, {}, true⟩, ⟨"B", 3, {}, false⟩]⟩
    let requests : List Request := [⟨source, .query (.describe "T" ["A", "B", "b"])⟩]
    let s := ({} : Statement).run {} requests
    (s.call {} .columnCount).1 = .ok (.count 3) ∧
    ∃ columns, columns.length = 3 ∧ s.Shows {} columns ∧
      (columns[1]?.map Column.name, columns[2]?.map Column.name) = (some "B", some "B") := by
  intro source requests s
  have hcount : (s.call {} .columnCount).1 = .ok (.count 3) := by decide +kernel
  obtain ⟨-, -, -, -, -, hcounted⟩ := result_columns_numbered {} requests
  obtain ⟨columns, hlength, hshows⟩ := hcounted _ hcount
  have hheld : s.projection? = some columns := by
    refine hshows.held.resolve_right ?_
    rintro ⟨c, hc, -, -⟩
    have hnone : s.cursor? = none := by decide +kernel
    rw [hnone] at hc
    cases hc
  have hnames : s.projection?.map (fun cs => (cs[1]?.map Column.name, cs[2]?.map Column.name)) =
      some (some "B", some "B") := by decide +kernel
  rw [hheld] at hnames
  exact ⟨hcount, columns, (Reply.count.inj hlength).symm, hshows, Option.some.inj hnames⟩

end Statement
end CacheCatalog
