import CacheCatalog.Proofs.Lifecycle
import CacheCatalog.Proofs.Refreshment
import CacheCatalog.Proofs.Requests

/-! What a statement reports of its last request. A refusal leaves its own record and nothing else; of
an answer there are records where a value did not fit, and after a fetch these are the columns whose
buffers say so. For that every buffer must have a cell in the row, which it has since a statement's
cursor is always a cursor that a query opened, after some calls. -/
namespace CacheCatalog

def Reply.writes : Reply → Bool
  | fetched _ | piece .. => true
  | _ => false

namespace Reply

theorem status_eq_successWithInfo_iff {r : Reply} :
    r.status = .successWithInfo ↔
      (∃ ns, r = fetched ns ∧ ns ≠ []) ∨ ∃ n p, r = piece n p ∧ p.truncated = true := by
  cases r with
  | fetched ns => cases ns <;> simp [status, diagnostics]
  | piece n p => cases htruncated : p.truncated <;> simp [status, diagnostics, htruncated]
  | done | noData | count | description | value | cursor => simp [status, diagnostics]

theorem diagnostics_eq_nil_iff {r : Reply} : r.diagnostics = [] ↔ r.status ≠ .successWithInfo := by
  rw [ne_eq, status_eq_successWithInfo_iff]
  cases r with
  | fetched ns => simp [diagnostics]
  | piece n p => cases htruncated : p.truncated <;> simp [diagnostics, htruncated]
  | done | noData | count | description | value | cursor => simp [diagnostics]

theorem sqlState_of_mem_diagnostics {r : Reply} {d : Diagnostic} (h : d ∈ r.diagnostics) :
    d.sqlState = "01004" := by
  cases r with
  | fetched ns =>
    obtain ⟨n, -, rfl⟩ := List.mem_map.1 h
    rfl
  | piece n p =>
    dsimp only [diagnostics] at h
    split at h
    · obtain rfl := List.mem_singleton.1 h
      rfl
    · cases h
  | done | noData | count | description | value | cursor => cases h

end Reply

theorem Error.sqlState_ne_truncated (e : Error) : e.sqlState ≠ "01004" := by
  cases e <;> simp [Error.sqlState]

theorem Outcome.exists_truncated_iff {outcome : Outcome} :
    (∃ d ∈ outcome.diagnostics, d.sqlState = "01004") ↔
      ∃ reply, outcome = .ok reply ∧ reply.status = .successWithInfo := by
  constructor
  · rintro ⟨d, hd, hstate⟩
    match outcome with
    | .ok reply =>
      refine ⟨reply, rfl, ?_⟩
      by_contra hstatus
      exact List.ne_nil_of_mem hd (Reply.diagnostics_eq_nil_iff.2 hstatus)
    | .error .splitCharacter => cases hd
    | .error (.refused e) =>
      obtain rfl := List.mem_singleton.1 hd
      exact absurd hstate e.sqlState_ne_truncated
  · rintro ⟨reply, rfl, hstatus⟩
    obtain ⟨d, hd⟩ := List.exists_mem_of_ne_nil reply.diagnostics
      fun hnil => Reply.diagnostics_eq_nil_iff.1 hnil hstatus
    exact ⟨d, hd, Reply.sqlState_of_mem_diagnostics hd⟩

namespace ResultSet

theorem ofExcept_eq_ok {x : Except Error Reply} {reply : Reply} :
    Outcome.ofExcept x = .ok reply ↔ x = .ok reply := by
  cases x <;> simp [Outcome.ofExcept, Except.mapError]

theorem not_writes_of_count {r : ResultSet} {reply : Reply} (h : r.count = .ok reply) :
    reply.writes = false := by
  obtain ⟨columns, -, hcount⟩ := bind_eq_ok.1 h
  split at hcount
  · obtain rfl := Except.ok.inj hcount
    rfl
  · cases hcount

theorem not_writes_of_describeColumn {r : ResultSet} {limits : Limits} {n : Nat} {reply : Reply}
    (h : r.describeColumn limits n = .ok reply) : reply.writes = false := by
  obtain ⟨columns, -, hcolumns⟩ := bind_eq_ok.1 h
  obtain ⟨column, -, hcolumn⟩ := bind_eq_ok.1 hcolumns
  obtain rfl := Except.ok.inj hcolumn
  rfl

theorem writes_of_attributeText {r : ResultSet} {limits : Limits} {n field k : Nat} {reply : Reply}
    (h : r.attributeText limits n field k = .ok reply) :
    reply.writes = false ∨ ∃ p, reply = .piece n p := by
  obtain ⟨value, -, hvalue⟩ := bind_eq_ok.1 h
  cases value with
  | int v =>
    obtain rfl := Except.ok.inj hvalue
    exact .inl rfl
  | text s =>
    obtain rfl := Except.ok.inj hvalue
    exact .inr ⟨_, rfl⟩

theorem answer_cases {limits : Limits} {r : ResultSet} {call : Call} {reply : Reply}
    (h : (r.answer limits call).1 = .ok reply) :
    reply.writes = false ∨
    (∃ ns c, call = .fetch ∧ reply = .fetched ns ∧ r = rows c ∧ c.fetch.1 = .ok (.row ns) ∧
      (r.answer limits call).2 = rows c.fetch.2) ∨
    ∃ n p, reply = .piece n p ∧
      ((∃ target k, call = .getData n target k) ∨ ∃ field k, call = .attributeText n field k) := by
  cases call with
  | moreResults | closeCursor | unbind | close =>
    obtain rfl := Except.ok.inj h
    exact .inl rfl
  | takeCursor =>
    left
    cases r with
    | none | projection | rows =>
      obtain rfl := Except.ok.inj h
      rfl
  | columnCount => exact .inl (not_writes_of_count (ofExcept_eq_ok.1 h))
  | describeColumn n => exact .inl (not_writes_of_describeColumn (ofExcept_eq_ok.1 h))
  | columnAttribute n field =>
    obtain ⟨value, -, rfl⟩ := map_eq_ok.1 (ofExcept_eq_ok.1 h)
    exact .inl rfl
  | attributeText n field k =>
    obtain hquiet | ⟨p, rfl⟩ := writes_of_attributeText (ofExcept_eq_ok.1 h)
    · exact .inl hquiet
    · exact .inr (.inr ⟨n, p, rfl, .inr ⟨field, k, rfl⟩⟩)
  | bind n target k =>
    change (r.bind n target k).1 = _ at h
    obtain ⟨e, hbind⟩ | ⟨_, _, _, -, -, hbind⟩ := r.bind_cases n target k
    · rw [hbind] at h
      cases h
    · rw [hbind] at h
      obtain rfl := Except.ok.inj h
      exact .inl rfl
  | getData n target k =>
    change (r.getData n target k).1 = _ at h
    obtain ⟨_, hread⟩ | ⟨_, _, _, _, -, -, -, ⟨-, hread⟩ | ⟨p, -, hread⟩⟩ :=
      r.getData_cases n target k
    · rw [hread] at h
      cases h
    · rw [hread] at h
      obtain rfl := Except.ok.inj h
      exact .inl rfl
    · rw [hread] at h
      obtain rfl := Except.ok.inj h
      exact .inr (.inr ⟨n, p, rfl, .inl ⟨target, k, rfl⟩⟩)
  | fetch =>
    change r.fetch.1 = _ at h
    obtain ⟨_, hanswer⟩ | ⟨c, hc, hafter, ⟨_, -, hanswer⟩ | ⟨-, hanswer⟩ | ⟨ns, hfetch, hanswer⟩⟩ :=
      r.fetch_cases
    · rw [hanswer] at h
      cases h
    · rw [hanswer] at h
      cases h
    · rw [hanswer] at h
      obtain rfl := Except.ok.inj h
      exact .inl rfl
    · rw [hanswer] at h
      obtain rfl := Except.ok.inj h
      exact .inr (.inl ⟨ns, c, rfl, rfl, hc, hfetch, hafter⟩)

end ResultSet

theorem Cursor.truncated_of_fetch {c : Cursor} {ns : List Nat} (hconforms : c.Conforms)
    (hbound : c.BoundInRange) (h : c.fetch.1 = .ok (.row ns)) :
    ns.Pairwise (· < ·) ∧
      ∀ n, n ∈ ns ↔ ∃ b, c.fetch.2.bindings.get? n = some b ∧ b.truncated = true := by
  obtain ⟨_, hfetch⟩ | ⟨_, hfetch⟩ | ⟨row, rows, hpending, hfetch⟩ := c.fetch_cases
  · rw [hfetch] at h
    cases h
  · rw [hfetch] at h
    cases h
  · rw [hfetch] at h ⊢
    have hrow : Row.Conforms c.columns row :=
      hconforms.pending row (hpending ▸ List.mem_cons_self ..)
    have hlength : c.columns.length = row.length := hrow.length_eq
    obtain ⟨ms, hms, hns⟩ := map_eq_ok.1 h
    obtain rfl := Fetched.row.inj hns
    obtain ⟨_, e, -, herror, -⟩ | ⟨-, _, hok, hrefreshed, hascending, hmem⟩ :=
      Bindings.refresh_spec (fun n hn => (hbound n hn).1) row
    · cases herror.symm.trans hms
    obtain rfl := Except.ok.inj (hms.symm.trans hok)
    refine ⟨hascending, fun n => (hmem n).trans (and_iff_right_of_imp ?_)⟩
    -- the row has a cell for every column that may be bound
    rintro ⟨b, hb, -⟩
    cases hold : c.bindings.get? n with
    | none => cases (hrefreshed.unbound n hold).symm.trans hb
    | some _ => exact hlength ▸ (hbound n (Keyed.mem_keys_iff.2 ⟨_, hold⟩)).2

namespace Statement

theorem opened_of_cursor? {settings : Settings} {requests : List Request} {c : Cursor}
    (h : (({} : Statement).run settings requests).cursor? = some c) :
    ∃ source q opened calls, Query.Opens settings.limits source q opened ∧
      c = Cursor.run opened calls := by
  refine run_invariant (P := fun s => ∀ c, s.cursor? = some c → ∃ source q opened calls,
    Query.Opens settings.limits source q opened ∧ c = Cursor.run opened calls)
    (fun s request hs c hc => ?_) requests (fun c hc => (by cases hc)) c h
  -- a query puts its own cursor there, and a call goes on with the one that is there
  cases haction : request.action with
  | query q =>
    rw [perform_query haction] at hc
    exact ⟨request.source, q, c, [], Query.opens_of_query hc, rfl⟩
  | call call =>
    rw [perform_call haction] at hc
    obtain ⟨d, hd, rfl⟩ := ResultSet.cursor?_of_answer hc
    obtain ⟨source, q, opened, earlier, hopened, rfl⟩ := hs d (congrArg ResultSet.cursor? hd)
    exact ⟨source, q, opened, earlier ++ call.onCursor, hopened,
      (Cursor.run_append opened earlier call.onCursor).symm⟩

theorem conforms_of_cursor? {settings : Settings} {requests : List Request} {c : Cursor}
    (h : (({} : Statement).run settings requests).cursor? = some c) : c.Conforms ∧ c.BoundInRange := by
  obtain ⟨source, q, opened, calls, hopened, rfl⟩ := opened_of_cursor? h
  obtain ⟨columns, rows, rfl, hrows⟩ := hopened.exists_rows
  have hconforms : (Cursor.ofRows columns rows true).Conforms :=
    ⟨hrows, fun row hrow => (by cases hrow)⟩
  have hbound : (Cursor.ofRows columns rows true).BoundInRange := fun n hn => (by cases hn)
  exact ⟨hconforms.run calls, hbound.run calls⟩

theorem diagnostics_of_perform (settings : Settings) (s : Statement) (request : Request) :
    (s.perform settings request).2.diagnostics = (s.perform settings request).1.diagnostics := by
  cases haction : request.action with
  | call c =>
    rw [perform_call haction]
    rfl
  | query q =>
    rw [perform_query haction]
    obtain ⟨result, hquery⟩ | ⟨e, hquery⟩ := query_cases settings request.source q <;>
      rw [hquery] <;> rfl

theorem perform_cases {settings : Settings} {s : Statement} {request : Request} {reply : Reply}
    (h : (s.perform settings request).1 = .ok reply) :
    reply.writes = false ∨
    (∃ ns c, request.action = .call .fetch ∧ reply = .fetched ns ∧ s.cursor? = some c ∧
      c.fetch.1 = .ok (.row ns) ∧ (s.perform settings request).2.cursor? = some c.fetch.2) ∨
    ∃ n p, reply = .piece n p ∧ ((∃ target k, request.action = .call (.getData n target k)) ∨
      ∃ field k, request.action = .call (.attributeText n field k)) := by
  cases haction : request.action with
  | query q =>
    rw [perform_query haction] at h
    obtain ⟨result, hquery⟩ | ⟨e, hquery⟩ := query_cases settings request.source q
    · rw [hquery] at h
      obtain rfl := Except.ok.inj h
      exact .inl rfl
    · rw [hquery] at h
      cases h
  | call c =>
    rw [perform_call haction] at h ⊢
    obtain hquiet | ⟨ns, d, rfl, rfl, hd, hfetch, hafter⟩ | ⟨n, p, rfl, ⟨t, k, rfl⟩ | ⟨f, k, rfl⟩⟩ :=
      ResultSet.answer_cases h
    · exact .inl hquiet
    · refine .inr (.inl ⟨ns, d, rfl, rfl, ?_, hfetch, ?_⟩)
      · rw [cursor?, hd]
        rfl
      · exact congrArg ResultSet.cursor? hafter
    · exact .inr (.inr ⟨n, p, rfl, .inl ⟨t, k, rfl⟩⟩)
    · exact .inr (.inr ⟨n, p, rfl, .inr ⟨f, k, rfl⟩⟩)

structure Reports (action : Action) (outcome : Outcome) (after : Statement) : Prop where
  failed : ∀ e, outcome = .error (.refused e) → after.diagnostics = [.failure e]
  fetched : ∀ ns, outcome = .ok (.fetched ns) → action = .call .fetch ∧
    after.diagnostics = ns.map .truncated ∧ ns.Pairwise (· < ·) ∧
    ∀ n, n ∈ ns ↔ ∃ b, after.binding? n = some b ∧ b.truncated = true
  piece : ∀ n p, outcome = .ok (.piece n p) →
    ((∃ target k, action = .call (.getData n target k)) ∨
      ∃ field k, action = .call (.attributeText n field k)) ∧
    after.diagnostics = if p.truncated = true then [.truncated n] else []
  informs : ∀ reply, outcome = .ok reply →
    (reply.status = .successWithInfo ↔
      (∃ ns, reply = .fetched ns ∧ ns ≠ []) ∨ ∃ n p, reply = .piece n p ∧ p.truncated = true) ∧
    (reply.status ≠ .successWithInfo → after.diagnostics = [])
  truncated : (∃ d ∈ after.diagnostics, d.sqlState = "01004") ↔
    ∃ reply, outcome = .ok reply ∧ reply.status = .successWithInfo

/-- After any requests, the records of a statement are those of the next request, by what it comes
to; those that there were make no difference. -/
theorem diagnostics_mirror_last_request (settings : Settings) (before : List Request)
    (request : Request) :
    let s := ({} : Statement).run settings before
    Reports request.action (s.perform settings request).1 (s.perform settings request).2 ∧
    ∀ earlier, { s with diagnostics := earlier }.perform settings request =
      s.perform settings request := by
  intro s
  refine ⟨?_, fun earlier => perform_of_result_eq rfl request⟩
  have hrecords := diagnostics_of_perform settings s request
  constructor
  case failed =>
    intro e h
    rw [hrecords, h]
    rfl
  case fetched =>
    intro ns h
    obtain hquiet | ⟨ms, c, haction, hreply, hc, hfetch, hafter⟩ | ⟨n, p, hreply, -⟩ :=
      perform_cases h
    · cases hquiet
    · obtain rfl := Reply.fetched.inj hreply
      -- every buffer has a cell in the row, so none still says what an earlier row did to it
      obtain ⟨hconforms, hbound⟩ := conforms_of_cursor? hc
      obtain ⟨hascending, htruncated⟩ := Cursor.truncated_of_fetch hconforms hbound hfetch
      refine ⟨haction, by rw [hrecords, h]; rfl, hascending, fun n => ?_⟩
      rw [htruncated, binding?, hafter]
      rfl
    · cases hreply
  case piece =>
    intro n p h
    obtain hquiet | ⟨_, _, -, hreply, -⟩ | ⟨m, q, hreply, haction⟩ := perform_cases h
    · cases hquiet
    · cases hreply
    · obtain ⟨rfl, rfl⟩ := Reply.piece.inj hreply
      refine ⟨haction, ?_⟩
      rw [hrecords, h]
      rfl
  case informs =>
    intro reply h
    refine ⟨Reply.status_eq_successWithInfo_iff, fun hstatus => ?_⟩
    rw [hrecords, h]
    exact Reply.diagnostics_eq_nil_iff.2 hstatus
  case truncated =>
    rw [hrecords]
    exact Outcome.exists_truncated_iff

theorem diagnostics_after_truncated_fetch :
    let source : Source := ⟨.ok [⟨"S", "TABLES"⟩], fun _ => .ok []⟩
    let before : List Request := [⟨source, .query (.tables {})⟩, ⟨source, .call (.bind 3 1 3)⟩,
      ⟨source, .call (.bind 2 1 3)⟩]
    let s := ({} : Statement).run {} before
    let fetched := s.perform {} ⟨source, .call .fetch⟩
    fetched.1 = .ok (.fetched [3]) ∧ fetched.2.diagnostics = [.truncated 3] ∧
    (fetched.2.perform {} ⟨source, .call (.getData 9 1 3)⟩).2.diagnostics =
      [.failure (.columnIndex 9 5)] := by
  intro source before s fetched
  have hfetched : fetched.1 = .ok (.fetched [3]) := by decide +kernel
  obtain ⟨hreports, -⟩ := diagnostics_mirror_last_request {} before ⟨source, .call .fetch⟩
  obtain ⟨hnext, -⟩ := diagnostics_mirror_last_request {} (before ++ [⟨source, .call .fetch⟩])
    ⟨source, .call (.getData 9 1 3)⟩
  exact ⟨hfetched, (hreports.fetched [3] hfetched).2.1, hnext.failed _ (by decide +kernel)⟩

end Statement
end CacheCatalog
