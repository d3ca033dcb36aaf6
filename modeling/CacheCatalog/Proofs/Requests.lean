import CacheCatalog.Proofs.Answers

/-! Requests on a statement, one after another. Each finds the source such as it is at that time, so a
run says for every request what the source answers then. A query starts afresh: what the statement had
makes no difference to it, and what becomes of the source makes none to the calls that follow. -/
namespace CacheCatalog

inductive Action where
  | query (query : Query)
  | call (call : Call)
  deriving DecidableEq, Repr

structure Request where
  source : Source
  action : Action

def Action.isCall : Action → Bool
  | query _ => false
  | call _ => true

def Call.onCursor : Call → List CursorCall
  | bind n target k =>
    match TargetRequest.ofCode target with
    | .ok request => [.bind n request k]
    | .error _ => []
  | getData n target k =>
    match TargetRequest.ofCode target with
    | .ok request => [.getData n request k]
    | .error _ => []
  | fetch => [.fetch]
  | moreResults | closeCursor => [.close]
  | unbind => [.unbindAll]
  | _ => []

/-! What a call comes to -/

namespace ResultSet

theorem cursor_eq_ok {r : ResultSet} {c : Cursor} (h : r.cursor = .ok c) : r = rows c := by
  cases r with
  | none | projection columns => cases h
  | rows d => exact congrArg rows (Except.ok.inj h)

theorem eq_rows_of_cursor? {r : ResultSet} {c : Cursor} (h : r.cursor? = some c) : r = rows c :=
  cursor_eq_ok (by rw [cursor, h])

theorem bind_cases (r : ResultSet) (n : Nat) (target : Int) (k : Nat) :
    (∃ e, r.bind n target k = (.error (.refused e), r)) ∨
    ∃ c request bound, r = rows c ∧ c.bind n request k = .ok bound ∧
      r.bind n target k = (.ok .done, rows bound) := by
  cases hbound : (TargetRequest.ofCode target >>= fun request =>
      r.cursor >>= fun c => c.bind n request k) with
  | error e =>
    refine .inl ⟨e, ?_⟩
    unfold bind
    rw [hbound]
  | ok bound =>
    obtain ⟨request, -, hcursor⟩ := bind_eq_ok.1 hbound
    obtain ⟨c, hc, hbind⟩ := bind_eq_ok.1 hcursor
    refine .inr ⟨c, request, bound, cursor_eq_ok hc, hbind, ?_⟩
    unfold bind
    rw [hbound]

theorem fetch_cases (r : ResultSet) :
    (∃ e, r.fetch = (.error (.refused e), r)) ∨
    ∃ c, r = rows c ∧ r.fetch.2 = rows c.fetch.2 ∧
      ((∃ e, c.fetch.1 = .error e ∧ r.fetch.1 = .error (.refused e)) ∨
        (c.fetch.1 = .ok .noData ∧ r.fetch.1 = .ok .noData) ∨
        ∃ ns, c.fetch.1 = .ok (.row ns) ∧ r.fetch.1 = .ok (.fetched ns)) := by
  cases hcursor : r.cursor with
  | error e =>
    refine .inl ⟨e, ?_⟩
    simp only [fetch, hcursor]
  | ok c =>
    refine .inr ⟨c, cursor_eq_ok hcursor, ?_⟩
    rcases hfetch : c.fetch with ⟨outcome, after⟩
    cases outcome with
    | error e => simp [fetch, hcursor, hfetch]
    | ok fetched => cases fetched <;> simp [fetch, hcursor, hfetch]

theorem getData_cases (r : ResultSet) (n : Nat) (target : Int) (k : Nat) :
    (∃ fault, r.getData n target k = (.error fault, r)) ∨
    ∃ c request piece after, r = rows c ∧ c.getData n request k = .ok (piece, after) ∧
      (r.getData n target k).2 = rows after ∧
      ((piece = Option.none ∧ (r.getData n target k).1 = .ok .noData) ∨
        ∃ p, piece = some p ∧ (r.getData n target k).1 = .ok (.piece n p)) := by
  cases hasked : (TargetRequest.ofCode target >>= fun request =>
      r.cursor >>= fun c => (pure (request, c) : Except Error (TargetRequest × Cursor))) with
  | error e =>
    refine .inl ⟨.refused e, ?_⟩
    unfold getData
    rw [hasked]
  | ok asked =>
    obtain ⟨request, -, hcursor⟩ := bind_eq_ok.1 hasked
    obtain ⟨c, hc, hpair⟩ := bind_eq_ok.1 hcursor
    obtain rfl := Except.ok.inj hpair
    cases hread : c.getData n request k with
    | error fault =>
      refine .inl ⟨fault, ?_⟩
      unfold getData
      rw [hasked]
      simp only [hread]
    | ok answer =>
      obtain ⟨piece, after⟩ := answer
      refine .inr ⟨c, request, piece, after, cursor_eq_ok hc, hread, ?_⟩
      unfold getData
      rw [hasked]
      simp only [hread]
      cases piece with
      | none => exact ⟨rfl, .inl ⟨rfl, rfl⟩⟩
      | some p => exact ⟨rfl, .inr ⟨p, rfl, rfl⟩⟩

theorem answer_rows (limits : Limits) (c : Cursor) (call : Call) :
    ((rows c).answer limits call).2 = none ∨
      ((rows c).answer limits call).2 = rows (c.run call.onCursor) := by
  cases call with
  | columnCount | describeColumn | columnAttribute | attributeText => exact .inr rfl
  | moreResults | closeCursor | unbind => exact .inr rfl
  | close | takeCursor => exact .inl rfl
  | bind n target k =>
    right
    dsimp only [answer, ResultSet.bind, Call.onCursor]
    cases TargetRequest.ofCode target with
    | error e => rfl
    | ok request =>
      dsimp only [Bind.bind, Except.bind, cursor, cursor?, Cursor.run, Cursor.event, Cursor.perform]
      cases c.bind n request k <;> rfl
  | getData n target k =>
    right
    dsimp only [answer, ResultSet.getData, Call.onCursor]
    cases TargetRequest.ofCode target with
    | error e => rfl
    | ok request =>
      dsimp only [Bind.bind, Except.bind, pure, Except.pure, cursor, cursor?, Cursor.run,
        Cursor.event, Cursor.perform]
      rcases c.getData n request k with fault | ⟨_ | p, after⟩ <;> rfl
  | fetch =>
    right
    dsimp only [answer, ResultSet.fetch, Call.onCursor, cursor, cursor?, Cursor.run, Cursor.event,
      Cursor.perform]
    rcases c.fetch with ⟨e | _ | ns, after⟩ <;> rfl

theorem answer_of_cursor?_eq_none {r : ResultSet} (h : r.cursor? = Option.none) (limits : Limits)
    (call : Call) : (r.answer limits call).2 = none ∨ (r.answer limits call).2 = r := by
  have hrows : ∀ c, r ≠ rows c := fun c hc => by rw [hc] at h; cases h
  cases call with
  | columnCount | describeColumn | columnAttribute | attributeText => exact .inr rfl
  | close => exact .inl rfl
  | moreResults | closeCursor | unbind | takeCursor =>
    cases r with
    | none | projection => exact .inr rfl
    | rows c => exact absurd rfl (hrows c)
  | bind n target k =>
    obtain ⟨_, hbind⟩ | ⟨c, _, _, hc, -, -⟩ := r.bind_cases n target k
    · exact .inr (congrArg Prod.snd hbind)
    · exact absurd hc (hrows c)
  | getData n target k =>
    obtain ⟨_, hread⟩ | ⟨c, _, _, _, hc, -, -, -⟩ := r.getData_cases n target k
    · exact .inr (congrArg Prod.snd hread)
    · exact absurd hc (hrows c)
  | fetch =>
    obtain ⟨_, hanswer⟩ | ⟨c, hc, -, -⟩ := r.fetch_cases
    · exact .inr (congrArg Prod.snd hanswer)
    · exact absurd hc (hrows c)

theorem cursor?_of_answer {limits : Limits} {r : ResultSet} {call : Call} {c : Cursor}
    (h : (r.answer limits call).2.cursor? = some c) :
    ∃ d, r = rows d ∧ c = d.run call.onCursor := by
  cases hr : r.cursor? with
  | none =>
    obtain hafter | hafter := answer_of_cursor?_eq_none hr limits call
    · rw [hafter] at h
      cases h
    · rw [hafter, hr] at h
      cases h
  | some d =>
    obtain rfl := eq_rows_of_cursor? hr
    obtain hafter | hafter := answer_rows limits d call
    · rw [hafter] at h
      cases h
    · rw [hafter] at h
      exact ⟨d, rfl, (Option.some.inj h).symm⟩

end ResultSet

namespace Statement

def perform (settings : Settings) (s : Statement) (request : Request) : Outcome × Statement :=
  match request.action with
  | .query q => s.query settings request.source q
  | .call c => s.call settings c

def run (settings : Settings) : Statement → List Request → Statement
  | s, [] => s
  | s, request :: requests => run settings (s.perform settings request).2 requests

def trace (settings : Settings) : Statement → List Request → List (Outcome × Statement)
  | _, [] => []
  | s, request :: requests =>
    s.perform settings request :: trace settings (s.perform settings request).2 requests

section Runs
variable {settings : Settings}

theorem perform_query {request : Request} {q : Query} (h : request.action = .query q)
    (s : Statement) : s.perform settings request = s.query settings request.source q := by
  rw [perform, h]

theorem perform_call {request : Request} {c : Call} (h : request.action = .call c) (s : Statement) :
    s.perform settings request = s.call settings c := by
  rw [perform, h]

theorem trace_append (s : Statement) (xs ys : List Request) :
    s.trace settings (xs ++ ys) = s.trace settings xs ++ (s.run settings xs).trace settings ys := by
  induction xs generalizing s with
  | nil => rfl
  | cons x xs ih =>
    rw [List.cons_append, trace, ih]
    rfl

theorem run_induction {P : Statement → Prop} {Q : Request → Prop}
    (hstep : ∀ s request, Q request → P s → P (s.perform settings request).2) {s : Statement}
    (requests : List Request) (hrequests : ∀ request ∈ requests, Q request) (hs : P s) :
    P (s.run settings requests) := by
  induction requests generalizing s with
  | nil => exact hs
  | cons request requests ih =>
    rw [List.forall_mem_cons] at hrequests
    exact ih hrequests.2 (hstep s request hrequests.1 hs)

theorem run_invariant {P : Statement → Prop}
    (hstep : ∀ s request, P s → P (s.perform settings request).2) {s : Statement}
    (requests : List Request) (hs : P s) : P (s.run settings requests) :=
  run_induction (Q := fun _ => True) (fun t request _ => hstep t request) requests
    (fun _ _ => trivial) hs

theorem query_cases (settings : Settings) (source : Source) (q : Query) :
    (∃ result, ∀ s : Statement, s.query settings source q = (.ok .done, ⟨result, []⟩)) ∨
    ∃ e, ∀ s : Statement,
      s.query settings source q = (.error (.refused e), ⟨.none, [.failure e]⟩) := by
  cases hanswer : q.answer settings source with
  | ok result => exact .inl ⟨result, query_of_ok hanswer⟩
  | error e => exact .inr ⟨e, query_of_error hanswer⟩

theorem query_eq_query (settings : Settings) (source : Source) (q : Query) (s t : Statement) :
    s.query settings source q = t.query settings source q := by
  obtain ⟨result, h⟩ | ⟨e, h⟩ := query_cases settings source q <;> rw [h, h]

theorem perform_of_result_eq {s t : Statement} (h : s.result = t.result) (request : Request) :
    s.perform settings request = t.perform settings request := by
  cases haction : request.action with
  | query q =>
    rw [perform_query haction, perform_query haction]
    exact query_eq_query settings request.source q s t
  | call c => rw [perform_call haction, perform_call haction, call, call, h]

theorem trace_of_result_eq {s t : Statement} (h : s.result = t.result) (requests : List Request) :
    s.trace settings requests = t.trace settings requests := by
  cases requests with
  | nil => rfl
  | cons request requests => rw [trace, trace, perform_of_result_eq h]

theorem trace_of_calls (s : Statement) {xs ys : List Request}
    (hcalls : ∀ x ∈ xs, x.action.isCall = true)
    (hsame : xs.map Request.action = ys.map Request.action) :
    s.trace settings xs = s.trace settings ys := by
  induction xs generalizing s ys with
  | nil =>
    rw [List.map_nil, eq_comm, List.map_eq_nil_iff] at hsame
    rw [hsame]
  | cons x xs ih =>
    cases ys with
    | nil => cases hsame
    | cons y ys =>
      rw [List.forall_mem_cons] at hcalls
      rw [List.map_cons, List.map_cons] at hsame
      obtain ⟨hhead, htail⟩ := List.cons.inj hsame
      -- the sources may differ, but no call asks its source
      have hperform : s.perform settings x = s.perform settings y := by
        cases haction : x.action with
        | query q => simp [haction, Action.isCall] at hcalls
        | call c => rw [perform_call haction, perform_call (hhead ▸ haction)]
      rw [trace, trace, hperform, ih _ hcalls.2 htail]

end Runs

theorem fresh_cursor_of_query {settings : Settings} {source : Source} {s : Statement} {q : Query}
    {c : Cursor} (h : (s.query settings source q).2.cursor? = some c) :
    c.position = 0 ∧ c.isClosed = false ∧ c.isExhausted = false ∧ c.currentRow? = none ∧
      c.bindings = Keyed.empty ∧ ∀ n, c.progress? n = none := by
  obtain ⟨columns, rows, rfl, -⟩ := (Query.opens_of_query h).exists_rows
  exact ⟨rfl, rfl, rfl, rfl, rfl, fun _ => rfl⟩

theorem after_of_query_error {settings : Settings} {source : Source} {s : Statement} {q : Query}
    {fault : Fault} (h : (s.query settings source q).1 = .error fault) :
    ∃ e, fault = .refused e ∧
      (s.query settings source q).2 = { ({} : Statement) with diagnostics := [.failure e] } := by
  obtain ⟨result, hquery⟩ | ⟨e, hquery⟩ := query_cases settings source q
  · rw [hquery] at h
    cases h
  · rw [hquery] at h ⊢
    exact ⟨e, (Except.error.inj h).symm, rfl⟩

/-- Two statements of one connection, whatever they had, are answered a query alike and are one
statement after it: with a cursor before its first row, if there is one, and without any result after a
failure. From there the same calls are answered alike on both, whatever becomes of the source on one
or on the other. -/
theorem query_starts_afresh (settings : Settings) (source : Source) (q : Query) (s t : Statement) :
    let asked := s.query settings source q
    let again := t.query settings source q
    asked.1 = again.1 ∧ asked.2 = again.2 ∧
    (∀ c, asked.2.cursor? = some c → c.position = 0 ∧ c.isClosed = false ∧ c.isExhausted = false ∧
      c.currentRow? = none ∧ c.bindings = Keyed.empty ∧ ∀ n, c.progress? n = none) ∧
    (∀ fault, asked.1 = .error fault → ∃ e, fault = .refused e ∧
      asked.2 = { ({} : Statement) with diagnostics := [.failure e] }) ∧
    ∀ xs ys : List Request, (∀ x ∈ xs, x.action.isCall = true) →
      xs.map Request.action = ys.map Request.action →
      asked.2.trace settings xs = again.2.trace settings ys := by
  intro asked again
  have hsame : asked = again := query_eq_query settings source q s t
  refine ⟨congrArg Prod.fst hsame, congrArg Prod.snd hsame, fun _ => fresh_cursor_of_query,
    fun _ => after_of_query_error, fun xs ys hcalls hactions => ?_⟩
  rw [← hsame]
  exact trace_of_calls asked.2 hcalls hactions

theorem query_starts_afresh_after_half_read :
    let source : Source := ⟨.ok [⟨"S", "T"⟩], fun _ => .ok [⟨"C", 9, {}, true⟩]⟩
    let dropped : Source := ⟨.ok [], fun t => .error (.unknownTable t.schema t.name)⟩
    let half := ({} : Statement).run {} [⟨source, .query (.types 12)⟩, ⟨source, .call (.bind 1 1 8)⟩,
      ⟨source, .call .fetch⟩, ⟨source, .call (.getData 1 1 3)⟩]
    let asked := half.query {} source (.tables {})
    let again := ({} : Statement).query {} source (.tables {})
    let calls : List Action := [.call .fetch, .call (.getData 3 1 8)]
    (∀ x ∈ calls.map (Request.mk dropped), x.action.isCall = true) ∧ half ≠ {} ∧
    asked.2 = again.2 ∧
    asked.2.trace {} (calls.map (Request.mk dropped)) = again.2.trace {} (calls.map (Request.mk source)) ∧
    ((again.2.trace {} (calls.map (Request.mk source))).map Prod.fst) =
      [.ok (.fetched []), .ok (.piece 3 ⟨[84, 0], 1, false, 1⟩)] := by
  intro source dropped half asked again calls
  have hcalls : ∀ x ∈ calls.map (Request.mk dropped), x.action.isCall = true := by
    simp [calls, Action.isCall]
  obtain ⟨-, hafter, -, -, htrace⟩ := query_starts_afresh {} source (.tables {}) half {}
  exact ⟨hcalls, by decide +kernel, hafter, htrace _ _ hcalls rfl, by decide +kernel⟩

end Statement
end CacheCatalog
