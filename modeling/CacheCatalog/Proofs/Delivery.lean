import CacheCatalog.Proofs.Calls

/-! Every row is delivered once and in order. What a call hands out is taken from the front of the
rows that are left, whatever way it asks for them, and calls that ask for none take none; so the rows
delivered and the rows left make up the whole list at every moment. -/
namespace CacheCatalog

namespace CursorEvent

/-- The rows that an event hands out. A fetch hands out the row it goes to even where a buffer cannot
take its cell. -/
def delivered (event : CursorEvent) : List Row :=
  match event.call, event.reply with
  | .fetch, .ok (.fetched (.row _)) | .fetch, .error _ => event.after.currentRow?.toList
  | .next, .ok (.row row) => row.toList
  | .fetchAll, .ok (.rows rows) => rows
  | _, _ => []

def reportsEnd (event : CursorEvent) : Bool :=
  match event.call, event.reply with
  | .fetch, .ok (.fetched .noData) | .next, .ok (.row none) | .fetchAll, .ok (.rows _) => true
  | _, _ => false

def isEmpty (event : CursorEvent) : Bool :=
  match event.call, event.reply with
  | .fetch, .ok (.fetched .noData) | .next, .ok (.row none) | .fetchAll, .ok (.rows []) => true
  | _, _ => false

end CursorEvent

def deliveredRows (events : List CursorEvent) : List Row := events.flatMap CursorEvent.delivered

def CursorCall.share (rows : List Row) : CursorCall → List Row
  | fetch | next => rows.take 1
  | fetchAll => rows
  | _ => []

theorem CursorCall.share_append_drop (rows : List Row) (call : CursorCall) :
    call.share rows ++ rows.drop (call.share rows).length = rows := by
  cases rows <;> cases call <;> simp [share]

def shares : List Row → List CursorCall → List Row
  | _, [] => []
  | rows, call :: calls => call.share rows ++ shares (rows.drop (call.share rows).length) calls

theorem shares_filter (rows : List Row) (calls : List CursorCall) :
    shares rows (calls.filter CursorCall.advances) = shares rows calls := by
  induction calls generalizing rows with
  | nil => rfl
  | cons call calls ih =>
    cases call <;> simp [CursorCall.advances, shares, CursorCall.share, List.filter_cons, ih]

namespace Cursor

def drain (c : Cursor) : Except Error (List Row × Cursor) :=
  match _h : c.next with
  | .error e => .error e
  | .ok (none, c) => .ok ([], c)
  | .ok (some row, c) =>
    match drain c with
    | .error e => .error e
    | .ok (rows, c) => .ok (row :: rows, c)
termination_by c.pending.length
decreasing_by
  unfold next at _h
  split at _h
  · cases _h
  · cases _h
  · cases _h
  · next row rows _ hphase =>
    obtain ⟨-, rfl⟩ := Prod.mk.inj (Except.ok.inj _h)
    simp [pending, hphase]

theorem next_of_pending_nil {c : Cursor} (hopen : c.isClosed = false) (h : c.pending = []) :
    ∃ ended, c.next = .ok (none, ended) ∧ ended.phase = .exhausted ∧ ended.position = c.position := by
  cases hphase : c.phase with
  | closed => simp [isClosed, hphase] at hopen
  | exhausted => exact ⟨c, by simp [next, hphase], hphase, rfl⟩
  | active rows current =>
    obtain rfl : rows = [] := by simpa [pending, hphase] using h
    refine ⟨{ c with phase := .exhausted, total := some c.position }, ?_, rfl, rfl⟩
    simp only [next, hphase]

theorem next_of_pending_cons {c : Cursor} {row : Row} {rows : List Row}
    (h : c.pending = row :: rows) :
    c.next = .ok (some row,
      { c with position := c.position + 1, phase := .active rows (some ⟨row, Keyed.empty⟩) }) := by
  cases hphase : c.phase with
  | closed => simp [pending, hphase] at h
  | exhausted => simp [pending, hphase] at h
  | active left current =>
    obtain rfl : left = row :: rows := by simpa [pending, hphase] using h
    simp only [next, hphase]

theorem fetch_of_pending_cons {c : Cursor} {row : Row} {rows : List Row}
    (h : c.pending = row :: rows) :
    c.fetch = ((c.bindings.refresh row).1.map .row,
      { c with position := c.position + 1, phase := .active rows (some ⟨row, Keyed.empty⟩),
               bindings := (c.bindings.refresh row).2 }) :=
  fetch_of_next_some (next_of_pending_cons h)

theorem fetchAll_of_open {c : Cursor} (hopen : c.isClosed = false) :
    ∃ ended, c.fetchAll = .ok (c.pending, ended) ∧ ended.phase = .exhausted ∧
      ended.position = c.position + c.pending.length := by
  cases hphase : c.phase with
  | closed => simp [isClosed, hphase] at hopen
  | exhausted => exact ⟨c, by simp [fetchAll, pending, hphase], hphase, by simp [pending, hphase]⟩
  | active rows current =>
    have hrows : c.pending = rows := by simp [pending, hphase]
    rw [hrows]
    refine ⟨{ c with position := c.position + rows.length,
                     total := some (c.position + rows.length), phase := .exhausted }, ?_, rfl, rfl⟩
    simp only [fetchAll, hphase]

theorem drain_of_next_none {c ended : Cursor} (h : c.next = .ok (none, ended)) :
    c.drain = .ok ([], ended) := by
  rw [drain]
  split <;> simp_all

theorem drain_of_next_some {c after ended : Cursor} {row : Row} {rows : List Row}
    (h : c.next = .ok (some row, after)) (hrest : after.drain = .ok (rows, ended)) :
    c.drain = .ok (row :: rows, ended) := by
  rw [drain]
  split <;> simp_all

theorem drain_eq_fetchAll (c : Cursor) : c.drain = c.fetchAll := by
  cases hphase : c.phase with
  | closed =>
    have hnext : c.next = .error .cursorClosed := by simp only [next, hphase]
    rw [drain]
    split <;> simp_all [fetchAll]
  | exhausted =>
    have hnext : c.next = .ok (none, c) := by simp only [next, hphase]
    rw [drain_of_next_none hnext]
    simp only [fetchAll, hphase]
  | active rows current =>
    induction rows generalizing c current with
    | nil =>
      rw [drain_of_next_none (by simp only [next, hphase]; rfl)]
      simp only [fetchAll, hphase]
      rfl
    | cons row rows ih =>
      have hrest := ih { c with position := c.position + 1,
                                phase := .active rows (some ⟨row, Keyed.empty⟩) } _ rfl
      rw [drain_of_next_some (by simp only [next, hphase]; rfl) hrest]
      simp only [fetchAll, hphase, List.length_cons]
      rw [Nat.add_right_comm, Nat.add_assoc]

theorem take_of_open {c : Cursor} (hopen : c.isClosed = false) (n : Nat) :
    c.take n = (c.pending.take n).map .ok := by
  induction n generalizing c with
  | zero => rfl
  | succ n ih =>
    cases h : c.pending with
    | nil =>
      obtain ⟨ended, hnext, -, -⟩ := next_of_pending_nil hopen h
      simp [take, hnext]
    | cons row rows =>
      rw [take, next_of_pending_cons h]
      simp only [List.take_succ_cons, List.map_cons]
      rw [ih rfl]
      rfl

theorem stream_of_open {c : Cursor} (hopen : c.isClosed = false) :
    c.stream = c.pending.map .ok := by
  rw [stream, take_of_open hopen, List.take_of_length_le (Nat.le_succ _)]

theorem take_of_closed {c : Cursor} (hclosed : c.phase = .closed) (n : Nat) :
    c.take (n + 1) = [.error .cursorClosed] := by
  simp [take, next, hclosed]

theorem event_delivers {c : Cursor} (hopen : c.isClosed = false) {call : CursorCall}
    (hcall : call ≠ .close) :
    (c.event call).delivered = call.share c.pending ∧
      (c.event call).after.pending = c.pending.drop (call.share c.pending).length ∧
      (c.event call).after.position = c.position + (call.share c.pending).length ∧
      (c.event call).after.isClosed = false := by
  by_cases hkeeps : call.keepsRow = true
  · have hplace := c.samePlace_of_keepsRow hkeeps
    have hshare : call.share c.pending = [] ∧ (c.event call).delivered = [] := by
      cases call <;> simp_all [CursorCall.keepsRow, CursorCall.share, CursorEvent.delivered, event]
    rw [hshare.1, hshare.2, hplace.pending, hplace.position, hplace.isClosed]
    exact ⟨rfl, rfl, rfl, hopen⟩
  cases call with
  | bind | unbind | unbindAll | getData => simp [CursorCall.keepsRow] at hkeeps
  | close => exact absurd rfl hcall
  | fetch =>
    cases h : c.pending with
    | nil =>
      obtain ⟨ended, hnext, hphase, hposition⟩ := next_of_pending_nil hopen h
      simp [event, perform, fetch_of_next_none hnext, CursorEvent.delivered, CursorCall.share,
        pending, isClosed, hphase, hposition]
    | cons row rows =>
      have hfetch := fetch_of_pending_cons h
      -- the buffers decide what is answered, but not where the cursor goes
      cases hrefresh : (c.bindings.refresh row).1 <;>
        simp [event, perform, hfetch, hrefresh, Except.map, CursorEvent.delivered,
          CursorCall.share, pending, isClosed, currentRow?, current?]
  | next =>
    cases h : c.pending with
    | nil =>
      obtain ⟨ended, hnext, hphase, hposition⟩ := next_of_pending_nil hopen h
      simp [event, perform, hnext, CursorEvent.delivered, CursorCall.share, pending, isClosed,
        hphase, hposition]
    | cons row rows =>
      simp [event, perform, next_of_pending_cons h, CursorEvent.delivered, CursorCall.share,
        pending, isClosed]
  | fetchAll =>
    obtain ⟨ended, hall, hphase, hposition⟩ := fetchAll_of_open hopen
    simp [event, perform, hall, CursorEvent.delivered, CursorCall.share, pending, isClosed, hphase,
      hposition]

theorem mem_pending_of_delivered {c : Cursor} {call : CursorCall} {row : Row}
    (h : row ∈ (c.event call).delivered) : row ∈ c.pending := by
  cases hopen : c.isClosed with
  | false =>
    by_cases hcall : call = .close
    · subst hcall
      cases h
    · rw [(event_delivers hopen hcall).1] at h
      rw [← call.share_append_drop c.pending]
      exact List.mem_append_left _ h
  | true =>
    have hphase : c.phase = .closed := by simpa [isClosed] using hopen
    cases call <;> simp [event, perform, CursorEvent.delivered, fetch, next, fetchAll, currentRow?,
      current?, hphase] at h

theorem mem_pending_of_mem_deliveredRows {c : Cursor} {calls : List CursorCall} {row : Row}
    (h : row ∈ deliveredRows (c.trace calls)) : row ∈ c.pending := by
  induction calls generalizing c with
  | nil => cases h
  | cons call calls ih =>
    rw [trace, deliveredRows, List.flatMap_cons] at h
    rcases List.mem_append.1 h with h | h
    · exact mem_pending_of_delivered h
    · exact (c.rows_of_event call).1 row (ih h)

theorem run_delivers {c : Cursor} (hopen : c.isClosed = false) {calls : List CursorCall}
    (hcalls : ∀ call ∈ calls, call ≠ .close) :
    deliveredRows (c.trace calls) = shares c.pending calls ∧
      deliveredRows (c.trace calls) ++ (c.run calls).pending = c.pending ∧
      (c.run calls).position = c.position + (deliveredRows (c.trace calls)).length ∧
      (c.run calls).isClosed = false := by
  induction calls generalizing c with
  | nil => exact ⟨rfl, rfl, rfl, hopen⟩
  | cons call calls ih =>
    rw [List.forall_mem_cons] at hcalls
    obtain ⟨hdelivered, hpending, hposition, hstill⟩ := event_delivers hopen hcalls.1
    obtain ⟨hshares, hsplit, hcount, hlast⟩ := ih hstill hcalls.2
    have hhead : deliveredRows (c.trace (call :: calls)) =
        call.share c.pending ++ deliveredRows ((c.event call).after.trace calls) := by
      rw [trace, deliveredRows, List.flatMap_cons, hdelivered, deliveredRows]
    have htake : call.share c.pending ++ (c.event call).after.pending = c.pending := by
      rw [hpending, CursorCall.share_append_drop]
    rw [hhead, run]
    refine ⟨?_, ?_, ?_, hlast⟩
    · rw [hshares, hpending, shares]
    · rw [List.append_assoc, hsplit, htake]
    · rw [hcount, hposition, List.length_append, Nat.add_assoc]

theorem isExhausted_of_reportsEnd {c : Cursor} (hopen : c.isClosed = false) {call : CursorCall}
    (h : (c.event call).reportsEnd = true) : (c.event call).after.isExhausted = true := by
  cases call with
  | bind | unbind | unbindAll | getData | close => simp [event, CursorEvent.reportsEnd] at h
  | fetch =>
    cases hrows : c.pending with
    | nil =>
      obtain ⟨ended, hnext, hphase, -⟩ := next_of_pending_nil hopen hrows
      simp [event, perform, fetch_of_next_none hnext, isExhausted, hphase]
    | cons row rows =>
      have hfetch := fetch_of_pending_cons hrows
      cases hrefresh : (c.bindings.refresh row).1 <;>
        simp [event, perform, hfetch, hrefresh, Except.map, CursorEvent.reportsEnd] at h
  | next =>
    cases hrows : c.pending with
    | nil =>
      obtain ⟨ended, hnext, hphase, -⟩ := next_of_pending_nil hopen hrows
      simp [event, perform, hnext, isExhausted, hphase]
    | cons row rows =>
      simp [event, perform, next_of_pending_cons hrows, CursorEvent.reportsEnd] at h
  | fetchAll =>
    obtain ⟨ended, hall, hphase, -⟩ := fetchAll_of_open hopen
    simp [event, perform, hall, isExhausted, hphase]

theorem event_of_isExhausted {c : Cursor} (h : c.isExhausted = true) {call : CursorCall}
    (hcall : call ≠ .close) :
    (c.event call).after.isExhausted = true ∧ (c.event call).after.position = c.position ∧
      (call.advances = true → (c.event call).isEmpty = true) := by
  by_cases hkeeps : call.keepsRow = true
  · have hplace := c.samePlace_of_keepsRow hkeeps
    rw [hplace.isExhausted, hplace.position]
    refine ⟨h, rfl, fun hadvances => ?_⟩
    cases call <;> simp [CursorCall.keepsRow, CursorCall.advances] at hkeeps hadvances
  have hphase : c.phase = .exhausted := by simpa [isExhausted] using h
  have hnext : c.next = .ok (none, c) := by simp only [next, hphase]
  have hall : c.fetchAll = .ok ([], c) := by simp only [fetchAll, hphase]
  cases call with
  | bind | unbind | unbindAll | getData => simp [CursorCall.keepsRow] at hkeeps
  | close => exact absurd rfl hcall
  | fetch => simp [event, perform, fetch_of_next_none hnext, CursorEvent.isEmpty, h]
  | next => simp [event, perform, hnext, CursorEvent.isEmpty, h]
  | fetchAll => simp [event, perform, hall, CursorEvent.isEmpty, h]

theorem trace_of_isExhausted {c : Cursor} (h : c.isExhausted = true) {calls : List CursorCall}
    (hcalls : ∀ call ∈ calls, call ≠ .close) :
    ∀ event ∈ c.trace calls, event.after.position = c.position ∧
      (event.call.advances = true → event.isEmpty = true) := by
  induction calls generalizing c with
  | nil => simp [trace]
  | cons call calls ih =>
    rw [List.forall_mem_cons] at hcalls
    obtain ⟨hafter, hposition, hempty⟩ := event_of_isExhausted h hcalls.1
    rw [trace, List.forall_mem_cons, ← hposition]
    exact ⟨⟨rfl, hempty⟩, ih hafter hcalls.2⟩

theorem position_of_isExhausted {columns : List Column} {rows : List Row} {sized : Bool}
    {calls : List CursorCall} (hcalls : ∀ call ∈ calls, call ≠ .close)
    (h : ((ofRows columns rows sized).run calls).isExhausted = true) :
    ((ofRows columns rows sized).run calls).position = rows.length := by
  obtain ⟨-, hsplit, hcount, -⟩ := run_delivers (c := ofRows columns rows sized) rfl hcalls
  have hphase : ((ofRows columns rows sized).run calls).phase = .exhausted := by
    simpa [isExhausted] using h
  have hpending : ((ofRows columns rows sized).run calls).pending = [] := by
    simp only [pending, hphase]
  rw [hpending, List.append_nil] at hsplit
  rw [hcount, hsplit]
  exact Nat.zero_add _

/-- Over counted or uncounted rows, after any calls but a close: the rows handed out are the first
`position` ones, calls that ask for no row make no difference to that, and nothing comes after the
end. All ways to drain the cursor give the rows that are left, and a closed cursor gives one error. -/
theorem rows_delivered_once_in_order (columns : List Column) (rows : List Row) (sized : Bool)
    (calls : List CursorCall) (hcalls : ∀ call ∈ calls, call ≠ .close) :
    let opened := ofRows columns rows sized
    let c := opened.run calls
    c.position ≤ rows.length ∧
    deliveredRows (opened.trace calls) = rows.take c.position ∧
    deliveredRows (opened.trace (calls.filter CursorCall.advances)) =
      deliveredRows (opened.trace calls) ∧
    (∀ before event later, opened.trace calls = before ++ event :: later → event.reportsEnd = true →
      event.after.position = rows.length ∧
      ∀ e ∈ later, e.after.position = rows.length ∧
        (e.call.advances = true → e.isEmpty = true)) ∧
    c.fetchAll.map Prod.fst = .ok (rows.drop c.position) ∧
    c.drain.map Prod.fst = .ok (rows.drop c.position) ∧
    (∀ n, c.take n = ((rows.drop c.position).take n).map .ok) ∧
    c.stream = (rows.drop c.position).map .ok ∧
    c.close.fetchAll = .error .cursorClosed ∧
    (∀ n, c.close.take (n + 1) = [.error .cursorClosed]) ∧
    c.close.stream = [.error .cursorClosed] := by
  intro opened c
  have hopen : opened.isClosed = false := rfl
  have hpending : opened.pending = rows := rfl
  obtain ⟨hshares, hsplit, hcount, hstill⟩ := run_delivers hopen hcalls
  have hposition : c.position = (deliveredRows (opened.trace calls)).length := by
    rw [hcount]
    exact Nat.zero_add _
  have htake : deliveredRows (opened.trace calls) = rows.take c.position := by
    rw [hposition, ← hpending, ← hsplit, List.take_left]
  have hdrop : c.pending = rows.drop c.position := by
    rw [hposition, ← hpending, ← hsplit, List.drop_left]
  have hle : c.position ≤ rows.length := by
    rw [hposition, ← hpending, ← hsplit, List.length_append]
    exact Nat.le_add_right ..
  refine ⟨hle, htake, ?_, ?_, ?_, ?_, ?_, ?_, rfl, take_of_closed rfl, take_of_closed rfl _⟩
  · have hfilter : ∀ call ∈ calls.filter CursorCall.advances, call ≠ .close :=
      fun call h => hcalls call (List.mem_of_mem_filter h)
    rw [(run_delivers hopen hfilter).1, shares_filter, hshares]
  · -- the calls up to the one that reports the end have counted all rows
    intro before event later htrace hend
    obtain ⟨earlier, call, rest, rfl, -, rfl, rfl⟩ := trace_eq_append_cons htrace
    have hearlier : ∀ call ∈ earlier, call ≠ .close := fun x hx => hcalls x (by simp [hx])
    have hcall : call ≠ .close := hcalls call (by simp)
    have hrest : ∀ call ∈ rest, call ≠ .close := fun x hx => hcalls x (by simp [hx])
    have hexhausted := isExhausted_of_reportsEnd (run_delivers hopen hearlier).2.2.2 hend
    have hrun : ((opened.run earlier).event call).after = opened.run (earlier ++ [call]) := by
      rw [run_append]
      rfl
    have hcount : ((opened.run earlier).event call).after.position = rows.length := by
      rw [hrun] at hexhausted ⊢
      refine position_of_isExhausted (fun x hx => ?_) hexhausted
      rcases List.mem_append.1 hx with hx | hx
      · exact hearlier x hx
      · rwa [List.mem_singleton.1 hx]
    rw [← hcount]
    exact ⟨rfl, trace_of_isExhausted hexhausted hrest⟩
  · obtain ⟨ended, hall, -⟩ := fetchAll_of_open hstill
    rw [hall, hdrop]
    rfl
  · obtain ⟨ended, hall, -⟩ := fetchAll_of_open hstill
    rw [drain_eq_fetchAll, hall, hdrop]
    rfl
  · intro n
    rw [take_of_open hstill, hdrop]
  · rw [stream_of_open hstill, hdrop]

theorem rows_delivered_past_failing_fetch :
    let opened := ofRows [⟨1, "C", ⟨"", ""⟩, .string, {}, 1⟩] [[.text "x"], [.text "7"], [.null]] false
    let calls : List CursorCall :=
      [.bind 1 (.exact (.integer .short)) 0, .fetch, .getData 1 .byColumn 8, .next]
    (∀ call ∈ calls, call ≠ .close) ∧
    deliveredRows (opened.trace calls) = [[.text "x"], [.text "7"]] ∧
    (opened.run calls).drain.map Prod.fst = .ok [[.null]] := by
  intro opened calls
  have hcalls : ∀ call ∈ calls, call ≠ .close := by decide
  have hposition : (opened.run calls).position = 2 := by decide +kernel
  obtain ⟨-, hdelivered, -, -, -, hdrain, -⟩ :=
    rows_delivered_once_in_order [⟨1, "C", ⟨"", ""⟩, .string, {}, 1⟩]
      [[.text "x"], [.text "7"], [.null]] false calls hcalls
  rw [hposition] at hdelivered hdrain
  exact ⟨hcalls, hdelivered, hdrain⟩

end Cursor
end CacheCatalog
