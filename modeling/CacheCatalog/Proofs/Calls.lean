import CacheCatalog.Cursor
import CacheCatalog.Proofs.Buffers
import CacheCatalog.Proofs.Results

/-! Calls on a cursor as data, and runs of them. A run is observed call by call: what was asked, what
was answered, and the cursor that the call left. A call that fails before it has moved the cursor
leaves it as it was. -/
namespace CacheCatalog

inductive CursorCall where
  | bind (ordinal : Nat) (request : TargetRequest) (capacity : Nat)
  | unbind (ordinal : Nat)
  | unbindAll
  | fetch
  | next
  | fetchAll
  | getData (ordinal : Nat) (request : TargetRequest) (capacity : Nat)
  | close
  deriving DecidableEq, Repr

inductive CursorReply where
  | done
  | unbound (found : Bool)
  | fetched (outcome : Fetched)
  | row (row : Option Row)
  | rows (rows : List Row)
  | piece (piece : Option Piece)
  deriving DecidableEq, Repr

structure CursorEvent where
  call : CursorCall
  reply : Except Fault CursorReply
  after : Cursor

namespace CursorCall

def advances : CursorCall → Bool
  | fetch | next | fetchAll => true
  | _ => false

def keepsRow : CursorCall → Bool
  | fetch | next | fetchAll | close => false
  | _ => true

theorem keepsRow_or_advances (call : CursorCall) :
    call.keepsRow = true ∨ call.advances = true ∨ call = .close := by
  cases call <;> simp [keepsRow, advances]

end CursorCall

namespace Cursor

def perform (c : Cursor) : CursorCall → Except Fault CursorReply × Cursor
  | .bind n r k =>
    match c.bind n r k with
    | .error e => (.error (.refused e), c)
    | .ok c => (.ok .done, c)
  | .unbind n => (.ok (.unbound (c.bindings.contains n)), c.unbind n)
  | .unbindAll => (.ok .done, c.unbindAll)
  | .fetch =>
    match c.fetch with
    | (.error e, c) => (.error (.refused e), c)
    | (.ok outcome, c) => (.ok (.fetched outcome), c)
  | .next =>
    match c.next with
    | .error e => (.error (.refused e), c)
    | .ok (row, c) => (.ok (.row row), c)
  | .fetchAll =>
    match c.fetchAll with
    | .error e => (.error (.refused e), c)
    | .ok (rows, c) => (.ok (.rows rows), c)
  | .getData n r k =>
    match c.getData n r k with
    | .error fault => (.error fault, c)
    | .ok (piece, c) => (.ok (.piece piece), c)
  | .close => (.ok .done, c.close)

def event (c : Cursor) (call : CursorCall) : CursorEvent :=
  ⟨call, (c.perform call).1, (c.perform call).2⟩

def run : Cursor → List CursorCall → Cursor
  | c, [] => c
  | c, call :: calls => run (c.event call).after calls

def trace : Cursor → List CursorCall → List CursorEvent
  | _, [] => []
  | c, call :: calls => c.event call :: trace (c.event call).after calls

theorem run_append (c : Cursor) (xs ys : List CursorCall) :
    c.run (xs ++ ys) = (c.run xs).run ys := by
  induction xs generalizing c with
  | nil => rfl
  | cons x xs ih => exact ih (c.event x).after

theorem run_induction {P : Cursor → Prop} {Q : CursorCall → Prop}
    (hstep : ∀ c call, Q call → P c → P (c.event call).after) {c : Cursor} (calls : List CursorCall)
    (hcalls : ∀ call ∈ calls, Q call) (hc : P c) : P (c.run calls) := by
  induction calls generalizing c with
  | nil => exact hc
  | cons call calls ih =>
    rw [List.forall_mem_cons] at hcalls
    exact ih hcalls.2 (hstep c call hcalls.1 hc)

theorem run_invariant {P : Cursor → Prop} (hstep : ∀ c call, P c → P (c.event call).after) {c : Cursor}
    (calls : List CursorCall) (hc : P c) : P (c.run calls) :=
  run_induction (Q := fun _ => True) (fun d call _ => hstep d call) calls (fun _ _ => trivial) hc

theorem trace_eq_append_cons {c : Cursor} {calls : List CursorCall} {before later : List CursorEvent}
    {event : CursorEvent} (h : c.trace calls = before ++ event :: later) :
    ∃ earlier call rest, calls = earlier ++ call :: rest ∧ before = c.trace earlier ∧
      event = (c.run earlier).event call ∧ later = event.after.trace rest := by
  induction before generalizing c calls with
  | nil =>
    cases calls with
    | nil => simp [trace] at h
    | cons call calls =>
      obtain ⟨rfl, rfl⟩ := List.cons.inj h
      exact ⟨[], call, calls, rfl, rfl, rfl, rfl⟩
  | cons first before ih =>
    cases calls with
    | nil => simp [trace] at h
    | cons call calls =>
      rw [trace, List.cons_append] at h
      obtain ⟨rfl, htail⟩ := List.cons.inj h
      obtain ⟨earlier, last, rest, rfl, rfl, hevent, hlater⟩ := ih htail
      exact ⟨call :: earlier, last, rest, rfl, rfl, hevent, hlater⟩

/-! The single calls -/

theorem of_bind_eq_ok {c c' : Cursor} {n k : Nat} {r : TargetRequest} (h : c.bind n r k = .ok c') :
    ∃ column, c.column n = .ok column ∧
      c' = { c with bindings := c.bindings.insert n (.fresh (r.resolve column.type) k) } := by
  obtain ⟨column, hcol, h⟩ := bind_eq_ok.1 h
  exact ⟨column, hcol, (Except.ok.inj h).symm⟩

theorem of_getData_eq_ok {c c' : Cursor} {n k : Nat} {r : TargetRequest} {piece : Option Piece}
    (h : c.getData n r k = .ok (piece, c')) :
    ∃ column rows current cell, c.column n = .ok column ∧ c.phase = .active rows (some current) ∧
      current.row[n - 1]? = some cell ∧
      ((current.reads.get? n = some .finished ∧ piece = none ∧ c' = c) ∨
        ∃ offset p, (current.reads.get? n).getD (.consumed 0) = .consumed offset ∧
          cell.read (r.resolve column.type) k offset = .ok p ∧ piece = some p ∧
          c' = { c with phase := .active rows (some { current with
            reads := current.reads.insert n
              (if p.truncated then .consumed (offset + p.consumed) else .finished) }) }) := by
  unfold getData at h
  split at h
  · cases h
  next column hcol =>
    split at h
    case h_2 => cases h
    next rows current hphase =>
      split at h
      · cases h
      next cell hcell =>
        refine ⟨column, rows, current, cell, hcol, hphase, hcell, ?_⟩
        split at h
        · next hprogress =>
          obtain ⟨rfl, rfl⟩ := Prod.mk.inj (Except.ok.inj h)
          refine .inl ⟨?_, rfl, rfl⟩
          cases hget : current.reads.get? n with
          | none => simp [hget] at hprogress
          | some progress => simpa [hget] using hprogress
        · next offset hprogress =>
          obtain ⟨p, hread, h⟩ := bind_eq_ok.1 h
          obtain ⟨rfl, rfl⟩ := Prod.mk.inj (Except.ok.inj h)
          exact .inr ⟨offset, p, hprogress, hread, rfl, rfl⟩

theorem fetch_of_next_none {c ended : Cursor} (h : c.next = .ok (none, ended)) :
    c.fetch = (.ok .noData, ended) := by
  simp only [fetch, h]

theorem fetch_of_next_some {c after : Cursor} {row : Row} (h : c.next = .ok (some row, after)) :
    c.fetch = ((after.bindings.refresh row).1.map .row,
      { after with bindings := (after.bindings.refresh row).2 }) := by
  simp only [fetch, h]

theorem after_of_keepsRow (c : Cursor) {call : CursorCall} (h : call.keepsRow = true) :
    ∃ phase bindings, (c.event call).after = { c with phase, bindings } ∧
      (phase = c.phase ∨ ∃ rows current reads, c.phase = .active rows (some current) ∧
        phase = .active rows (some { current with reads })) := by
  cases call with
  | fetch | next | fetchAll | close => simp [CursorCall.keepsRow] at h
  | unbind n => exact ⟨c.phase, _, rfl, .inl rfl⟩
  | unbindAll => exact ⟨c.phase, _, rfl, .inl rfl⟩
  | bind n r k =>
    cases hbind : c.bind n r k with
    | error e => exact ⟨c.phase, c.bindings, by simp only [event, perform, hbind], .inl rfl⟩
    | ok bound =>
      obtain ⟨column, -, rfl⟩ := of_bind_eq_ok hbind
      refine ⟨c.phase, c.bindings.insert n (.fresh (r.resolve column.type) k), ?_, .inl rfl⟩
      simp only [event, perform, hbind]
  | getData n r k =>
    cases hread : c.getData n r k with
    | error fault => exact ⟨c.phase, c.bindings, by simp only [event, perform, hread], .inl rfl⟩
    | ok answer =>
      obtain ⟨piece, after⟩ := answer
      have hafter : (c.event (.getData n r k)).after = after := by simp only [event, perform, hread]
      obtain ⟨column, rows, current, cell, -, hphase, -, h⟩ := of_getData_eq_ok hread
      rcases h with ⟨-, -, rfl⟩ | ⟨offset, p, -, -, -, rfl⟩
      · exact ⟨_, _, hafter, .inl rfl⟩
      · exact ⟨_, _, hafter, .inr ⟨rows, current, _, hphase, rfl⟩⟩

structure SamePlace (c d : Cursor) : Prop where
  columns : d.columns = c.columns
  position : d.position = c.position
  total : d.total = c.total
  pending : d.pending = c.pending
  currentRow : d.currentRow? = c.currentRow?
  isClosed : d.isClosed = c.isClosed
  isExhausted : d.isExhausted = c.isExhausted

theorem SamePlace.refl (c : Cursor) : SamePlace c c := ⟨rfl, rfl, rfl, rfl, rfl, rfl, rfl⟩

theorem SamePlace.trans {a b c : Cursor} (hab : SamePlace a b) (hbc : SamePlace b c) :
    SamePlace a c where
  columns := hbc.columns.trans hab.columns
  position := hbc.position.trans hab.position
  total := hbc.total.trans hab.total
  pending := hbc.pending.trans hab.pending
  currentRow := hbc.currentRow.trans hab.currentRow
  isClosed := hbc.isClosed.trans hab.isClosed
  isExhausted := hbc.isExhausted.trans hab.isExhausted

theorem samePlace_of_keepsRow (c : Cursor) {call : CursorCall} (h : call.keepsRow = true) :
    SamePlace c (c.event call).after := by
  obtain ⟨phase, bindings, hafter, rfl | ⟨rows, current, reads, hphase, rfl⟩⟩ :=
    c.after_of_keepsRow h
  · rw [hafter]
    exact ⟨rfl, rfl, rfl, rfl, rfl, rfl, rfl⟩
  · rw [hafter]
    refine ⟨rfl, rfl, rfl, ?_, ?_, ?_, ?_⟩ <;>
      simp [pending, currentRow?, current?, isClosed, isExhausted, hphase]

theorem samePlace_run (c : Cursor) {calls : List CursorCall}
    (h : ∀ call ∈ calls, call.keepsRow = true) : SamePlace c (c.run calls) :=
  run_induction (fun d _ hkeeps hd => hd.trans (d.samePlace_of_keepsRow hkeeps)) calls h
    (SamePlace.refl c)

theorem of_next_eq_ok {c after : Cursor} {row : Option Row} (h : c.next = .ok (row, after)) :
    (c.phase = .exhausted ∧ row = none ∧ after = c) ∨
    (∃ current, c.phase = .active [] current ∧ row = none ∧
      after = { c with phase := .exhausted, total := some c.position }) ∨
    ∃ first rows, c.pending = first :: rows ∧ row = some first ∧
      after = { c with position := c.position + 1,
                       phase := .active rows (some ⟨first, Keyed.empty⟩) } := by
  unfold next at h
  split at h
  · cases h
  · next hphase =>
    obtain ⟨rfl, rfl⟩ := Prod.mk.inj (Except.ok.inj h)
    exact .inl ⟨hphase, rfl, rfl⟩
  · next current hphase =>
    obtain ⟨rfl, rfl⟩ := Prod.mk.inj (Except.ok.inj h)
    exact .inr (.inl ⟨current, hphase, rfl, rfl⟩)
  · next first rows _ hphase =>
    obtain ⟨rfl, rfl⟩ := Prod.mk.inj (Except.ok.inj h)
    exact .inr (.inr ⟨first, rows, by simp only [pending, hphase], rfl, rfl⟩)

theorem phase_of_next_eq_error {c : Cursor} {e : Error} (h : c.next = .error e) :
    c.phase = .closed ∧ e = .cursorClosed := by
  unfold next at h
  split at h
  · next hphase => exact ⟨hphase, (Except.error.inj h).symm⟩
  all_goals cases h

theorem fetch_cases (c : Cursor) :
    (∃ e, c.fetch = (.error e, c)) ∨ (∃ ended, c.fetch = (.ok .noData, ended)) ∨
    ∃ row rows, c.pending = row :: rows ∧ c.fetch = ((c.bindings.refresh row).1.map .row,
      { c with position := c.position + 1, phase := .active rows (some ⟨row, Keyed.empty⟩),
               bindings := (c.bindings.refresh row).2 }) := by
  cases hnext : c.next with
  | error e => exact .inl ⟨e, by simp only [fetch, hnext]⟩
  | ok answer =>
    obtain ⟨row, after⟩ := answer
    obtain ⟨-, rfl, -⟩ | ⟨_, -, rfl, -⟩ | ⟨first, rows, hrows, rfl, rfl⟩ := of_next_eq_ok hnext
    · exact .inr (.inl ⟨after, fetch_of_next_none hnext⟩)
    · exact .inr (.inl ⟨after, fetch_of_next_none hnext⟩)
    · exact .inr (.inr ⟨first, rows, hrows, fetch_of_next_some hnext⟩)

theorem after_of_advances (c : Cursor) {call : CursorCall} (h : call.advances = true) :
    ((c.phase = .closed ∨ c.phase = .exhausted) ∧ (c.event call).after = c) ∨
    (∃ rows current, c.phase = .active rows current ∧
      (c.event call).after = { c with position := c.position + rows.length,
                                      total := some (c.position + rows.length),
                                      phase := .exhausted }) ∨
    ∃ row rows bindings, c.pending = row :: rows ∧ bindings.forms = c.bindings.forms ∧
      (c.event call).after = { c with position := c.position + 1,
                                      phase := .active rows (some ⟨row, Keyed.empty⟩), bindings } := by
  cases call with
  | bind | unbind | unbindAll | getData | close => simp [CursorCall.advances] at h
  | next =>
    cases hnext : c.next with
    | error e =>
      have hphase := (phase_of_next_eq_error hnext).1
      exact .inl ⟨.inl hphase, by simp only [event, perform, hnext]⟩
    | ok answer =>
      obtain ⟨row, after⟩ := answer
      have hafter : (c.event .next).after = after := by simp only [event, perform, hnext]
      obtain ⟨hphase, -, rfl⟩ | ⟨current, hphase, -, rfl⟩ | ⟨first, rows, hrows, -, rfl⟩ :=
        of_next_eq_ok hnext
      · exact .inl ⟨.inr hphase, hafter⟩
      · exact .inr (.inl ⟨[], current, hphase, hafter⟩)
      · exact .inr (.inr ⟨first, rows, _, hrows, rfl, hafter⟩)
  | fetch =>
    cases hnext : c.next with
    | error e =>
      have hphase := (phase_of_next_eq_error hnext).1
      exact .inl ⟨.inl hphase, by simp only [event, perform, fetch, hnext]⟩
    | ok answer =>
      obtain ⟨row, after⟩ := answer
      obtain ⟨hphase, rfl, rfl⟩ | ⟨current, hphase, rfl, rfl⟩ | ⟨first, rows, hrows, rfl, rfl⟩ :=
        of_next_eq_ok hnext
      · exact .inl ⟨.inr hphase, by simp only [event, perform, fetch_of_next_none hnext]⟩
      · refine .inr (.inl ⟨[], current, hphase, ?_⟩)
        simp only [event, perform, fetch_of_next_none hnext]
        rfl
      · refine .inr (.inr ⟨first, rows, _, hrows, c.bindings.forms_refresh first, ?_⟩)
        simp only [event, perform, fetch_of_next_some hnext]
        -- whether every buffer takes its cell is not asked for the place of the cursor
        cases (c.bindings.refresh first).1 <;> rfl
  | fetchAll =>
    cases hphase : c.phase with
    | closed => exact .inl ⟨.inl rfl, by simp only [event, perform, fetchAll, hphase]⟩
    | exhausted => exact .inl ⟨.inr rfl, by simp only [event, perform, fetchAll, hphase]⟩
    | active rows current =>
      refine .inr (.inl ⟨rows, current, rfl, ?_⟩)
      simp only [event, perform, fetchAll, hphase]

theorem columns_of_event (c : Cursor) (call : CursorCall) :
    (c.event call).after.columns = c.columns := by
  obtain hkeeps | hadvances | rfl := call.keepsRow_or_advances
  · exact (c.samePlace_of_keepsRow hkeeps).columns
  · obtain ⟨-, h⟩ | ⟨_, _, -, h⟩ | ⟨_, _, _, -, -, h⟩ := c.after_of_advances hadvances <;> rw [h]
  · rfl

theorem rows_of_event (c : Cursor) (call : CursorCall) :
    (∀ row ∈ (c.event call).after.pending, row ∈ c.pending) ∧
      ∀ row ∈ (c.event call).after.currentRow?, row ∈ c.pending ∨ row ∈ c.currentRow? := by
  obtain hkeeps | hadvances | rfl := call.keepsRow_or_advances
  · have hplace := c.samePlace_of_keepsRow hkeeps
    rw [hplace.pending, hplace.currentRow]
    exact ⟨fun _ h => h, fun _ h => .inr h⟩
  · obtain ⟨-, h⟩ | ⟨_, _, -, h⟩ | ⟨row, rows, bindings, hrows, -, h⟩ :=
      c.after_of_advances hadvances
    · rw [h]
      exact ⟨fun _ h => h, fun _ h => .inr h⟩
    · rw [h]
      exact ⟨fun _ hrow => (by cases hrow), fun _ hrow => (by cases hrow)⟩
    · rw [h, hrows]
      refine ⟨fun _ h => List.mem_cons_of_mem _ h, fun other hother => .inl ?_⟩
      obtain rfl : row = other := Option.some.inj hother
      exact List.mem_cons_self ..
  · exact ⟨fun _ hrow => (by cases hrow), fun _ hrow => (by cases hrow)⟩

theorem forms_of_event (c : Cursor) (call : CursorCall) :
    ∀ x ∈ (c.event call).after.bindings.forms, x ∈ c.bindings.forms ∨
      ∃ n r k column, call = .bind n r k ∧ c.column n = .ok column ∧ x.1 = n ∧
        x.2.1 = r.resolve column.type := by
  intro x hx
  by_cases hadvances : call.advances = true
  · obtain ⟨-, h⟩ | ⟨_, _, -, h⟩ | ⟨_, _, _, -, hforms, h⟩ := c.after_of_advances hadvances <;>
      rw [h] at hx
    · exact .inl hx
    · exact .inl hx
    · exact .inl (hforms ▸ hx)
  cases call with
  | fetch | next | fetchAll => exact absurd rfl hadvances
  | unbind n => exact .inl (Bindings.mem_forms_erase hx)
  | unbindAll => cases hx
  | close => cases hx
  | bind n r k =>
    cases hbind : c.bind n r k with
    | error e =>
      simp only [event, perform, hbind] at hx
      exact .inl hx
    | ok bound =>
      obtain ⟨column, hcolumn, rfl⟩ := of_bind_eq_ok hbind
      simp only [event, perform, hbind] at hx
      obtain rfl | hx := Bindings.mem_forms_insert hx
      · exact .inr ⟨n, r, k, column, rfl, hcolumn, rfl, rfl⟩
      · exact .inl hx
  | getData n r k =>
    cases hread : c.getData n r k with
    | error fault =>
      simp only [event, perform, hread] at hx
      exact .inl hx
    | ok answer =>
      obtain ⟨piece, after⟩ := answer
      obtain ⟨_, _, _, _, -, -, -, ⟨-, -, rfl⟩ | ⟨_, _, -, -, -, rfl⟩⟩ := of_getData_eq_ok hread <;>
        simp only [event, perform, hread] at hx <;> exact .inl hx

end Cursor
end CacheCatalog
