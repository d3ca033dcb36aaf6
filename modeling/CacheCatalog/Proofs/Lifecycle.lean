import CacheCatalog.Proofs.Delivery
import CacheCatalog.Proofs.Reading

/-! What a cursor is at every moment. It stands between the rows it has fetched and the rows that are
left, its phase only goes on, and what it knows of their number, of its buffers and of what has been
read agrees with that; once closed it refuses or ignores whatever is asked. -/
namespace CacheCatalog

structure RowBounds where
  lower : Nat
  upper : Option Nat
  deriving DecidableEq, Repr

namespace RowBounds

def Admit (b : RowBounds) (count : Nat) : Prop := b.lower ≤ count ∧ ∀ n ∈ b.upper, count ≤ n

def count? (b : RowBounds) : Option Nat := if b.upper = some b.lower then some b.lower else none

/-- The bounds of counted rows, and of rows that are picked out of a list of them. -/
def ofRows (rows : List Row) (sized : Bool) : RowBounds :=
  ⟨if sized then rows.length else 0, some rows.length⟩

theorem count?_of_admit {b : RowBounds} {count : Nat} (h : b.Admit count) :
    b.count? = if b.upper = some b.lower then some count else none := by
  obtain ⟨hlower, hupper⟩ := h
  unfold count?
  split
  · next hmeet =>
    have hle : count ≤ b.lower := hupper _ hmeet
    rw [Nat.le_antisymm hlower hle]
  · rfl

end RowBounds

inductive Phase.Follows : Phase → Phase → Prop
  | active (pending pending' : List Row) (current current' : Option CurrentRow) :
    Follows (.active pending current) (.active pending' current')
  | runsOut (pending : List Row) (current : Option CurrentRow) :
    Follows (.active pending current) .exhausted
  | exhausted : Follows .exhausted .exhausted
  | closes (phase : Phase) : Follows phase .closed

namespace Phase

theorem Follows.refl (p : Phase) : p.Follows p := by
  cases p with
  | active pending current => exact .active pending pending current current
  | exhausted => exact .exhausted
  | closed => exact .closes .closed

theorem Follows.trans {p q r : Phase} (hpq : p.Follows q) (hqr : q.Follows r) : p.Follows r := by
  cases hqr with
  | active => cases hpq with | active => exact .active ..
  | runsOut => cases hpq with | active => exact .runsOut ..
  | exhausted => exact hpq
  | closes => exact .closes p

end Phase

def CursorCall.needsOpen : CursorCall → Bool
  | unbind _ | unbindAll | close => false
  | _ => true

namespace Cursor

def ofBounded (columns : List Column) (rows : List Row) (bounds : RowBounds) : Cursor :=
  ⟨columns, 0, bounds.count?, .active rows none, Keyed.empty⟩

theorem ofRows_eq_ofBounded (columns : List Column) (rows : List Row) (sized : Bool) :
    ofRows columns rows sized = ofBounded columns rows (.ofRows rows sized) := by
  have hcount : announced rows sized = (RowBounds.ofRows rows sized).count? := by
    cases sized <;> cases rows <;> simp [announced, RowBounds.ofRows, RowBounds.count?]
  rw [ofRows, hcount, ofBounded]

theorem active_of_pending_cons {c : Cursor} {row : Row} {rows : List Row}
    (h : c.pending = row :: rows) : ∃ current, c.phase = .active (row :: rows) current := by
  unfold pending at h
  cases hphase : c.phase with
  | active left current =>
    simp only [hphase] at h
    exact ⟨current, by rw [h]⟩
  | exhausted | closed => simp only [hphase] at h; cases h

theorem follows_event (c : Cursor) (call : CursorCall) :
    c.phase.Follows (c.event call).after.phase ∧ c.position ≤ (c.event call).after.position := by
  obtain hkeeps | hadvances | rfl := call.keepsRow_or_advances
  · refine ⟨?_, Nat.le_of_eq (c.samePlace_of_keepsRow hkeeps).position.symm⟩
    obtain ⟨phase, bindings, hafter, rfl | ⟨rows, current, reads, hphase, rfl⟩⟩ :=
      c.after_of_keepsRow hkeeps
    · rw [hafter]
      exact .refl c.phase
    · rw [hafter, hphase]
      exact .active ..
  · obtain ⟨-, hafter⟩ | ⟨rows, current, hphase, hafter⟩ | ⟨row, rows, bindings, hrows, -, hafter⟩ :=
      c.after_of_advances hadvances
    · rw [hafter]
      exact ⟨.refl c.phase, Nat.le_refl _⟩
    · rw [hafter, hphase]
      exact ⟨.runsOut rows current, Nat.le_add_right ..⟩
    · obtain ⟨current, hphase⟩ := active_of_pending_cons hrows
      rw [hafter, hphase]
      exact ⟨.active .., Nat.le_succ _⟩
  · exact ⟨.closes c.phase, Nat.le_refl _⟩

theorem follows_run (c : Cursor) (calls : List CursorCall) :
    c.phase.Follows (c.run calls).phase ∧ c.position ≤ (c.run calls).position := by
  refine run_invariant (P := fun d => c.phase.Follows d.phase ∧ c.position ≤ d.position)
    (fun d call hd => ?_) calls ⟨.refl c.phase, Nat.le_refl _⟩
  obtain ⟨hphase, hposition⟩ := d.follows_event call
  exact ⟨hd.1.trans hphase, Nat.le_trans hd.2 hposition⟩

/-! What is bound and what has been read -/

def BoundInRange (c : Cursor) : Prop := ∀ n ∈ c.bindings.keys, 1 ≤ n ∧ n ≤ c.columns.length

def ReadInRow (c : Cursor) : Prop := ∀ n, c.progress? n ≠ none →
  1 ≤ n ∧ n ≤ c.columns.length ∧ ∃ row, c.currentRow? = some row ∧ n ≤ row.length

theorem column_in_range {c : Cursor} {n : Nat} {column : Column} (h : c.column n = .ok column) :
    1 ≤ n ∧ n ≤ c.columns.length :=
  Column.exists_atOrdinal_iff.1 ⟨column, column_eq_ok h⟩

theorem BoundInRange.event {c : Cursor} (h : c.BoundInRange) (call : CursorCall) :
    (c.event call).after.BoundInRange := by
  have hkeys (bs : Bindings) : bs.keys = bs.forms.map Prod.fst := by
    simp [Keyed.keys, Bindings.forms]
  intro n hn
  rw [hkeys] at hn
  obtain ⟨x, hx, rfl⟩ := List.mem_map.1 hn
  rw [c.columns_of_event call]
  obtain hx | ⟨n, r, k, column, -, hcolumn, hn, -⟩ := c.forms_of_event call x hx
  · apply h
    rw [hkeys]
    exact List.mem_map_of_mem hx
  · rw [hn]
    exact column_in_range hcolumn

theorem BoundInRange.run {c : Cursor} (h : c.BoundInRange) (calls : List CursorCall) :
    (c.run calls).BoundInRange :=
  run_invariant (fun _ call hc => hc.event call) calls h

theorem ReadInRow.event {c : Cursor} (h : c.ReadInRow) (call : CursorCall) :
    (c.event call).after.ReadInRow := by
  intro n hread
  rw [c.columns_of_event call]
  -- all calls but those that keep the row forget what has been read
  obtain hkeeps | hadvances | rfl := call.keepsRow_or_advances
  · rw [(c.samePlace_of_keepsRow hkeeps).currentRow]
    cases hpiece : (c.event call).pieceOf n with
    | none =>
      rw [progress?_of_pieceOf_none hkeeps hpiece] at hread
      exact h n hread
    | some x =>
      obtain ⟨t, cell, _, _, htarget, hcell, -⟩ := of_pieceOf_eq_some hpiece
      obtain ⟨column, hcolumn, -⟩ := of_target?_eq_some htarget
      obtain ⟨hfirst, hlast⟩ := column_in_range hcolumn
      obtain ⟨rows, current, hphase, hcell⟩ := of_cellAt_eq_some hcell
      have hlt : n - 1 < current.row.length := (List.getElem?_eq_some_iff.1 hcell).1
      refine ⟨hfirst, hlast, current.row, ?_, by omega⟩
      simp only [currentRow?, current?, hphase, Option.map_some]
  · exact absurd (c.progress?_of_advances hadvances n) hread
  · exact absurd rfl hread

/-! The place among the rows -/

structure Placed (rows : List Row) (announced : Option Nat) (c : Cursor) : Prop where
  position : c.position ≤ rows.length
  active : c.isClosed = false → c.isExhausted = false →
    c.total = announced ∧ c.pending = rows.drop c.position ∧
      c.currentRow? = if c.position = 0 then none else rows[c.position - 1]?
  exhausted : c.isExhausted = true →
    c.position = rows.length ∧ c.total = some rows.length ∧ c.currentRow? = none

section Placed
variable {rows : List Row} {announced : Option Nat} {c : Cursor}

theorem Placed.of_samePlace {d : Cursor} (h : Placed rows announced c) (hplace : SamePlace c d) :
    Placed rows announced d := by
  refine ⟨?_, ?_, ?_⟩
  · rw [hplace.position]
    exact h.position
  · rw [hplace.isClosed, hplace.isExhausted, hplace.total, hplace.pending, hplace.position,
      hplace.currentRow]
    exact h.active
  · rw [hplace.isExhausted, hplace.position, hplace.total, hplace.currentRow]
    exact h.exhausted

theorem Placed.pending_of_active (h : Placed rows announced c) {left : List Row}
    {current : Option CurrentRow} (hphase : c.phase = .active left current) :
    c.total = announced ∧ left = rows.drop c.position := by
  have hopen : c.isClosed = false := by simp [isClosed, hphase]
  have hmore : c.isExhausted = false := by simp [isExhausted, hphase]
  obtain ⟨htotal, hpending, -⟩ := h.active hopen hmore
  exact ⟨htotal, by simpa only [pending, hphase] using hpending⟩

theorem Placed.of_advances (h : Placed rows announced c) {call : CursorCall}
    (hadvances : call.advances = true) : Placed rows announced (c.event call).after := by
  obtain ⟨-, hafter⟩ | ⟨left, current, hphase, hafter⟩ | ⟨row, left, bindings, hrows, -, hafter⟩ :=
    c.after_of_advances hadvances
  · rw [hafter]
    exact h
  · -- all rows that were left have been taken
    have hend : c.position + left.length = rows.length := by
      rw [(h.pending_of_active hphase).2, List.length_drop]
      exact Nat.add_sub_cancel' h.position
    rw [hafter]
    exact ⟨Nat.le_of_eq hend, fun _ hmore => (by cases hmore),
      fun _ => ⟨hend, congrArg some hend, rfl⟩⟩
  · obtain ⟨current, hphase⟩ := active_of_pending_cons hrows
    obtain ⟨htotal, hdrop⟩ := h.pending_of_active hphase
    -- a row is left, so not all of them have been counted
    have hlt : c.position < rows.length := by
      have hlength := congrArg List.length hdrop
      rw [List.length_cons, List.length_drop] at hlength
      omega
    rw [List.drop_eq_getElem_cons hlt] at hdrop
    obtain ⟨rfl, rfl⟩ := List.cons.inj hdrop
    rw [hafter]
    refine ⟨hlt, fun _ _ => ⟨htotal, rfl, ?_⟩, fun hend => (by cases hend)⟩
    simp [currentRow?, current?, hlt]

theorem Placed.event (h : Placed rows announced c) (call : CursorCall) :
    Placed rows announced (c.event call).after := by
  obtain hkeeps | hadvances | rfl := call.keepsRow_or_advances
  · exact h.of_samePlace (c.samePlace_of_keepsRow hkeeps)
  · exact h.of_advances hadvances
  · exact ⟨h.position, fun hopen => (by cases hopen), fun hend => (by cases hend)⟩

theorem Placed.pending_of_hasMore_false (h : Placed rows announced c)
    (hannounced : ∀ n ∈ announced, n = rows.length) (hmore : c.hasMore = false) : c.pending = [] := by
  cases hphase : c.phase with
  | exhausted | closed => simp only [pending, hphase]
  | active left current =>
    obtain ⟨htotal, hleft⟩ := h.pending_of_active hphase
    simp only [hasMore, hphase, htotal] at hmore
    cases announced with
    | none => cases hmore
    | some n =>
      obtain rfl := hannounced n rfl
      have hend : rows.length ≤ c.position := by simpa using hmore
      simp only [pending, hphase, hleft]
      exact List.drop_eq_nil_of_le hend

theorem Placed.hasMore_iff (h : Placed rows (some rows.length) c) :
    c.hasMore = true ↔ ∃ row after, c.next = .ok (some row, after) := by
  constructor
  · intro hmore
    cases hphase : c.phase with
    | exhausted | closed => simp [hasMore, hphase] at hmore
    | active left current =>
      obtain ⟨htotal, hleft⟩ := h.pending_of_active hphase
      have hlt : c.position < rows.length := by simpa [hasMore, hphase, htotal] using hmore
      have hpending : c.pending = rows[c.position] :: rows.drop (c.position + 1) := by
        rw [← List.drop_eq_getElem_cons hlt, ← hleft]
        simp only [pending, hphase]
      exact ⟨_, _, next_of_pending_cons hpending⟩
  · rintro ⟨row, after, hnext⟩
    obtain ⟨-, hrow, -⟩ | ⟨_, -, hrow, -⟩ | ⟨first, left, hrows, -, -⟩ := of_next_eq_ok hnext
    · cases hrow
    · cases hrow
    · rw [← Bool.not_eq_false]
      intro hmore
      have hnone := h.pending_of_hasMore_false (fun n hn => (Option.some.inj hn).symm) hmore
      rw [hrows] at hnone
      cases hnone

end Placed

theorem event_of_closed {c : Cursor} (hphase : c.phase = .closed)
    (hbindings : c.bindings = Keyed.empty) (call : CursorCall) : (c.event call).after = c ∧
      (call.needsOpen = true → (c.event call).reply = .error (.refused .cursorClosed)) := by
  have hcolumn (n : Nat) : c.column n = .error .cursorClosed := by simp only [column, hphase]
  have hnext : c.next = .error .cursorClosed := by simp only [next, hphase]
  obtain ⟨columns, position, total, phase, bindings⟩ := c
  subst hphase hbindings
  cases call with
  | unbind n => exact ⟨rfl, fun h => (by cases h)⟩
  | unbindAll => exact ⟨rfl, fun h => (by cases h)⟩
  | close => exact ⟨rfl, fun h => (by cases h)⟩
  | bind n r k =>
    have hbind : bind ⟨columns, position, total, .closed, Keyed.empty⟩ n r k =
        .error .cursorClosed := by rw [bind, hcolumn]; rfl
    simp only [event, perform, hbind, implies_true, and_self]
  | getData n r k =>
    have hread : getData ⟨columns, position, total, .closed, Keyed.empty⟩ n r k =
        .error (.refused .cursorClosed) := by rw [getData, hcolumn]
    simp only [event, perform, hread, implies_true, and_self]
  | fetch => simp only [event, perform, fetch, hnext, implies_true, and_self]
  | next => simp only [event, perform, hnext, implies_true, and_self]
  | fetchAll => simp only [event, perform, fetchAll, implies_true, and_self]

structure Sound (columns : List Column) (rows : List Row) (announced : Option Nat) (c : Cursor) :
    Prop extends Placed rows announced c where
  columns : c.columns = columns
  closed : c.isClosed = true → c.currentRow? = none ∧ c.bindings = Keyed.empty
  bound : c.BoundInRange
  read : c.ReadInRow

section Sound
variable {columns : List Column} {rows : List Row} {announced : Option Nat} {c : Cursor}

theorem sound_ofBounded (columns : List Column) (rows : List Row) (bounds : RowBounds) :
    Sound columns rows bounds.count? (ofBounded columns rows bounds) where
  position := Nat.zero_le _
  active _ _ := ⟨rfl, rfl, rfl⟩
  exhausted h := by cases h
  columns := rfl
  closed h := by cases h
  bound _ h := by cases h
  read _ h := absurd rfl h

theorem Sound.event_of_isClosed (h : Sound columns rows announced c) (hclosed : c.isClosed = true)
    (call : CursorCall) : (c.event call).after = c ∧
      (call.needsOpen = true → (c.event call).reply = .error (.refused .cursorClosed)) := by
  have hphase : c.phase = .closed := by simpa [isClosed] using hclosed
  exact event_of_closed hphase (h.closed hclosed).2 call

theorem Sound.event (h : Sound columns rows announced c) (call : CursorCall) :
    Sound columns rows announced (c.event call).after := by
  refine ⟨h.toPlaced.event call, (c.columns_of_event call).trans h.columns, ?_, h.bound.event call,
    h.read.event call⟩
  intro hclosed
  cases hopen : c.isClosed with
  | true =>
    rw [(h.event_of_isClosed hopen call).1]
    exact h.closed hopen
  | false =>
    -- only a close closes, and it drops the buffers
    obtain hkeeps | hadvances | rfl := call.keepsRow_or_advances
    · rw [(c.samePlace_of_keepsRow hkeeps).isClosed, hopen] at hclosed
      cases hclosed
    · have hcall : call ≠ .close := by
        rintro rfl
        cases hadvances
      rw [(event_delivers hopen hcall).2.2.2] at hclosed
      cases hclosed
    · exact ⟨rfl, rfl⟩

theorem Sound.run (h : Sound columns rows announced c) (calls : List CursorCall) :
    Sound columns rows announced (c.run calls) :=
  run_invariant (fun _ call hc => hc.event call) calls h

/-- Over rows whose number is known within bounds, after any calls: the position counts the fetched
rows, the current row is the last of them, the total is known from the start where the bounds meet and
else from the end on, and buffers and marks belong to columns that are there. The phase and the
position only go on, a close keeps the place, and a closed cursor changes no more. Where no more rows
are hoped for, none come; where they are counted, hope is never in vain. -/
theorem state_accounts_for_rows (columns : List Column) (rows : List Row) (bounds : RowBounds)
    (hbounds : bounds.Admit rows.length) (calls : List CursorCall) :
    let c := (ofBounded columns rows bounds).run calls
    Sound columns rows (if bounds.upper = some bounds.lower then some rows.length else none) c ∧
    (∀ later, c.phase.Follows (c.run later).phase ∧ c.position ≤ (c.run later).position) ∧
    ((c.event .close).after.isClosed = true ∧ (c.event .close).after.position = c.position ∧
      (c.event .close).after.total = c.total) ∧
    (c.isClosed = true → ∀ call, (c.event call).after = c ∧
      (call.needsOpen = true → (c.event call).reply = .error (.refused .cursorClosed))) ∧
    (c.hasMore = false → ∀ later, deliveredRows (c.trace later) = []) ∧
    (bounds.upper = some bounds.lower →
      (c.hasMore = true ↔ ∃ row after, c.next = .ok (some row, after))) ∧
    ∀ sized, ofRows columns rows sized = ofBounded columns rows (.ofRows rows sized) := by
  intro c
  have hsound : Sound columns rows
      (if bounds.upper = some bounds.lower then some rows.length else none) c := by
    rw [← RowBounds.count?_of_admit hbounds]
    exact (sound_ofBounded columns rows bounds).run calls
  refine ⟨hsound, c.follows_run, ⟨rfl, rfl, rfl⟩, hsound.event_of_isClosed, ?_, ?_,
    ofRows_eq_ofBounded columns rows⟩
  · intro hmore later
    have hannounced : ∀ n ∈ if bounds.upper = some bounds.lower then some rows.length else none,
        n = rows.length := by
      intro n hn
      split at hn
      · exact (Option.some.inj hn).symm
      · cases hn
    have hnone := hsound.pending_of_hasMore_false hannounced hmore
    rw [List.eq_nil_iff_forall_not_mem]
    intro row hrow
    have hpending := mem_pending_of_mem_deliveredRows hrow
    rw [hnone] at hpending
    cases hpending
  · intro hmeet
    rw [if_pos hmeet] at hsound
    exact hsound.hasMore_iff

theorem state_accounts_for_uncounted_rows :
    let columns : List Column := [⟨1, "C", ⟨"", ""⟩, .string, {}, 1⟩]
    let rows : List Row := [[.text "x"], [.null]]
    let fetched := (ofBounded columns rows ⟨0, some 2⟩).run
      [.bind 1 (.exact (.integer .short)) 0, .fetch, .getData 1 .byColumn 1]
    RowBounds.Admit ⟨0, some 2⟩ rows.length ∧
    fetched.total = none ∧ fetched.currentRow? = some [.text "x"] ∧
    (fetched.run [.fetchAll]).total = some 2 := by
  intro columns rows fetched
  have hbounds : RowBounds.Admit ⟨0, some 2⟩ rows.length := ⟨Nat.zero_le _, by decide⟩
  have hsound := (state_accounts_for_rows columns rows ⟨0, some 2⟩ hbounds
    [.bind 1 (.exact (.integer .short)) 0, .fetch, .getData 1 .byColumn 1]).1
  have hdrained := (state_accounts_for_rows columns rows ⟨0, some 2⟩ hbounds
    [.bind 1 (.exact (.integer .short)) 0, .fetch, .getData 1 .byColumn 1, .fetchAll]).1
  obtain ⟨htotal, -, hcurrent⟩ := hsound.active (by decide +kernel) (by decide +kernel)
  have hposition : fetched.position = 1 := by decide +kernel
  refine ⟨hbounds, htotal, ?_, (hdrained.exhausted (by decide +kernel)).2.1⟩
  rw [hcurrent, hposition]
  rfl

theorem total_known_before_end :
    ¬ ∀ (columns : List Column) (rows : List Row) (calls : List CursorCall),
      let c := (ofRows columns rows false).run calls
      c.isClosed = false → c.isExhausted = false → c.total = none := by
  intro h
  have hnone : (ofRows [] [] false).total = none := h [] [] [] rfl rfl
  cases hnone

end Sound
end Cursor
end CacheCatalog
