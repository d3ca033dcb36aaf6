import CacheCatalog.Proofs.Conversions
import CacheCatalog.Proofs.Requests

/-! Where a reading breaks off. Only UTF-8 cannot be read from every byte on, and the mark of a column
is at a character of it as long as nobody reads the column in UTF-16: the bytes that a piece of that has
taken are counted from there on as if they were bytes of UTF-8. -/
namespace CacheCatalog
open Text
open Progress (Marks)

namespace Content

/-- Whether a text can be read from a byte on: a character begins there, or none comes any more. -/
def Boundary (cs : List (List UInt8)) (n : Nat) : Prop :=
  size cs ≤ n ∨ ∃ done left, cs = done ++ left ∧ n = size done

theorem boundary_zero (cs : List (List UInt8)) : Boundary cs 0 := .inr ⟨[], cs, rfl, rfl⟩

theorem boundary_cons {c : List UInt8} {cs : List (List UInt8)} {n : Nat} (hn : 0 < n) :
    Boundary (c :: cs) n ↔ c.length ≤ n ∧ Boundary cs (n - c.length) := by
  unfold Boundary
  rw [size_cons]
  constructor
  · rintro (hbeyond | ⟨done, left, hsplit, rfl⟩)
    · exact ⟨by omega, .inl (by omega)⟩
    · cases done with
      | nil => exact absurd hn (Nat.lt_irrefl 0)
      | cons d done =>
        obtain ⟨rfl, rfl⟩ := List.cons.inj hsplit
        rw [size_cons]
        exact ⟨Nat.le_add_right .., .inr ⟨done, left, rfl, Nat.add_sub_cancel_left ..⟩⟩
  · rintro ⟨hfirst, hbeyond | ⟨done, left, rfl, hdone⟩⟩
    · exact .inl (by omega)
    · refine .inr ⟨c :: done, left, rfl, ?_⟩
      rw [size_cons]
      omega

theorem skipText_utf8_eq_none_iff {cs : List (List UInt8)} (hcs : ∀ c ∈ cs, 0 < c.length) {n : Nat} :
    skipText .utf8 n cs = none ↔ ¬ Boundary cs n := by
  induction cs generalizing n with
  | nil => simp [skipText, Boundary, size]
  | cons c cs ih =>
    rw [List.forall_mem_cons] at hcs
    rcases Nat.eq_zero_or_pos n with rfl | hn
    · simp [skipText, boundary_zero]
    · rw [boundary_cons hn]
      by_cases hfirst : c.length ≤ n
      · rw [skipText_cons hcs.1 hfirst, ih hcs.2]
        simp only [hfirst, true_and]
      · have hnone : skipText .utf8 n (c :: cs) = none := by
          rw [skipText, if_neg hfirst]
          exact Nat.ne_of_gt hn
        simp only [hnone, hfirst, false_and, not_false_eq_true]

theorem skipText_utf16le_ne_none (n : Nat) (cs : List (List UInt8)) :
    skipText .utf16le n cs ≠ none := by
  induction cs generalizing n with
  | nil => simp [skipText]
  | cons c cs ih =>
    cases n with
    | zero => simp [skipText]
    | succ n =>
      rw [skipText]
      · split
        · exact ih (n + 1 - c.length)
        · exact Option.some_ne_none _
      · exact Nat.succ_ne_zero n

end Content

theorem TargetRequest.eq_code_of_ofCode {code : Int} {r : TargetRequest} (h : ofCode code = .ok r) :
    code = r.code := by
  unfold ofCode at h
  split at h <;> first | obtain rfl := Except.ok.inj h; rfl | cases h

theorem TargetRequest.eq_of_resolve_utf16le {r : TargetRequest} {type : FieldType}
    (h : r.resolve type = .text .utf16le) : r = .exact (.text .utf16le) := by
  cases r with
  | exact t => exact congrArg exact h
  | byColumn => cases type <;> cases h

namespace Cell
variable {cell : Cell}

theorem content_integer_cases {w : IntegerWidth} {content : Content}
    (h : cell.content (.integer w) = .ok content) :
    content = .null ∨ ∃ bs, content = .fixed bs := by
  obtain ⟨-, hnull⟩ | ⟨-, _, hform, -⟩ | ⟨_, _, -, -, -, hfixed⟩ := content_cases h
  · exact .inl hnull
  · cases hform
  · exact .inr ⟨_, hfixed⟩

theorem truncated_of_read_integer {w : IntegerWidth} {k offset : Nat} {p : Piece}
    (h : cell.read (.integer w) k offset = .ok p) : p.truncated = false := by
  unfold read at h
  split at h
  · cases h
  next content hcontent =>
    obtain rfl | ⟨bs, rfl⟩ := content_integer_cases hcontent <;>
      obtain rfl := Except.ok.inj h <;> rfl

theorem read_integer_ne_split (w : IntegerWidth) (k offset : Nat) :
    cell.read (.integer w) k offset ≠ .error .splitCharacter := by
  unfold read
  split
  · simp
  next content hcontent =>
    obtain rfl | ⟨bs, rfl⟩ := content_integer_cases hcontent <;> simp [Content.skip]

theorem read_text_eq_split_iff (hcell : cell ≠ .null) {e : Encoding} {k offset : Nat} :
    cell.read (.text e) k offset = .error .splitCharacter ↔
      Content.skipText e (offset / e.unit * e.unit) (e.characters cell.display) = none := by
  simp only [read, content_text hcell, Content.skip]
  cases Content.skipText e (offset / e.unit * e.unit) (e.characters cell.display) <;> simp

theorem read_eq_split_iff {t : Target} {k offset : Nat} :
    cell.read t k offset = .error .splitCharacter ↔ t = .text .utf8 ∧ cell ≠ .null ∧
      ¬ Content.Boundary (Encoding.utf8.characters cell.display) offset := by
  have hchars : ∀ c ∈ Encoding.utf8.characters cell.display, 0 < c.length :=
    fun c hc => (mem_characters hc).2.1
  rw [← Content.skipText_utf8_eq_none_iff hchars]
  by_cases hcell : cell = .null
  · subst hcell
    simp [read, content, Content.skip]
  cases t with
  | integer w => simp [read_integer_ne_split]
  | text e =>
    cases e with
    | utf8 => simp [read_text_eq_split_iff hcell, hcell, Encoding.unit]
    | utf16le => simp [read_text_eq_split_iff hcell, Content.skipText_utf16le_ne_none]

end Cell

theorem Call.of_getData_mem_onCursor {call : Call} {n k : Nat} {r : TargetRequest}
    (h : .getData n r k ∈ call.onCursor) :
    ∃ target, call = .getData n target k ∧ TargetRequest.ofCode target = .ok r := by
  cases call with
  | columnCount | describeColumn | columnAttribute | attributeText => cases h
  | fetch | moreResults | closeCursor | unbind | close | takeCursor => simp [onCursor] at h
  | bind m target capacity => cases hcode : TargetRequest.ofCode target <;> simp [onCursor, hcode] at h
  | getData m target capacity =>
    cases hcode : TargetRequest.ofCode target with
    | error e => simp [onCursor, hcode] at h
    | ok request =>
      simp only [onCursor, hcode, List.mem_singleton] at h
      obtain ⟨rfl, rfl, rfl⟩ := CursorCall.getData.inj h
      exact ⟨target, rfl, hcode⟩

theorem CursorEvent.call_of_pieceOf {n : Nat} {event : CursorEvent} {r : TargetRequest} {p : Piece}
    (h : event.pieceOf n = some (r, p)) : ∃ k, event.call = .getData n r k := by
  unfold pieceOf at h
  split at h
  · next m s k q hcall _ =>
    obtain ⟨rfl, hsome⟩ := Option.ite_none_right_eq_some.1 h
    obtain ⟨rfl, -⟩ := Prod.mk.inj (Option.some.inj hsome)
    exact ⟨k, hcall⟩
  · cases h

namespace Cursor

structure Splits (c : Cursor) (n : Nat) (r : TargetRequest) (cell : Cell) (offset : Nat) : Prop where
  target : c.target? n r = some (.text .utf8)
  cellAt : c.cellAt n = some cell
  notNull : cell ≠ .null
  progress : c.progress? n = some (.consumed offset)
  inside : ¬ Content.Boundary (Encoding.utf8.characters cell.display) offset

theorem getData_eq_split_iff {c : Cursor} {n k : Nat} {r : TargetRequest} :
    c.getData n r k = .error .splitCharacter ↔ ∃ cell offset, c.Splits n r cell offset := by
  constructor
  · intro h
    unfold getData at h
    split at h
    · cases h
    next column hcol =>
      split at h
      case h_2 => cases h
      next rows current hphase =>
        split at h
        · cases h
        next cell hcell =>
          split at h
          · cases h
          next offset hoffset =>
            have hread : cell.read (r.resolve column.type) k offset = .error .splitCharacter := by
              cases hread : cell.read (r.resolve column.type) k offset with
              | error fault =>
                rw [hread] at h
                exact congrArg Except.error (Except.error.inj h)
              | ok p =>
                rw [hread] at h
                cases h
            obtain ⟨htarget, hnull, hinside⟩ := Cell.read_eq_split_iff.1 hread
            refine ⟨cell, offset, ?_, ?_, hnull, ?_, hinside⟩
            · rw [target?_of_column hcol, htarget]
            · rw [cellAt_of_column hcol hphase, hcell]
            · -- what was not read before is read from its start, where a character begins
              have hprogress : c.progress? n = current.reads.get? n := by
                simp only [progress?, current?, hphase, Option.bind_some]
              rw [hprogress]
              cases hget : current.reads.get? n with
              | none =>
                obtain rfl : 0 = offset := by simpa [hget] using hoffset
                exact absurd (Content.boundary_zero _) hinside
              | some progress => simpa [hget] using hoffset
  · rintro ⟨cell, offset, htarget, hcell, hnull, hprogress, hinside⟩
    have hread : cell.read (.text .utf8) k offset = .error .splitCharacter :=
      Cell.read_eq_split_iff.2 ⟨rfl, hnull, hinside⟩
    exact getData_of_read_error htarget hcell (by rw [hprogress]; rfl) hread

def Aligned (c : Cursor) (n : Nat) : Prop :=
  ∀ cell, c.cellAt n = some cell → cell ≠ .null →
    ∃ sent, Marks .utf8 cell.display sent (c.progress? n)

theorem Aligned.of_unread {c : Cursor} {n : Nat} (h : c.progress? n = none) : c.Aligned n := by
  intro cell _ _
  rw [h]
  exact ⟨[], rfl⟩

theorem Aligned.not_splits {c : Cursor} {n : Nat} (h : c.Aligned n) {r : TargetRequest} {cell : Cell}
    {offset : Nat} : ¬ c.Splits n r cell offset := by
  intro hsplits
  obtain ⟨sent, hmarks⟩ := h cell hsplits.cellAt hsplits.notNull
  rw [hsplits.progress] at hmarks
  obtain ⟨done, left, hsplit, -, hoffset⟩ := hmarks
  exact hsplits.inside (.inr ⟨done, left, hsplit, hoffset⟩)

theorem Aligned.event {c : Cursor} {n : Nat} (h : c.Aligned n) {call : CursorCall}
    (hcall : ∀ k, call ≠ .getData n (.exact (.text .utf16le)) k) : (c.event call).after.Aligned n := by
  obtain hkeeps | hadvances | rfl := call.keepsRow_or_advances
  · intro cell hcell hnull
    rw [(c.samePlace_of_keepsRow hkeeps).cellAt] at hcell
    obtain ⟨sent, hmarks⟩ := h cell hcell hnull
    -- only a piece of this column moves its mark
    cases hpiece : (c.event call).pieceOf n with
    | none =>
      rw [progress?_of_pieceOf_none hkeeps hpiece]
      exact ⟨sent, hmarks⟩
    | some x =>
      obtain ⟨r, p⟩ := x
      obtain ⟨t, found, offset, k, htarget, -, -, hread, hafter⟩ := of_pieceOf_eq_some hpiece
      match t with
      | .text .utf8 => exact ⟨_, event_continues hcell hnull hmarks htarget hpiece⟩
      | .text .utf16le =>
        obtain ⟨column, -, hform⟩ := of_target?_eq_some htarget
        obtain rfl := TargetRequest.eq_of_resolve_utf16le hform
        obtain ⟨capacity, hasked⟩ := CursorEvent.call_of_pieceOf hpiece
        exact absurd hasked (hcall capacity)
      | .integer w =>
        -- an integer is given whole, and then there is nothing left to read in any form
        rw [hafter, Piece.progress, Cell.truncated_of_read_integer hread]
        exact ⟨Encoding.utf8.bytes cell.display, rfl⟩
  · exact .of_unread (c.progress?_of_advances hadvances n)
  · exact .of_unread rfl

theorem Aligned.run {c : Cursor} {n : Nat} (h : c.Aligned n) (calls : List CursorCall)
    (hcalls : ∀ call ∈ calls, ∀ k, call ≠ .getData n (.exact (.text .utf16le)) k) :
    (c.run calls).Aligned n :=
  run_induction (P := fun d => d.Aligned n) (fun _ _ hcall hd => hd.event hcall) calls hcalls h

end Cursor

namespace ResultSet

theorem getData_eq_split_iff {r : ResultSet} {n k : Nat} {target : Int} :
    (r.getData n target k).1 = .error .splitCharacter ↔
      ∃ request c, TargetRequest.ofCode target = .ok request ∧ r.cursor? = some c ∧
        c.getData n request k = .error .splitCharacter := by
  unfold getData cursor
  cases TargetRequest.ofCode target with
  | error e => simp [Bind.bind, Except.bind]
  | ok request =>
    cases r.cursor? with
    | none => simp [Bind.bind, Except.bind]
    | some c =>
      rcases hread : c.getData n request k with fault | ⟨_ | p, after⟩ <;>
        simp [Bind.bind, Except.bind, pure, Except.pure, hread]

theorem ofExcept_ne_split (r : Except Error Reply) :
    Outcome.ofExcept r ≠ .error .splitCharacter := by
  cases r <;> simp [Outcome.ofExcept, Except.mapError]

theorem answer_eq_split_iff {limits : Limits} {r : ResultSet} {call : Call} :
    (r.answer limits call).1 = .error .splitCharacter ↔
      ∃ n target k, call = .getData n target k ∧ (r.getData n target k).1 = .error .splitCharacter := by
  cases call with
  | columnCount | describeColumn | columnAttribute | attributeText =>
    simp [answer, ofExcept_ne_split]
  | moreResults | closeCursor | unbind | close => simp [answer]
  | takeCursor => cases r <;> simp [answer]
  | bind n target k =>
    obtain ⟨e, h⟩ | ⟨c, request, bound, -, -, h⟩ := r.bind_cases n target k <;> simp [answer, h]
  | fetch =>
    obtain ⟨e, h⟩ | ⟨c, -, -, ⟨e, -, h⟩ | ⟨-, h⟩ | ⟨ns, -, h⟩⟩ := r.fetch_cases <;>
      simp [answer, h]
  | getData n target k => simp [answer]

end ResultSet

namespace Statement

theorem perform_eq_split_iff {settings : Settings} {s : Statement} {request : Request} :
    (s.perform settings request).1 = .error .splitCharacter ↔
      ∃ n target k asked c cell offset, request.action = .call (.getData n target k) ∧
        TargetRequest.ofCode target = .ok asked ∧ s.cursor? = some c ∧
        c.Splits n asked cell offset := by
  cases haction : request.action with
  | query q =>
    rw [perform_query haction]
    obtain ⟨result, h⟩ | ⟨e, h⟩ := query_cases settings request.source q <;> simp [h]
  | call call =>
    rw [perform_call haction]
    show (s.result.answer settings.limits call).1 = _ ↔ _
    rw [ResultSet.answer_eq_split_iff]
    constructor
    · rintro ⟨n, target, k, rfl, h⟩
      obtain ⟨asked, c, hasked, hc, hread⟩ := ResultSet.getData_eq_split_iff.1 h
      obtain ⟨cell, offset, hsplits⟩ := Cursor.getData_eq_split_iff.1 hread
      exact ⟨n, target, k, asked, c, cell, offset, rfl, hasked, hc, hsplits⟩
    · rintro ⟨n, target, k, asked, c, cell, offset, hcall, hasked, hc, hsplits⟩
      obtain rfl := Action.call.inj hcall
      have hread := (Cursor.getData_eq_split_iff (k := k)).2 ⟨cell, offset, hsplits⟩
      exact ⟨n, target, k, rfl, ResultSet.getData_eq_split_iff.2 ⟨asked, c, hasked, hc, hread⟩⟩

def Aligned (s : Statement) (n : Nat) : Prop := ∀ c, s.cursor? = some c → c.Aligned n

theorem Aligned.perform {settings : Settings} {s : Statement} {n : Nat} (h : s.Aligned n)
    {request : Request} (hrequest : ∀ k, request.action ≠ .call (.getData n (-8) k)) :
    (s.perform settings request).2.Aligned n := by
  intro c hc
  cases haction : request.action with
  | query q =>
    rw [perform_query haction] at hc
    obtain ⟨-, -, -, -, -, hunread⟩ := fresh_cursor_of_query hc
    exact .of_unread (hunread n)
  | call call =>
    rw [perform_call haction] at hc
    obtain ⟨d, hd, rfl⟩ := ResultSet.cursor?_of_answer hc
    refine (h d (congrArg ResultSet.cursor? hd)).run call.onCursor ?_
    rintro _ hasked k rfl
    obtain ⟨target, rfl, hcode⟩ := Call.of_getData_mem_onCursor hasked
    obtain rfl := TargetRequest.eq_code_of_ofCode hcode
    exact hrequest k haction

theorem Aligned.run {settings : Settings} {s : Statement} {n : Nat} (h : s.Aligned n)
    {requests : List Request}
    (hrequests : ∀ request ∈ requests, ∀ k, request.action ≠ .call (.getData n (-8) k)) :
    (s.run settings requests).Aligned n :=
  run_induction (P := fun t => t.Aligned n) (fun _ _ hrequest ht => ht.perform hrequest) requests
    hrequests h

/-- Where memory can be had for a buffer of every capacity, a request breaks off exactly where it reads a
column as UTF-8 from inside a character of its cell. That does not happen to a column which, since it was
unread, has not been asked for in UTF-16. -/
theorem breaks_off_iff_splits (settings : Settings) (s : Statement) (requests : List Request) :
    let t := s.run settings requests
    (∀ request, (t.perform settings request).1 = .error .splitCharacter ↔
      ∃ n target k asked c cell offset, request.action = .call (.getData n target k) ∧
        TargetRequest.ofCode target = .ok asked ∧ t.cursor? = some c ∧
        c.Splits n asked cell offset) ∧
    ∀ n, (∀ c, s.cursor? = some c → c.progress? n = none) →
      (∀ request ∈ requests, ∀ k, request.action ≠ .call (.getData n (-8) k)) →
      ∀ source target k,
        (t.perform settings ⟨source, .call (.getData n target k)⟩).1 ≠ .error .splitCharacter := by
  intro t
  refine ⟨fun request => perform_eq_split_iff, fun n hunread hrequests source target k hbreaks => ?_⟩
  have hstart : s.Aligned n := fun c hc => .of_unread (hunread c hc)
  obtain ⟨m, _, _, asked, c, cell, offset, hcall, -, hc, hsplits⟩ := perform_eq_split_iff.1 hbreaks
  obtain ⟨rfl, -, -⟩ := Call.getData.inj (Action.call.inj hcall)
  exact (hstart.run hrequests c hc).not_splits hsplits

/-- The second character of this name begins at its second byte. Half of the name in UTF-8, a refused
integer and another column in UTF-16 leave the mark there; half of it in UTF-16 leaves the mark inside
that character. -/
theorem breaks_off_after_wide_piece :
    let source : Source := ⟨.ok [⟨"S", "aé"⟩], fun _ => .ok []⟩
    let s := ({} : Statement).run {} [⟨source, .query (.tables {})⟩, ⟨source, .call .fetch⟩]
    let narrow : List Request := [⟨source, .call (.getData 3 1 2)⟩,
      ⟨source, .call (.getData 3 (-16) 4)⟩, ⟨source, .call (.getData 2 (-8) 4)⟩]
    let wide : List Request := [⟨source, .call (.getData 3 (-8) 4)⟩]
    let again : Request := ⟨source, .call (.getData 3 1 8)⟩
    (∀ c, s.cursor? = some c → c.progress? 3 = none) ∧
    (∀ request ∈ narrow, ∀ k, request.action ≠ .call (.getData 3 (-8) k)) ∧
    ((s.run {} narrow).perform {} again).1 ≠ .error .splitCharacter ∧
    ((s.run {} narrow).perform {} again).1 = .ok (.piece 3 ⟨[195, 169, 0], 2, false, 2⟩) ∧
    ∃ c, (s.run {} wide).cursor? = some c ∧ c.Splits 3 (.exact (.text .utf8)) (.text "aé") 2 := by
  intro source s narrow wide again
  have hunread : ∀ c, s.cursor? = some c → c.progress? 3 = none := by
    have hnone : s.cursor?.bind (·.progress? 3) = none := by decide +kernel
    intro c hc
    rw [hc] at hnone
    exact hnone
  have hnarrow : ∀ request ∈ narrow, ∀ k, request.action ≠ .call (.getData 3 (-8) k) := by
    simp [narrow]
  obtain ⟨-, hkept⟩ := breaks_off_iff_splits {} s narrow
  obtain ⟨hbreaks, -⟩ := breaks_off_iff_splits {} s wide
  refine ⟨hunread, hnarrow, hkept 3 hunread hnarrow source 1 8, by decide +kernel, ?_⟩
  obtain ⟨_, _, _, asked, c, cell, offset, hcall, hasked, hc, hsplits⟩ :=
    (hbreaks again).1 (by decide +kernel)
  obtain ⟨rfl, rfl, -⟩ := Call.getData.inj (Action.call.inj hcall)
  obtain rfl := Except.ok.inj hasked
  have hcell : (s.run {} wide).cursor?.bind (·.cellAt 3) = some (.text "aé") := by decide +kernel
  have hmark : (s.run {} wide).cursor?.bind (·.progress? 3) = some (.consumed 2) := by
    decide +kernel
  rw [hc, Option.bind_some, hsplits.cellAt] at hcell
  rw [hc, Option.bind_some, hsplits.progress] at hmark
  obtain rfl := Option.some.inj hcell
  obtain rfl := Progress.consumed.inj (Option.some.inj hmark)
  exact ⟨c, hc, hsplits⟩

theorem not_every_request_is_answered :
    ¬ ∀ (settings : Settings) (requests : List Request) (request : Request),
      ((({} : Statement).run settings requests).perform settings request).1 ≠
        .error .splitCharacter := by
  intro h
  let source : Source := ⟨.ok [⟨"S", "aé"⟩], fun _ => .ok []⟩
  refine h {} [⟨source, .query (.tables {})⟩, ⟨source, .call .fetch⟩,
    ⟨source, .call (.getData 3 (-8) 4)⟩] ⟨source, .call (.getData 3 1 8)⟩ ?_
  decide +kernel

end Statement
end CacheCatalog
