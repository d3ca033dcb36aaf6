import Mathlib.Data.List.Forall2
import Mathlib.Data.List.TakeWhile

/-! Computations that can fail, taken apart: a sequence of them succeeds where each does, and a list
of them gives one value for each element. And lists taken apart at a separator. -/
namespace CacheCatalog
variable {ε α β : Type}

theorem takeWhile_dropWhile_of_separator {p : α → Bool} {xs : List α} {c : α} (ys : List α)
    (hxs : ∀ x ∈ xs, p x = true) (hc : p c = false) :
    (xs ++ c :: ys).takeWhile p = xs ∧ (xs ++ c :: ys).dropWhile p = c :: ys := by
  have hstop : ¬ p c = true := Bool.eq_false_iff.1 hc
  rw [List.takeWhile_append_of_pos hxs, List.dropWhile_append_of_pos hxs,
    List.takeWhile_cons_of_neg hstop, List.dropWhile_cons_of_neg hstop, List.append_nil]
  exact ⟨rfl, rfl⟩

theorem exists_split_while (p : α → Bool) (xs : List α) :
    ∃ taken rest, xs = taken ++ rest ∧ (∀ x ∈ taken, p x = true) ∧ ∀ x ∈ rest.head?, p x = false := by
  refine ⟨xs.takeWhile p, xs.dropWhile p, List.takeWhile_append_dropWhile.symm,
    fun x hx => List.mem_takeWhile_imp hx, fun x hx => ?_⟩
  have hstop := List.head?_dropWhile_not p xs
  rw [hx] at hstop
  exact hstop

theorem bind_eq_ok {x : Except ε α} {f : α → Except ε β} {b : β} :
    x >>= f = .ok b ↔ ∃ a, x = .ok a ∧ f a = .ok b := by
  cases x with
  | error e => simp [Bind.bind, Except.bind]
  | ok a => simp [Bind.bind, Except.bind]

theorem map_eq_ok {x : Except ε α} {f : α → β} {b : β} :
    x.map f = .ok b ↔ ∃ a, x = .ok a ∧ f a = b := by
  cases x with
  | error e => simp [Except.map]
  | ok a => simp [Except.map]

theorem map_eq_error {x : Except ε α} {f : α → β} {e : ε} : x.map f = .error e ↔ x = .error e := by
  cases x with
  | error e' => simp [Except.map]
  | ok a => simp [Except.map]

theorem mapM_eq_ok {f : α → Except ε β} {xs : List α} {ys : List β} :
    xs.mapM f = .ok ys ↔ List.Forall₂ (fun x y => f x = .ok y) xs ys := by
  induction xs generalizing ys with
  | nil =>
    rw [List.mapM_nil, List.forall₂_nil_left_iff]
    exact ⟨fun h => (Except.ok.inj h).symm, fun h => h ▸ rfl⟩
  | cons x xs ih =>
    rw [List.mapM_cons, bind_eq_ok, List.forall₂_cons_left_iff]
    constructor
    · rintro ⟨y, hy, h⟩
      obtain ⟨rest, hrest, h⟩ := bind_eq_ok.1 h
      exact ⟨y, rest, hy, ih.1 hrest, (Except.ok.inj h).symm⟩
    · rintro ⟨y, rest, hy, hrest, rfl⟩
      exact ⟨y, hy, bind_eq_ok.2 ⟨rest, ih.2 hrest, rfl⟩⟩

/-- A sequence of computations fails with the first fault of all, where `g` lists the faults of each. -/
theorem mapM_eq_error_iff {f : α → Except ε β} {g : α → List ε} {e : ε} {xs : List α}
    (h : ∀ x ∈ xs, ∀ e, f x = .error e ↔ (g x).head? = some e) :
    xs.mapM f = .error e ↔ (xs.flatMap g).head? = some e := by
  induction xs with
  | nil =>
    rw [List.mapM_nil]
    exact iff_of_false nofun nofun
  | cons x xs ih =>
    rw [List.forall_mem_cons] at h
    rw [List.mapM_cons, List.flatMap_cons, List.head?_append]
    cases hx : f x with
    | error e' =>
      rw [(h.1 e').1 hx]
      show Except.error e' = Except.error e ↔ some e' = some e
      rw [Except.error.injEq, Option.some.injEq]
    | ok y =>
      have hnone : (g x).head? = none := by
        refine Option.eq_none_iff_forall_ne_some.2 fun e' he' => ?_
        cases hx.symm.trans ((h.1 e').2 he')
      rw [hnone, Option.none_or, ← ih h.2]
      show (xs.mapM f >>= _) = Except.error e ↔ _
      cases xs.mapM f with
      | error e' => rfl
      | ok ys => exact iff_of_false nofun nofun

theorem mapM_eq_error_iff_getElem? {f : α → Except ε β} {e : ε} {xs : List α} :
    xs.mapM f = .error e ↔
      ∃ (i : Nat) (x : α), xs[i]? = some x ∧ f x = .error e ∧
        ∀ (j : Nat) (y : α), j < i → xs[j]? = some y → ∃ z, f y = .ok z := by
  induction xs with
  | nil =>
    rw [List.mapM_nil]
    exact iff_of_false nofun nofun
  | cons x xs ih =>
    rw [List.mapM_cons]
    cases hx : f x with
    | error e' =>
      show Except.error e' = Except.error e ↔ _
      rw [Except.error.injEq]
      constructor
      · rintro rfl
        exact ⟨0, x, rfl, hx, fun j y hj => absurd hj (Nat.not_lt_zero j)⟩
      · rintro ⟨i, y, hy, hfail, hbefore⟩
        cases i with
        | zero =>
          obtain rfl : x = y := Option.some.inj hy
          exact Except.error.inj (hx.symm.trans hfail)
        | succ i =>
          obtain ⟨z, hz⟩ := hbefore 0 x (Nat.zero_lt_succ i) rfl
          cases hx.symm.trans hz
    | ok z =>
      -- the first element gives no fault, so the first fault is that of the tail
      have htail : (Except.ok z >>= fun first => xs.mapM f >>= fun rest => pure (first :: rest) :
          Except ε (List β)) = .error e ↔ xs.mapM f = .error e := by
        show (xs.mapM f >>= _) = Except.error e ↔ _
        cases xs.mapM f with
        | error e' => rfl
        | ok ys => exact iff_of_false nofun nofun
      rw [htail, ih]
      constructor
      · rintro ⟨i, y, hy, hfail, hbefore⟩
        refine ⟨i + 1, y, hy, hfail, fun j w hj hw => ?_⟩
        cases j with
        | zero =>
          obtain rfl : x = w := Option.some.inj hw
          exact ⟨z, hx⟩
        | succ j => exact hbefore j w (Nat.lt_of_succ_lt_succ hj) hw
      · rintro ⟨i, y, hy, hfail, hbefore⟩
        cases i with
        | zero =>
          obtain rfl : x = y := Option.some.inj hy
          cases hx.symm.trans hfail
        | succ i =>
          exact ⟨i, y, hy, hfail, fun j w hj hw => hbefore (j + 1) w (Nat.succ_lt_succ hj) hw⟩

theorem mapM_eq_ok_iff_getElem? {f : α → Except ε β} {xs : List α} {ys : List β} :
    xs.mapM f = .ok ys ↔ ys.length = xs.length ∧
      ∀ (i : Nat) (x : α), xs[i]? = some x → ∃ y, ys[i]? = some y ∧ f x = .ok y := by
  rw [mapM_eq_ok, List.forall₂_iff_get]
  constructor
  · rintro ⟨hlength, hall⟩
    refine ⟨hlength.symm, fun i x hx => ?_⟩
    obtain ⟨hi, rfl⟩ := List.getElem?_eq_some_iff.1 hx
    have hi' : i < ys.length := hlength ▸ hi
    exact ⟨ys[i], List.getElem?_eq_getElem hi', hall i hi hi'⟩
  · rintro ⟨hlength, hall⟩
    refine ⟨hlength.symm, fun i hi hi' => ?_⟩
    obtain ⟨y, hy, hf⟩ := hall i xs[i] (List.getElem?_eq_getElem hi)
    rw [List.getElem?_eq_getElem hi'] at hy
    obtain rfl := Option.some.inj hy
    exact hf

theorem mapM_congr_left {f g : α → Except ε β} {xs : List α} (h : ∀ x ∈ xs, f x = g x) :
    xs.mapM f = xs.mapM g := by
  induction xs with
  | nil => rfl
  | cons x xs ih =>
    rw [List.forall_mem_cons] at h
    rw [List.mapM_cons, List.mapM_cons, h.1, ih h.2]

theorem getElem?_of_mapM {f : α → Except ε β} {xs : List α} {ys : List β} {i : Nat} {y : β}
    (h : xs.mapM f = .ok ys) (hy : ys[i]? = some y) : ∃ x, xs[i]? = some x ∧ f x = .ok y := by
  have hall := mapM_eq_ok.1 h
  clear h
  induction hall generalizing i with
  | nil => cases hy
  | @cons x z xs ys hx _ ih =>
    cases i with
    | zero =>
      obtain rfl := Option.some.inj hy
      exact ⟨x, rfl, hx⟩
    | succ i => exact ih hy

theorem exists_of_mem_mapM {f : α → Except ε β} {xs : List α} {ys : List β} {y : β}
    (h : xs.mapM f = .ok ys) (hy : y ∈ ys) : ∃ x ∈ xs, f x = .ok y := by
  obtain ⟨i, hi⟩ := List.mem_iff_getElem?.1 hy
  obtain ⟨x, hx, hf⟩ := getElem?_of_mapM h hi
  exact ⟨x, List.mem_of_getElem? hx, hf⟩

end CacheCatalog
