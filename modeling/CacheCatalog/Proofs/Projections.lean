import CacheCatalog.Proofs.ColumnHits
import CacheCatalog.Proofs.SingleTable

/-! What the description of a projection comes to. A text names a table, which the source has to
describe; all columns of the table have to be such as can be shown; and each name of the projection
stands for the first of them that has it in any letter case, shown with the number of its own place.
What goes wrong first in this order is what the description fails with. -/
namespace CacheCatalog

namespace TableRef

inductive NamedBy (defaultSchema : String) : String → TableRef → Prop
  | qualified {schema : String} (name : String) (h : '.' ∉ schema.toList) :
    NamedBy defaultSchema (schema ++ "." ++ name) ⟨schema, name⟩
  | plain {name : String} (h : '.' ∉ name.toList) : NamedBy defaultSchema name ⟨defaultSchema, name⟩

theorem ofName_of_plain {name : String} (defaultSchema : String) (h : '.' ∉ name.toList) :
    ofName defaultSchema name = ⟨defaultSchema, name⟩ := by
  have hdrop : name.toList.dropWhile (· != '.') = [] := by
    refine List.dropWhile_eq_nil_iff.2 fun c hc => bne_iff_ne.2 ?_
    rintro rfl
    exact h hc
  unfold ofName
  rw [hdrop]

theorem namedBy_ofName (defaultSchema text : String) :
    NamedBy defaultSchema text (ofName defaultSchema text) := by
  obtain ⟨taken, rest, htext, htaken, hrest⟩ := exists_split_while (· != '.') text.toList
  have hplain : '.' ∉ taken := fun hmem => bne_iff_ne.1 (htaken '.' hmem) rfl
  cases rest with
  | nil =>
    rw [List.append_nil] at htext
    rw [← htext] at hplain
    rw [ofName_of_plain defaultSchema hplain]
    exact .plain hplain
  | cons c r =>
    obtain rfl : c = '.' := by simpa using hrest c rfl
    obtain rfl : text = String.ofList taken ++ "." ++ String.ofList r := by
      rw [← String.toList_inj, htext]
      simp
    have hschema : '.' ∉ (String.ofList taken).toList := by rwa [String.toList_ofList]
    rw [ofName_append defaultSchema _ hschema]
    exact .qualified _ hschema

theorem namedBy_iff {defaultSchema text : String} {t : TableRef} :
    NamedBy defaultSchema text t ↔ t = ofName defaultSchema text := by
  constructor
  · intro h
    cases h with
    | qualified name h => exact (ofName_append defaultSchema name h).symm
    | plain h => exact (ofName_of_plain defaultSchema h).symm
  · rintro rfl
    exact namedBy_ofName defaultSchema text

end TableRef

def FirstFault {α : Type} (fault : Nat → α → Error → Prop) (xs : List α) (e : Error) : Prop :=
  ∃ (i : Nat) (x : α), xs[i]? = some x ∧ fault i x e ∧
    ∀ (j : Nat) (y : α), j < i → xs[j]? = some y → ∀ e', ¬ fault j y e'

section Traversal
variable {α β : Type} {f : α × Nat → Except Error β} {xs : List α}

theorem getElem?_zipIdx_eq_some_iff {x : α} {i j : Nat} :
    xs.zipIdx[i]? = some (x, j) ↔ xs[i]? = some x ∧ j = i := by
  refine ⟨of_getElem?_zipIdx, ?_⟩
  rintro ⟨hx, rfl⟩
  rw [List.getElem?_zipIdx, hx, Nat.zero_add]
  rfl

theorem mapM_zipIdx_eq_error_iff {fault : Nat → α → Error → Prop}
    (h : ∀ i x e, f (x, i) = .error e ↔ fault i x e) {e : Error} :
    xs.zipIdx.mapM f = .error e ↔ FirstFault fault xs e := by
  have hpasses (j : Nat) (y : α) : (∃ z, f (y, j) = .ok z) ↔ ∀ e', ¬ fault j y e' := by
    simp only [← h]
    cases f (y, j) <;> simp
  rw [mapM_eq_error_iff_getElem?, FirstFault]
  simp only [Prod.exists, Prod.forall, getElem?_zipIdx_eq_some_iff]
  constructor
  · rintro ⟨i, x, _, ⟨hx, rfl⟩, hfail, hbefore⟩
    exact ⟨_, x, hx, (h _ x e).1 hfail, fun j y hj hy => (hpasses j y).1 (hbefore j y j hj ⟨hy, rfl⟩)⟩
  · rintro ⟨i, x, hx, hfault, hbefore⟩
    refine ⟨i, x, i, ⟨hx, rfl⟩, (h i x e).2 hfault, ?_⟩
    rintro j y _ hj ⟨hy, rfl⟩
    exact (hpasses _ y).2 (hbefore _ y hj hy)

theorem mapM_zipIdx_eq_ok_iff {ys : List β} : xs.zipIdx.mapM f = .ok ys ↔
    ys.length = xs.length ∧
      ∀ (i : Nat) (x : α), xs[i]? = some x → ∃ y, ys[i]? = some y ∧ f (x, i) = .ok y := by
  rw [mapM_eq_ok_iff_getElem?, List.length_zipIdx]
  simp only [Prod.forall, getElem?_zipIdx_eq_some_iff]
  refine and_congr_right fun _ => ⟨fun h i x hx => h i x i ⟨hx, rfl⟩, ?_⟩
  rintro h i x _ ⟨hx, rfl⟩
  exact h _ x hx

end Traversal

namespace ColumnHit
variable {h : ColumnHit}

theorem column_eq_ok_iff {c : Column} : h.column = .ok c ↔ h.Shows c ∧ h.fault? = none := by
  obtain ⟨c', hc', hshows, hnone⟩ | ⟨e, he, hfault⟩ := h.column_cases
  · rw [hc', Except.ok.injEq, and_iff_left hnone]
    refine ⟨?_, fun h' => Shows.unique hshows h'⟩
    rintro rfl
    exact hshows
  · rw [he, hfault]
    exact iff_of_false nofun nofun

theorem column_eq_error_iff_fault? {e : Error} : h.column = .error e ↔ h.fault? = some e := by
  rw [column_eq_error_iff, Option.head?_toList]

end ColumnHit

def Column.FirstNamed (columns : List Column) (name : String) (c : Column) : Prop :=
  ∃ before after, columns = before ++ c :: after ∧ Text.AlikeButCase c.name name ∧
    ∀ b ∈ before, ¬ Text.AlikeButCase b.name name

theorem Column.FirstNamed.mem {columns : List Column} {name : String} {c : Column}
    (h : Column.FirstNamed columns name c) : c ∈ columns ∧ Text.AlikeButCase c.name name := by
  obtain ⟨before, after, rfl, hname, -⟩ := h
  exact ⟨List.mem_append_right before List.mem_cons_self, hname⟩

namespace Projection

structure ShowsTable (t : TableRef) (declared : List DeclaredColumn) (columns : List Column) : Prop where
  length_eq : columns.length = declared.length
  column : ∀ (i : Nat) (d : DeclaredColumn), declared[i]? = some d →
    ∃ c, columns[i]? = some c ∧ (ColumnHit.mk t d i).Shows c ∧ (ColumnHit.mk t d i).fault? = none

/-- That no column has the name comes before its place. -/
inductive EntryFault (columns : List Column) (index : Nat) (name : String) : Error → Prop
  | unknown (h : ∀ c ∈ columns, ¬ Text.AlikeButCase c.name name) :
    EntryFault columns index name (.unknownColumn name)
  | place {c : Column} (hc : c ∈ columns) (hname : Text.AlikeButCase c.name name)
    (hplace : maxColumns ≤ index) : EntryFault columns index name (.schema (.position index))

structure ShowsNames (columns : List Column) (names : List String) (shown : List Column) : Prop where
  length_eq : shown.length = names.length
  entry : ∀ (k : Nat) (name : String), names[k]? = some name →
    k < maxColumns ∧ ∃ c, Column.FirstNamed columns name c ∧ shown[k]? = some { c with ordinal := k + 1 }

inductive Gives (source : Source) (t : TableRef) (names : List String) :
    Except Error (List Column) → Prop
  | undescribed {e : Error} (h : source.columns t = .error e) : Gives source t names (.error e)
  /-- A column of the table cannot be shown, whether it is among the names or not. -/
  | columnFault {declared : List DeclaredColumn} {e : Error} (h : source.columns t = .ok declared)
    (hfault : FirstFault (fun i d e => (ColumnHit.mk t d i).fault? = some e) declared e) :
    Gives source t names (.error e)
  | wholeTable {declared : List DeclaredColumn} {columns : List Column}
    (h : source.columns t = .ok declared) (hcolumns : ShowsTable t declared columns)
    (hnames : names = []) : Gives source t names (.ok columns)
  | entryFault {declared : List DeclaredColumn} {columns : List Column} {e : Error}
    (h : source.columns t = .ok declared) (hcolumns : ShowsTable t declared columns)
    (hfault : FirstFault (EntryFault columns) names e) : Gives source t names (.error e)
  | entries {declared : List DeclaredColumn} {columns shown : List Column}
    (h : source.columns t = .ok declared) (hcolumns : ShowsTable t declared columns)
    (hnames : names ≠ []) (hshown : ShowsNames columns names shown) : Gives source t names (.ok shown)

section Entries
variable {columns : List Column} {names : List String} {name : String} {i : Nat}

theorem find?_eq_some_iff_firstNamed {c : Column} :
    columns.find? (fun c => Text.sameName c.name name) = some c ↔ Column.FirstNamed columns name c := by
  rw [List.find?_eq_some_iff_append, Text.sameName_iff_alikeButCase, Column.FirstNamed]
  simp only [Bool.not_eq_true', ← Bool.not_eq_true, Text.sameName_iff_alikeButCase]
  constructor
  · rintro ⟨hname, before, after, hsplit, hbefore⟩
    exact ⟨before, after, hsplit, hname, hbefore⟩
  · rintro ⟨before, after, hsplit, hname, hbefore⟩
    exact ⟨hname, before, after, hsplit, hbefore⟩

theorem find?_eq_none_iff_unknown :
    columns.find? (fun c => Text.sameName c.name name) = none ↔
      ∀ c ∈ columns, ¬ Text.AlikeButCase c.name name := by
  simp only [List.find?_eq_none, Text.sameName_iff_alikeButCase]

theorem entry_cases (columns : List Column) (name : String) (i : Nat) :
    ((∀ c ∈ columns, ¬ Text.AlikeButCase c.name name) ∧
      entry columns name i = .error (.unknownColumn name)) ∨
    ∃ c, Column.FirstNamed columns name c ∧
      ((i < maxColumns ∧ entry columns name i = .ok { c with ordinal := i + 1 }) ∨
        (maxColumns ≤ i ∧ entry columns name i = .error (.schema (.position i)))) := by
  unfold entry
  cases hfind : columns.find? fun c => Text.sameName c.name name with
  | none => exact .inl ⟨find?_eq_none_iff_unknown.1 hfind, rfl⟩
  | some c =>
    refine .inr ⟨c, find?_eq_some_iff_firstNamed.1 hfind, ?_⟩
    unfold ordinalAt
    by_cases hplace : i < maxColumns
    · exact .inl ⟨hplace, by rw [if_pos hplace]; rfl⟩
    · exact .inr ⟨Nat.not_lt.1 hplace, by rw [if_neg hplace]; rfl⟩

theorem entry_eq_error_iff {e : Error} :
    entry columns name i = .error e ↔ EntryFault columns i name e := by
  obtain ⟨hunknown, hentry⟩ | ⟨c, hc, ⟨hplace, hentry⟩ | ⟨hplace, hentry⟩⟩ := entry_cases columns name i
  · rw [hentry, Except.error.injEq]
    constructor
    · rintro rfl
      exact .unknown hunknown
    · intro hfault
      cases hfault with
      | unknown => rfl
      | place hc hname => exact absurd hname (hunknown _ hc)
  · rw [hentry]
    refine iff_of_false nofun fun hfault => ?_
    cases hfault with
    | unknown hunknown => exact hunknown c hc.mem.1 hc.mem.2
    | place _ _ hbeyond => exact Nat.not_le.2 hplace hbeyond
  · rw [hentry, Except.error.injEq]
    constructor
    · rintro rfl
      exact .place hc.mem.1 hc.mem.2 hplace
    · intro hfault
      cases hfault with
      | unknown hunknown => exact absurd hc.mem.2 (hunknown c hc.mem.1)
      | place => rfl

theorem entry_eq_ok_iff {shown : Column} : entry columns name i = .ok shown ↔
    i < maxColumns ∧ ∃ c, Column.FirstNamed columns name c ∧ shown = { c with ordinal := i + 1 } := by
  obtain ⟨hunknown, hentry⟩ | ⟨c, hc, ⟨hplace, hentry⟩ | ⟨hplace, hentry⟩⟩ := entry_cases columns name i
  · rw [hentry]
    refine iff_of_false nofun ?_
    rintro ⟨-, c, hc, -⟩
    exact hunknown c hc.mem.1 hc.mem.2
  · rw [hentry, Except.ok.injEq, and_iff_right hplace]
    constructor
    · rintro rfl
      exact ⟨c, hc, rfl⟩
    · rintro ⟨c', hc', rfl⟩
      have hsame : some c = some c' :=
        (find?_eq_some_iff_firstNamed.2 hc).symm.trans (find?_eq_some_iff_firstNamed.2 hc')
      rw [Option.some.inj hsame]
  · rw [hentry]
    exact iff_of_false nofun fun h => Nat.not_lt.2 hplace h.1

theorem mapM_entry_eq_ok_iff {shown : List Column} :
    (names.zipIdx.mapM fun (name, i) => entry columns name i) = .ok shown ↔
      ShowsNames columns names shown := by
  rw [mapM_zipIdx_eq_ok_iff]
  simp only [entry_eq_ok_iff]
  constructor
  · rintro ⟨hlength, hentry⟩
    refine ⟨hlength, fun k name hname => ?_⟩
    obtain ⟨_, hshown, hplace, c, hc, rfl⟩ := hentry k name hname
    exact ⟨hplace, c, hc, hshown⟩
  · rintro ⟨hlength, hentry⟩
    refine ⟨hlength, fun k name hname => ?_⟩
    obtain ⟨hplace, c, hc, hshown⟩ := hentry k name hname
    exact ⟨_, hshown, hplace, c, hc, rfl⟩

theorem mapM_entry_eq_error_iff {e : Error} :
    (names.zipIdx.mapM fun (name, i) => entry columns name i) = .error e ↔
      FirstFault (EntryFault columns) names e :=
  mapM_zipIdx_eq_error_iff fun _ _ _ => entry_eq_error_iff

end Entries

section Table
variable {source : Source} {t : TableRef} {names : List String} {columns : List Column} {e : Error}

theorem declared_of_described {ds : List DeclaredColumn} (h : source.columns t = .ok ds) :
    declared source t = ds.zipIdx.mapM fun (d, i) => (ColumnHit.mk t d i).column := by
  unfold declared
  rw [h]
  rfl

theorem declared_eq_ok_iff :
    declared source t = .ok columns ↔ ∃ ds, source.columns t = .ok ds ∧ ShowsTable t ds columns := by
  cases hsource : source.columns t with
  | error e' =>
    have hdeclared : declared source t = .error e' := by
      unfold declared
      rw [hsource]
      rfl
    rw [hdeclared]
    exact iff_of_false nofun nofun
  | ok ds =>
    rw [declared_of_described hsource, mapM_zipIdx_eq_ok_iff]
    simp only [ColumnHit.column_eq_ok_iff, Except.ok.injEq, exists_eq_left']
    exact ⟨fun h => ⟨h.1, h.2⟩, fun h => ⟨h.1, h.2⟩⟩

theorem declared_eq_error_iff : declared source t = .error e ↔
    source.columns t = .error e ∨ ∃ ds, source.columns t = .ok ds ∧
      FirstFault (fun i d e => (ColumnHit.mk t d i).fault? = some e) ds e := by
  cases hsource : source.columns t with
  | error e' =>
    have hdeclared : declared source t = .error e' := by
      unfold declared
      rw [hsource]
      rfl
    rw [hdeclared, or_iff_left nofun, Except.error.injEq, Except.error.injEq]
  | ok ds =>
    rw [declared_of_described hsource, or_iff_right nofun,
      mapM_zipIdx_eq_error_iff fun _ _ _ => ColumnHit.column_eq_error_iff_fault?]
    simp only [Except.ok.injEq, exists_eq_left']

theorem columns_of_declared_error (h : declared source t = .error e) (names : List String) :
    Projection.columns source t names = .error e := by
  unfold Projection.columns
  rw [h]
  rfl

theorem columns_of_names (h : declared source t = .ok columns) (hnames : names ≠ []) :
    Projection.columns source t names =
      names.zipIdx.mapM fun (name, i) => entry columns name i := by
  unfold Projection.columns
  rw [h]
  show (if names.isEmpty then _ else _) = _
  rw [if_neg (List.isEmpty_iff.not.2 hnames)]

/-- The rules cover every projection, and no two of them say different things. -/
theorem gives_iff {r : Except Error (List Column)} :
    Gives source t names r ↔ Projection.columns source t names = r := by
  constructor
  · intro h
    cases h with
    | undescribed h => exact columns_of_declared_error (declared_eq_error_iff.2 (.inl h)) names
    | columnFault h hfault =>
      exact columns_of_declared_error (declared_eq_error_iff.2 (.inr ⟨_, h, hfault⟩)) names
    | wholeTable h hcolumns hnames =>
      rw [hnames, columns_nil, declared_eq_ok_iff]
      exact ⟨_, h, hcolumns⟩
    | entryFault h hcolumns hfault =>
      -- a fault of an entry takes an entry
      have hnames : names ≠ [] := by
        rintro rfl
        obtain ⟨i, x, hx, -⟩ := hfault
        cases hx
      rw [columns_of_names (declared_eq_ok_iff.2 ⟨_, h, hcolumns⟩) hnames]
      exact mapM_entry_eq_error_iff.2 hfault
    | entries h hcolumns hnames hshown =>
      rw [columns_of_names (declared_eq_ok_iff.2 ⟨_, h, hcolumns⟩) hnames]
      exact mapM_entry_eq_ok_iff.2 hshown
  · rintro rfl
    cases hdeclared : declared source t with
    | error e =>
      rw [columns_of_declared_error hdeclared]
      obtain h | ⟨ds, h, hfault⟩ := declared_eq_error_iff.1 hdeclared
      · exact .undescribed h
      · exact .columnFault h hfault
    | ok columns =>
      obtain ⟨ds, h, hcolumns⟩ := declared_eq_ok_iff.1 hdeclared
      by_cases hnames : names = []
      · rw [hnames, columns_nil, hdeclared]
        exact .wholeTable h hcolumns rfl
      · rw [columns_of_names hdeclared hnames]
        cases hentries : names.zipIdx.mapM fun (name, i) => entry columns name i with
        | error e => exact .entryFault h hcolumns (mapM_entry_eq_error_iff.1 hentries)
        | ok shown => exact .entries h hcolumns hnames (mapM_entry_eq_ok_iff.1 hentries)

end Table
end Projection

namespace Statement

def described : Except Error (List Column) → Outcome × Statement
  | .ok columns => (.ok .done, ⟨.projection columns, []⟩)
  | .error e => (.error (.refused e), failed e)

theorem query_describe (settings : Settings) (source : Source) (s : Statement) (text : String)
    (names : List String) : s.query settings source (.describe text names) =
      described (Projection.columns source (TableRef.ofName settings.schema text) names) := by
  have hanswer : (Query.describe text names).answer settings source =
      (Projection.columns source (TableRef.ofName settings.schema text) names).map .projection := rfl
  cases hcolumns : Projection.columns source (TableRef.ofName settings.schema text) names with
  | error e =>
    rw [hcolumns] at hanswer
    exact query_of_error hanswer s
  | ok columns =>
    rw [hcolumns] at hanswer
    exact query_of_ok hanswer s

/-- A description of a projection names one table, and the rules give one answer for it: that is what
the statement shows, whatever it had before. -/
theorem description_shows_projection (settings : Settings) (source : Source) (s : Statement)
    (text : String) (names : List String) :
    ∃ t r, TableRef.NamedBy settings.schema text t ∧ Projection.Gives source t names r ∧
      s.query settings source (.describe text names) = described r ∧
      ∀ t' r', TableRef.NamedBy settings.schema text t' → Projection.Gives source t' names r' →
        t' = t ∧ r' = r := by
  refine ⟨_, _, TableRef.namedBy_ofName settings.schema text, Projection.gives_iff.2 rfl,
    query_describe settings source s text names, fun t' r' hnamed hgives => ?_⟩
  obtain rfl := TableRef.namedBy_iff.1 hnamed
  exact ⟨rfl, (Projection.gives_iff.1 hgives).symm⟩

example :
    let source : Source := ⟨.ok [], fun _ => .ok [⟨"a", 9, {}, true⟩, ⟨"b", 9, {}, true⟩, ⟨"B", 3, {}, true⟩]⟩
    (Projection.columns source (.ofName "S" "T.x.y") ["B", "b"]).map
        (List.map fun c => (c.ordinal, c.name, c.table, c.type)) =
      .ok [(1, "b", ⟨"T", "x.y"⟩, .string), (2, "b", ⟨"T", "x.y"⟩, .string)] := by decide +kernel

end Statement
end CacheCatalog
