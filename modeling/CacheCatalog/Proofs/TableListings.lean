import CacheCatalog.Proofs.ColumnHits
import CacheCatalog.Proofs.RoundTrip

/-! What a search for tables lists. Three searches list catalogs, schemas or kinds, and no two of them
are the same search; every other one lists the tables that fit, as they are listed by the source, as long
as no catalog is named and tables are among the kinds. The source is asked only where its tables matter,
and only then can the search fail. -/
namespace CacheCatalog

structure FirstOccurrences {α : Type} [DecidableEq α] (xs firsts : List α) : Prop where
  mem_iff : ∀ x, x ∈ firsts ↔ x ∈ xs
  ordered : firsts.Pairwise fun x y => xs.idxOf x < xs.idxOf y

namespace FirstOccurrences
variable {α : Type} [DecidableEq α] {xs firsts : List α}

theorem nodup (h : FirstOccurrences xs firsts) : firsts.Nodup :=
  h.ordered.imp fun hlt heq => by
    rw [heq] at hlt
    exact Nat.lt_irrefl _ hlt

theorem unique {others : List α} (h : FirstOccurrences xs firsts) (h' : FirstOccurrences xs others) :
    firsts = others := by
  have hperm : firsts.Perm others :=
    (List.perm_ext_iff_of_nodup h.nodup h'.nodup).2 fun x => (h.mem_iff x).trans (h'.mem_iff x).symm
  refine hperm.eq_of_pairwise (fun x y _ _ hxy hyx => ?_) h.ordered h'.ordered
  exact absurd hxy (Nat.lt_asymm hyx)

theorem eraseDups (xs : List α) : FirstOccurrences xs xs.eraseDups := by
  refine ⟨fun x => List.mem_eraseDups, ?_⟩
  -- the last value is new, or it makes no difference
  induction xs using List.reverseRecOn with
  | nil => exact List.Pairwise.nil
  | append_singleton xs x ih =>
    have hbefore : xs.eraseDups.Pairwise fun y z => (xs ++ [x]).idxOf y < (xs ++ [x]).idxOf z := by
      refine ih.imp_of_mem fun hy hz hlt => ?_
      rwa [List.idxOf_append_of_mem (List.mem_eraseDups.1 hy),
        List.idxOf_append_of_mem (List.mem_eraseDups.1 hz)]
    rw [List.eraseDups_append]
    by_cases hx : x ∈ xs
    · rw [show [x].removeAll xs = [] by simp [List.removeAll, hx]]
      simpa using hbefore
    · rw [show [x].removeAll xs = [x] by simp [List.removeAll, hx]]
      refine List.pairwise_append.2 ⟨hbefore, List.pairwise_singleton _ x, fun y hy z hz => ?_⟩
      obtain rfl := List.mem_singleton.1 hz
      have hmem := List.mem_eraseDups.1 hy
      rw [List.idxOf_append_of_mem hmem, List.idxOf_append_of_notMem hx]
      exact Nat.lt_of_lt_of_le (List.idxOf_lt_length_of_mem hmem) (Nat.le_add_right _ _)

end FirstOccurrences

namespace TableSearch

def AsksForTables (entry : List Char) : Prop :=
  ∃ blanks quotes word quotes' blanks', entry = blanks ++ (quotes ++ word ++ quotes') ++ blanks' ∧
    (∀ c ∈ blanks ++ blanks', Text.isBlank c = true) ∧ (∀ c ∈ quotes ++ quotes', c = '\'') ∧
    Text.sameName (String.ofList word) tableKind = true

def AdmitsTables (s : TableSearch) : Prop :=
  s.kinds = none ∨ s.kinds = some "" ∨ s.kinds = some "%" ∨
    ∃ kinds entries, s.kinds = some kinds ∧ kinds.toList = [','].intercalate entries ∧
      (∀ entry ∈ entries, ',' ∉ entry) ∧ ∃ entry ∈ entries, AsksForTables entry

section Kinds
variable {word : List Char}

theorem fold_of_sameName (h : Text.sameName (String.ofList word) tableKind = true) :
    word.map Char.toLower = ['t', 'a', 'b', 'l', 'e'] := by
  have hfold := Text.sameName_iff.1 h
  rwa [Text.fold, String.toList_ofList] at hfold

theorem ne_nil_of_sameName (h : Text.sameName (String.ofList word) tableKind = true) : word ≠ [] := by
  rintro rfl
  exact absurd (fold_of_sameName h) (List.cons_ne_nil _ _).symm

theorem plain_of_sameName (h : Text.sameName (String.ofList word) tableKind = true) :
    ∀ c ∈ word, Text.isBlank c = false ∧ c ≠ '\'' := by
  intro c hc
  have hletter : c.toLower ∈ ['t', 'a', 'b', 'l', 'e'] := fold_of_sameName h ▸ List.mem_map_of_mem hc
  have hplain : ['t', 'a', 'b', 'l', 'e'].all fun d => !Text.isBlank d := by decide
  constructor
  · by_contra hblank
    rw [Bool.not_eq_false] at hblank
    -- a blank has no letter case
    rw [Text.toLower_of_isBlank hblank] at hletter
    have hnot := List.all_eq_true.1 hplain c hletter
    rw [hblank] at hnot
    cases hnot
  · rintro rfl
    exact absurd hletter (by decide)

theorem asksForTables_iff {entry : List Char} : AsksForTables entry ↔
    Text.sameName (String.ofList (unquote (Text.trim entry))) tableKind = true := by
  constructor
  · rintro ⟨blanks, quotes, word, quotes', blanks', rfl, hblanks, hquotes, hword⟩
    rw [List.forall_mem_append] at hblanks hquotes
    have hplain := plain_of_sameName hword
    have hinner : ∀ c ∈ quotes ++ word ++ quotes', Text.isBlank c = false := by
      simp only [List.forall_mem_append]
      refine ⟨⟨fun c hc => ?_, fun c hc => (hplain c hc).1⟩, fun c hc => ?_⟩
      · rw [hquotes.1 c hc]
        decide
      · rw [hquotes.2 c hc]
        decide
    have htrim : Text.trim (blanks ++ (quotes ++ word ++ quotes') ++ blanks') =
        quotes ++ word ++ quotes' := by
      rw [Text.trim]
      exact Text.stripped_append hblanks.1 (by simp [ne_nil_of_sameName hword]) hinner hblanks.2
    -- the word has no quotes of its own, so stripping stops at it
    have hunquote : unquote (quotes ++ word ++ quotes') = word := by
      rw [unquote]
      exact Text.stripped_append (fun c hc => beq_iff_eq.2 (hquotes.1 c hc)) (ne_nil_of_sameName hword)
        (fun c hc => beq_eq_false_iff_ne.2 (hplain c hc).2) fun c hc => beq_iff_eq.2 (hquotes.2 c hc)
    rw [htrim, hunquote, hword]
  · intro hword
    obtain ⟨blanks, blanks', hentry, hblanks, hblanks'⟩ := Text.exists_of_stripped Text.isBlank entry
    obtain ⟨quotes, quotes', hinner, hquotes, hquotes'⟩ :=
      Text.exists_of_stripped (· == '\'') (Text.trim entry)
    refine ⟨blanks, quotes, unquote (Text.trim entry), quotes', blanks', ?_,
      List.forall_mem_append.2 ⟨hblanks, hblanks'⟩,
      List.forall_mem_append.2 ⟨fun c hc => beq_iff_eq.1 (hquotes c hc),
        fun c hc => beq_iff_eq.1 (hquotes' c hc)⟩, hword⟩
    rw [unquote, ← hinner]
    exact hentry

theorem listed_eq_splitOn (cs : List Char) : listed cs = cs.splitOn ',' := by
  induction cs with
  | nil => rfl
  | cons c cs ih =>
    rw [listed, ih, List.splitOn_cons_eq_if_modifyHead]
    obtain ⟨part, parts, hparts⟩ := List.exists_cons_of_ne_nil (List.splitOn_ne_nil ',' cs)
    rw [hparts]
    rfl

theorem comma_notMem_of_mem_listed {cs part : List Char} (h : part ∈ listed cs) : ',' ∉ part := by
  induction cs generalizing part with
  | nil =>
    obtain rfl := List.mem_singleton.1 h
    exact List.not_mem_nil
  | cons c cs ih =>
    rw [listed] at h
    cases hlisted : listed cs with
    | nil =>
      rw [hlisted] at h
      obtain rfl := List.mem_singleton.1 h
      exact List.not_mem_nil
    | cons first parts =>
      rw [hlisted] at h ih
      dsimp only at h
      by_cases hc : c = ','
      · rw [if_pos (beq_iff_eq.2 hc)] at h
        obtain rfl | h := List.mem_cons.1 h
        · exact List.not_mem_nil
        · exact ih h
      · rw [if_neg (fun h => hc (beq_iff_eq.1 h))] at h
        obtain rfl | h := List.mem_cons.1 h
        · exact List.not_mem_cons_of_ne_of_not_mem (Ne.symm hc) (ih List.mem_cons_self)
        · exact ih (List.mem_cons_of_mem first h)

theorem eq_listed_iff {cs : List Char} {entries : List (List Char)} : entries = listed cs ↔
    entries ≠ [] ∧ cs = [','].intercalate entries ∧ ∀ entry ∈ entries, ',' ∉ entry := by
  constructor
  · rintro rfl
    refine ⟨?_, ?_, fun entry h => comma_notMem_of_mem_listed h⟩
    · rw [listed_eq_splitOn]
      exact List.splitOn_ne_nil ',' cs
    · rw [listed_eq_splitOn, List.intercalate_splitOn]
  · rintro ⟨hne, rfl, hcomma⟩
    rw [listed_eq_splitOn, List.splitOn_intercalate ',' hcomma hne]

theorem admitsTables_iff {s : TableSearch} : s.admitsTables = true ↔ s.AdmitsTables := by
  unfold admitsTables AdmitsTables
  cases s.kinds with
  | none => exact iff_of_true rfl (.inl rfl)
  | some kinds =>
    rw [or_iff_right nofun, Option.some_inj, Option.some_inj, Bool.or_eq_true, Bool.or_eq_true,
      String.isEmpty_iff, beq_iff_eq, or_assoc, List.any_eq_true]
    refine or_congr_right (or_congr_right ⟨?_, ?_⟩)
    · rintro ⟨entry, hentry, hasks⟩
      obtain ⟨-, htext, hcomma⟩ := eq_listed_iff.1 rfl
      exact ⟨kinds, listed kinds.toList, rfl, htext, hcomma, entry, hentry, asksForTables_iff.2 hasks⟩
    · rintro ⟨kinds', entries, hkinds, htext, hcomma, entry, hentry, hasks⟩
      obtain rfl := Option.some.inj hkinds
      obtain rfl := eq_listed_iff.2 ⟨List.ne_nil_of_mem hentry, htext, hcomma⟩
      exact ⟨entry, hentry, asksForTables_iff.1 hasks⟩

example : admitsTables { kinds := some "VIEW, ''Table' " } = true := by decide +kernel

end Kinds

def ForCatalogs (s : TableSearch) : Prop :=
  s.catalog = some "%" ∧ s.schema = some "" ∧ s.table = some ""

def ForSchemas (s : TableSearch) : Prop :=
  s.schema = some "%" ∧ s.catalog = some "" ∧ s.table = some ""

def ForKinds (s : TableSearch) : Prop :=
  s.kinds = some "%" ∧ s.catalog = some "" ∧ s.schema = some "" ∧ s.table = some ""

structure ForTables (s : TableSearch) : Prop where
  catalogs : ¬ s.ForCatalogs
  schemas : ¬ s.ForSchemas
  kinds : ¬ s.ForKinds

def Admissible (s : TableSearch) : Prop := NoCatalog s.catalog ∧ s.AdmitsTables

def Consults (s : TableSearch) : Prop := s.ForSchemas ∨ s.ForTables ∧ s.Admissible

section Modes
variable {s : TableSearch} (source : Source)

theorem listsCatalogs_iff : s.listsCatalogs = true ↔ s.ForCatalogs := by
  simp only [listsCatalogs, ForCatalogs, Bool.and_eq_true, beq_iff_eq, and_assoc]

theorem listsSchemas_iff : s.listsSchemas = true ↔ s.ForSchemas := by
  simp only [listsSchemas, ForSchemas, Bool.and_eq_true, beq_iff_eq, and_assoc]

theorem listsKinds_iff : s.listsKinds = true ↔ s.ForKinds := by
  simp only [listsKinds, ForKinds, Bool.and_eq_true, beq_iff_eq, and_assoc]

theorem ForSchemas.not_forCatalogs (h : s.ForSchemas) : ¬ s.ForCatalogs := by
  rintro ⟨hcatalog, -⟩
  exact absurd (h.2.1.symm.trans hcatalog) (by decide)

theorem ForKinds.not_forCatalogs (h : s.ForKinds) : ¬ s.ForCatalogs := by
  rintro ⟨hcatalog, -⟩
  exact absurd (h.2.1.symm.trans hcatalog) (by decide)

theorem ForKinds.not_forSchemas (h : s.ForKinds) : ¬ s.ForSchemas := by
  rintro ⟨hschema, -⟩
  exact absurd (h.2.2.1.symm.trans hschema) (by decide)

theorem run_of_forCatalogs (h : s.ForCatalogs) : s.run source = .ok [] :=
  if_pos (listsCatalogs_iff.2 h)

theorem run_of_forSchemas (h : s.ForSchemas) : s.run source =
    source.tables.map fun tables => (tables.map TableRef.schema).eraseDups.map .schema := by
  rw [run, if_neg (h.not_forCatalogs ∘ listsCatalogs_iff.1), if_pos (listsSchemas_iff.2 h)]

theorem run_of_forKinds (h : s.ForKinds) : s.run source = .ok [.kind] := by
  rw [run, if_neg (h.not_forCatalogs ∘ listsCatalogs_iff.1),
    if_neg (h.not_forSchemas ∘ listsSchemas_iff.1), if_pos (listsKinds_iff.2 h)]

theorem run_of_forTables (h : s.ForTables) : s.run source =
    if noCatalog s.catalog && s.admitsTables then
      source.tables.map fun tables => (tables.filter fun t => t.fits s.schema s.table).map .table
    else .ok [] := by
  rw [run, if_neg (h.catalogs ∘ listsCatalogs_iff.1), if_neg (h.schemas ∘ listsSchemas_iff.1),
    if_neg (h.kinds ∘ listsKinds_iff.1)]

theorem admissible_iff : (noCatalog s.catalog && s.admitsTables) = true ↔ s.Admissible := by
  rw [Bool.and_eq_true, noCatalog_iff, admitsTables_iff, Admissible]

theorem run_of_admissible (h : s.ForTables) (hadmissible : s.Admissible) : s.run source =
    source.tables.map fun tables =>
      (tables.filter fun t => t.Fits s.schema s.table).map .table := by
  rw [run_of_forTables source h, if_pos (admissible_iff.2 hadmissible)]
  simp only [TableRef.filter_fits]

theorem run_of_not_admissible (h : s.ForTables) (hadmissible : ¬ s.Admissible) :
    s.run source = .ok [] := by
  rw [run_of_forTables source h, if_neg (hadmissible ∘ admissible_iff.1)]

theorem run_eq_error_iff (e : Error) :
    s.run source = .error e ↔ s.Consults ∧ source.tables = .error e := by
  by_cases hschemas : s.ForSchemas
  · rw [run_of_forSchemas source hschemas, map_eq_error]
    exact (and_iff_right (.inl hschemas)).symm
  · rw [Consults, or_iff_right hschemas]
    by_cases htables : s.ForTables
    · by_cases hadmissible : s.Admissible
      · rw [run_of_admissible source htables hadmissible, map_eq_error]
        exact (and_iff_right ⟨htables, hadmissible⟩).symm
      · rw [run_of_not_admissible source htables hadmissible]
        exact iff_of_false nofun fun h => hadmissible h.1.2
    · refine iff_of_false (fun h => ?_) fun h => htables h.1.1
      by_cases hcatalogs : s.ForCatalogs
      · cases (run_of_forCatalogs source hcatalogs).symm.trans h
      · by_cases hkinds : s.ForKinds
        · cases (run_of_forKinds source hkinds).symm.trans h
        · exact htables ⟨hcatalogs, hschemas, hkinds⟩

end Modes

/-- The row of a schema; a row stands for a catalog, a schema, a name, a kind and remarks. -/
def schemaRow (name : String) : Row := [.null, .text name, .null, .null, .null]

def kindRow : Row := [.null, .null, .null, .text "TABLE", .null]

def tableRow (t : TableRef) : Row := [.null, .text t.schema, .text t.name, .text "TABLE", .null]

/-- A search for catalogs shows nothing, one for kinds the one kind, and one for schemas each schema of
the source once, in the order in which they first come. Any other search shows the tables that fit, each
as often as it is listed and in that order, or nothing where it names a catalog or asks for other kinds.
It fails exactly where it needs the tables of the source and these cannot be listed. -/
theorem search_shows_entries :
    Layout.tables.columns.map Column.name =
      ["TABLE_CAT", "TABLE_SCHEM", "TABLE_NAME", "TABLE_TYPE", "REMARKS"] ∧
    ∀ (s : TableSearch) (settings : Settings) (source : Source) (statement : Statement),
      let opened (rows : List Row) : Outcome × Statement :=
        (.ok .done, .showing Layout.tables.columns rows)
      let asked := statement.query settings source (.tables s)
      (s.ForCatalogs → asked = opened []) ∧
      (s.ForKinds → asked = opened [kindRow]) ∧
      (s.ForSchemas → ∀ tables, source.tables = .ok tables → ∃ names,
        (∀ firsts, FirstOccurrences (tables.map TableRef.schema) firsts ↔ firsts = names) ∧
        asked = opened (names.map schemaRow)) ∧
      (s.ForTables → ¬ s.Admissible → asked = opened []) ∧
      (s.ForTables → s.Admissible → ∀ tables, source.tables = .ok tables →
        asked = opened ((tables.filter fun t => t.Fits s.schema s.table).map tableRow)) ∧
      (∀ e, s.Consults → source.tables = .error e → asked = (.error (.refused e), .failed e)) ∧
      ((∃ fault, asked.1 = .error fault) ↔ s.Consults ∧ ∃ e, source.tables = .error e) := by
  refine ⟨by decide +kernel, fun s settings source statement => ?_⟩
  intro opened asked
  have hanswer : (Query.tables s).answer settings source =
      (s.run source).map (Query.answer.rows Layout.tables) := rfl
  have hfound {found : List TableEntry} (h : s.run source = .ok found) :
      asked = opened (found.map Layout.tables.row) := Statement.query_of_found hanswer h statement
  have hfailed {e : Error} (h : s.run source = .error e) :
      asked = (.error (.refused e), .failed e) := Statement.query_of_not_found hanswer h statement
  refine ⟨fun h => hfound (run_of_forCatalogs source h), fun h => hfound (run_of_forKinds source h),
    fun h tables htables => ?schemas, fun h hnot => hfound (run_of_not_admissible source h hnot),
    fun h hadmissible tables htables => ?tables,
    fun e h he => hfailed ((run_eq_error_iff source e).2 ⟨h, he⟩), ?failure⟩
  case schemas =>
    have hrun := run_of_forSchemas source h
    rw [htables] at hrun
    have hfirsts := FirstOccurrences.eraseDups (tables.map TableRef.schema)
    refine ⟨_, fun firsts => ⟨fun h => h.unique hfirsts, fun h => h ▸ hfirsts⟩, ?_⟩
    rw [hfound hrun, List.map_map]
    rfl
  case tables =>
    have hrun := run_of_admissible source h hadmissible
    rw [htables] at hrun
    rw [hfound hrun, List.map_map]
    rfl
  case failure =>
    cases hrun : s.run source with
    | error e =>
      obtain ⟨hconsults, he⟩ := (run_eq_error_iff source e).1 hrun
      rw [hfailed hrun]
      exact iff_of_true ⟨_, rfl⟩ ⟨hconsults, e, he⟩
    | ok found =>
      rw [hfound hrun]
      refine iff_of_false nofun fun ⟨hconsults, e, he⟩ => ?_
      cases hrun.symm.trans ((run_eq_error_iff source e).2 ⟨hconsults, he⟩)

/-- A schema comes once where its first table stands, and kinds may be quoted among others. -/
theorem search_shows_schemas_and_tables :
    let tables : List TableRef := [⟨"S", "T"⟩, ⟨"R", "T"⟩, ⟨"S", "U"⟩]
    let source : Source := ⟨.ok tables, fun _ => .error (.provider "gone")⟩
    let schemas : TableSearch := { catalog := some "", schema := some "%", table := some "" }
    let named : TableSearch := { schema := some "s", kinds := some "VIEW, 'table' " }
    (schemas.ForSchemas ∧ named.ForTables ∧ named.Admissible) ∧
    Statement.query {} source {} (.tables schemas) =
      (.ok .done, .showing Layout.tables.columns [schemaRow "S", schemaRow "R"]) ∧
    Statement.query {} source {} (.tables named) =
      (.ok .done, .showing Layout.tables.columns [tableRow ⟨"S", "T"⟩, tableRow ⟨"S", "U"⟩]) := by
  intro tables source schemas named
  have hschemas : schemas.ForSchemas := ⟨rfl, rfl, rfl⟩
  have hnamed : named.ForTables :=
    ⟨listsCatalogs_iff.not.1 (by decide), listsSchemas_iff.not.1 (by decide),
      listsKinds_iff.not.1 (by decide)⟩
  have hadmissible : named.Admissible := admissible_iff.1 (by decide +kernel)
  refine ⟨⟨hschemas, hnamed, hadmissible⟩, ?_, ?_⟩
  · obtain ⟨names, hfirsts, hasked⟩ :=
      (search_shows_entries.2 schemas {} source {}).2.2.1 hschemas tables rfl
    obtain rfl : ["S", "R"] = names := by
      refine (hfirsts _).1 ⟨fun x => ?_, by decide⟩
      simp only [tables, List.map_cons, List.map_nil, List.mem_cons, List.not_mem_nil]
      tauto
    exact hasked
  · have hfit : tables.filter (fun t => t.Fits named.schema named.table) = [⟨"S", "T"⟩, ⟨"S", "U"⟩] := by
      decide +kernel
    have hasked :=
      (search_shows_entries.2 named {} source {}).2.2.2.2.1 hnamed hadmissible tables rfl
    rw [hfit] at hasked
    exact hasked

end TableSearch
end CacheCatalog
