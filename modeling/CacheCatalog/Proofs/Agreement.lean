import CacheCatalog.Proofs.SingleTable
import CacheCatalog.Statement

/-! Agreement of the columns query with described statements. A row of the query tells of its column
under the headings what a statement over the same table tells of it by attribute and at once. -/
namespace CacheCatalog

theorem Layout.names_columns {α : Type} (l : Layout α) :
    l.columns.map Column.name = l.map LayoutField.name := by
  unfold Layout.columns
  generalize 0 = start
  induction l generalizing start with
  | nil => rfl
  | cons f l ih =>
    rw [List.zipIdx_cons, List.map_cons, List.map_cons, ih, List.map_cons]
    rfl

theorem Row.named?_row {α : Type} {l : Layout α} {name : String} {i : Nat} {f : LayoutField α}
    (hindex : (l.map LayoutField.name).findIdx? (Text.sameName · name) = some i)
    (hfield : l[i]? = some f) (entry : α) :
    Row.named? (l.row entry) l.columns name = some (f.cell entry) := by
  have hposition : Column.position? l.columns name = some i := by
    rw [← hindex, ← Layout.names_columns, List.findIdx?_map]
    rfl
  unfold Row.named?
  rw [hposition]
  show (l.row entry)[i]? = _
  rw [Layout.row, List.getElem?_map, hfield]
  rfl

theorem Layout.named?_columnList {limits : Limits} {name : String} (i : Nat) {f : LayoutField Column}
    (hindex : ((columnList {}).map LayoutField.name).findIdx? (Text.sameName · name) = some i)
    (hfield : (columnList limits)[i]? = some f) (c : Column) :
    Row.named? ((columnList limits).row c) (columnList limits).columns name = some (f.cell c) := by
  have hindex' : ((columnList limits).map LayoutField.name).findIdx? (Text.sameName · name) =
      some i := hindex
  exact Row.named?_row hindex' hfield c

def AttributeValue.cell : AttributeValue → Cell
  | int v => .int v
  | text s => .text s

def Cell.orZero : Cell → Cell
  | null => int 0
  | cell => cell

/-- The headings of the columns query with the number of an attribute that says the same. -/
def sameAttributes : List (String × Nat) :=
  [("COLUMN_NAME", 1011), ("TABLE_SCHEM", 16), ("TABLE_NAME", 15), ("DATA_TYPE", 2),
    ("SQL_DATA_TYPE", 1002), ("TYPE_NAME", 14), ("COLUMN_SIZE", 1003), ("BUFFER_LENGTH", 1013),
    ("BUFFER_LENGTH", 3), ("NULLABLE", 1008)]

/-- The headings that are left empty for columns whose attribute is 0. -/
def digitAttributes : List (String × Nat) := [("DECIMAL_DIGITS", 1006), ("NUM_PREC_RADIX", 32)]

structure Row.TellsAs (row : Row) (headings : List Column) (settings : Settings) (s : Statement)
    (ordinal : Nat) : Prop where
  attributes : ∀ x ∈ sameAttributes, ∃ value,
    (s.call settings (.columnAttribute ordinal x.2)).1 = .ok (.value value) ∧
      row.named? headings x.1 = some value.cell
  digits : ∀ x ∈ digitAttributes, ∃ value cell,
    (s.call settings (.columnAttribute ordinal x.2)).1 = .ok (.value value) ∧
      row.named? headings x.1 = some cell ∧ cell.orZero = value.cell
  description : ∃ d digits,
    (s.call settings (.describeColumn ordinal)).1 = .ok (.description d) ∧
      row.named? headings "COLUMN_NAME" = some (.text d.name) ∧
      row.named? headings "DATA_TYPE" = some (.int d.sqlType) ∧
      row.named? headings "COLUMN_SIZE" = some (.int d.columnSize) ∧
      row.named? headings "DECIMAL_DIGITS" = some digits ∧ digits.orZero = .int d.scale ∧
      row.named? headings "NULLABLE" = some (.int d.nullable)
  position : row.named? headings "ORDINAL_POSITION" = some (.int ordinal)

theorem Column.attributeValue_of_ne_count {field : AttributeField} (h : field ≠ .count)
    (columns : List Column) (limits : Limits) (n : Nat) :
    Column.attributeValue columns limits n field =
      (Column.atOrdinal columns n).map fun c => field.valueIn columns.length limits c := by
  cases field <;> first | exact absurd rfl h | rfl

section Projection
variable {settings : Settings} {s : Statement} {columns : List Column} {n : Nat} {c : Column}

theorem call_columnAttribute (hcolumns : s.result.columns = .ok columns)
    (hcolumn : Column.atOrdinal columns n = .ok c) {number : Nat} {field : AttributeField}
    (hfield : AttributeField.ofNumber? number = some field) (hcount : field ≠ .count) :
    (s.call settings (.columnAttribute n number)).1 =
      .ok (.value (field.valueIn columns.length settings.limits c)) := by
  have hnumber : AttributeField.ofNumber number = .ok field := by
    rw [AttributeField.ofNumber, hfield]
  have hvalue : Column.attributeValue columns settings.limits n field =
      .ok (field.valueIn columns.length settings.limits c) := by
    rw [Column.attributeValue_of_ne_count hcount, hcolumn]
    rfl
  have hattribute : s.result.attributeValue settings.limits n number =
      .ok (field.valueIn columns.length settings.limits c) := by
    rw [ResultSet.attributeValue, hnumber, hcolumns]
    exact hvalue
  show Outcome.ofExcept ((s.result.attributeValue settings.limits n number).map .value) = _
  rw [hattribute]
  rfl

theorem orZero_decimalDigits (limits : Limits) (c : Column) :
    (if c.descriptor.decimalDigits.isSome || c.type = .decimal then .int (c.extent limits).scale
      else .null : Cell).orZero = .int (c.extent limits).scale := by
  obtain ⟨ordinal, name, table, type, size, nullable⟩ := c
  cases type <;> rfl

theorem orZero_ofNat? (x : Option Nat) : (Cell.ofNat? x).orZero = .int (x.getD 0 : Nat) := by
  cases x <;> rfl

theorem exists_attribute_eq_cell (hcolumns : s.result.columns = .ok columns)
    (hcolumn : Column.atOrdinal columns n = .ok c) (i : Nat) {name : String} {number : Nat}
    {f : LayoutField Column} {field : AttributeField}
    (hindex : ((Layout.columnList {}).map LayoutField.name).findIdx? (Text.sameName · name) = some i)
    (hf : (Layout.columnList settings.limits)[i]? = some f)
    (hfield : AttributeField.ofNumber? number = some field) (hcount : field ≠ .count)
    (hcell : f.cell c = (field.valueIn columns.length settings.limits c).cell) :
    ∃ value, (s.call settings (.columnAttribute n number)).1 = .ok (.value value) ∧
      Row.named? ((Layout.columnList settings.limits).row c)
        (Layout.columnList settings.limits).columns name = some value.cell := by
  refine ⟨_, call_columnAttribute hcolumns hcolumn hfield hcount, ?_⟩
  rw [Layout.named?_columnList i hindex hf c, hcell]

theorem call_describeColumn (hcolumns : s.result.columns = .ok columns)
    (hcolumn : Column.atOrdinal columns n = .ok c) :
    (s.call settings (.describeColumn n)).1 = .ok (.description
      ⟨c.name, c.descriptor.sqlType, (c.extent settings.limits).columnSize,
        (c.extent settings.limits).scale, c.nullable⟩) := by
  show Outcome.ofExcept (s.result.describeColumn settings.limits n) = _
  rw [ResultSet.describeColumn, hcolumns]
  show Outcome.ofExcept (Column.atOrdinal columns n >>= _) = _
  rw [hcolumn]
  rfl

theorem row_tellsAs (hresult : s.result = .projection columns)
    (hcolumn : Column.atOrdinal columns n = .ok c) (hordinal : c.ordinal = n) :
    Row.TellsAs ((Layout.columnList settings.limits).row c) (Layout.columnList settings.limits).columns
      settings s n := by
  have hcolumns : s.result.columns = .ok columns := congrArg ResultSet.columns hresult
  have hdigits : Row.named? ((Layout.columnList settings.limits).row c)
      (Layout.columnList settings.limits).columns "DECIMAL_DIGITS" = some _ :=
    Layout.named?_columnList 8 (by decide +kernel) rfl c
  constructor
  case attributes =>
    have hsame := @exists_attribute_eq_cell settings s columns n c hcolumns hcolumn
    simp only [sameAttributes, List.forall_mem_cons]
    refine ⟨hsame 3 ?_ rfl rfl ?_ rfl, hsame 1 ?_ rfl rfl ?_ rfl, hsame 2 ?_ rfl rfl ?_ rfl,
      hsame 4 ?_ rfl rfl ?_ rfl, hsame 13 ?_ rfl rfl ?_ rfl, hsame 5 ?_ rfl rfl ?_ rfl,
      hsame 6 ?_ rfl rfl ?_ rfl, hsame 7 ?_ rfl rfl ?_ rfl, hsame 7 ?_ rfl rfl ?_ rfl,
      hsame 10 ?_ rfl rfl ?_ rfl, by simp⟩ <;> decide +kernel
  case digits =>
    simp only [digitAttributes, List.forall_mem_cons]
    refine ⟨⟨_, _, call_columnAttribute hcolumns hcolumn rfl (by decide), hdigits,
      orZero_decimalDigits settings.limits c⟩, ⟨_, _, call_columnAttribute hcolumns hcolumn rfl
      (by decide), Layout.named?_columnList 9 (by decide +kernel) rfl c, orZero_ofNat? _⟩, by simp⟩
  case description =>
    exact ⟨_, _, call_describeColumn hcolumns hcolumn,
      Layout.named?_columnList 3 (by decide +kernel) rfl c,
      Layout.named?_columnList 4 (by decide +kernel) rfl c,
      Layout.named?_columnList 6 (by decide +kernel) rfl c, hdigits,
      orZero_decimalDigits settings.limits c,
      Layout.named?_columnList 10 (by decide +kernel) rfl c⟩
  case position =>
    rw [← hordinal]
    exact Layout.named?_columnList 16 (by decide +kernel) rfl c

theorem call_columnCount (hresult : s.result = .projection columns)
    (hlength : columns.length ≤ maxColumns) :
    (s.call settings .columnCount).1 = .ok (.count columns.length) := by
  have hcount : s.result.count = .ok (.count columns.length) := by
    rw [hresult]
    exact if_pos hlength
  show Outcome.ofExcept s.result.count = _
  rw [hcount]
  rfl

end Projection

/-- For a table that no other listed one equals but for letter case, whatever the statements had: the
columns query for its escaped names and a description of its full name succeed together or fail with
one error. Where they succeed there is a row for each column, and each row tells of its column what the
described statement tells. -/
theorem columns_query_agrees_with_description (settings : Settings) (store : Store) (s t : String)
    (before before' : Statement) (hlisted : ⟨s, t⟩ ∈ store.tables) (hs : s ≠ "") (ht : t ≠ "")
    (hpoint : '.' ∉ s.toList)
    (honly : ∀ r ∈ store.tables, r.same ⟨s, t⟩ = true → r = ⟨s, t⟩) :
    let found := before.query settings store.source
      (.columns { schema := some (Pattern.escape s), table := some (Pattern.escape t) })
    let described := before'.query settings store.source (.describe (s ++ "." ++ t) [])
    found.1 = described.1 ∧
    ∀ reply, found.1 = .ok reply → ∃ c rows ended, found.2.cursor? = some c ∧
      c.fetchAll = .ok (rows, ended) ∧
      (described.2.call settings .columnCount).1 = .ok (.count rows.length) ∧
      ∀ i row, rows[i]? = some row → Row.TellsAs row c.columns settings described.2 (i + 1) := by
  intro found described
  have hsearch := Store.run_ofTable hlisted hs ht honly
  have hfound : (Query.columns (.ofTable ⟨s, t⟩)).answer settings store.source =
      (Projection.columns store.source ⟨s, t⟩ []).map
        (Query.answer.rows (Layout.columnList settings.limits)) := by
    rw [← hsearch]
    rfl
  have hdescribed : (Query.describe (s ++ "." ++ t) []).answer settings store.source =
      (Projection.columns store.source ⟨s, t⟩ []).map .projection := by
    rw [← TableRef.ofName_append settings.schema t hpoint]
    rfl
  -- both answers are made of one list of columns, or of one failure to get it
  cases hcolumns : Projection.columns store.source ⟨s, t⟩ [] with
  | error e =>
    rw [hcolumns] at hfound hdescribed
    have hleft : found.1 = .error (.refused e) :=
      congrArg Prod.fst (Statement.query_of_error hfound before)
    have hright : described.1 = .error (.refused e) :=
      congrArg Prod.fst (Statement.query_of_error hdescribed before')
    refine ⟨hleft.trans hright.symm, fun reply hreply => ?_⟩
    rw [hleft] at hreply
    cases hreply
  | ok columns =>
    have hdeclared := hcolumns
    rw [Projection.columns_nil] at hdeclared
    rw [hcolumns] at hfound hdescribed
    have hleft : found = (.ok .done, _) := Statement.query_of_ok hfound before
    have hright : described = (.ok .done, _) := Statement.query_of_ok hdescribed before'
    have hresult : described.2.result = .projection columns := by rw [hright]
    refine ⟨by rw [hleft, hright], fun reply _ => ?_⟩
    refine ⟨_, columns.map (Layout.columnList settings.limits).row, _, by rw [hleft]; rfl, rfl, ?_, ?_⟩
    · rw [List.length_map]
      exact call_columnCount hresult (Projection.length_declared_le hdeclared)
    · intro i row hrow
      rw [List.getElem?_map] at hrow
      obtain ⟨c, hc, rfl⟩ := Option.map_eq_some_iff.1 hrow
      exact row_tellsAs hresult (by rw [Column.atOrdinal, hc])
        (Projection.ordinal_of_declared hdeclared hc).1

theorem columns_query_agrees_on_special_names :
    let store := (Store.register Keyed.empty ⟨"a_b", "T%"⟩ [⟨"C", 30, {}, true⟩]).register
      ⟨"axb", "T"⟩ [⟨"D", 9, {}, true⟩]
    (⟨"a_b", "T%"⟩ ∈ store.tables ∧ '.' ∉ "a_b".toList ∧
      ∀ r ∈ store.tables, r.same ⟨"a_b", "T%"⟩ = true → r = ⟨"a_b", "T%"⟩) ∧
    ∃ c rows ended,
      (Statement.query {} store.source {}
        (.columns { schema := some "a\\_b", table := some "T\\%" })).2.cursor? = some c ∧
      c.fetchAll = .ok (rows, ended) ∧ rows.length = 1 ∧
      ∀ i row, rows[i]? = some row → Row.TellsAs row c.columns {}
        (Statement.query {} store.source {} (.describe "a_b.T%" [])).2 (i + 1) := by
  intro store
  have hlisted : ⟨"a_b", "T%"⟩ ∈ store.tables := by decide +kernel
  have hpoint : '.' ∉ "a_b".toList := by decide +kernel
  have honly : ∀ r ∈ store.tables, r.same ⟨"a_b", "T%"⟩ = true → r = ⟨"a_b", "T%"⟩ := by
    decide +kernel
  obtain ⟨-, hrows⟩ := columns_query_agrees_with_description {} store "a_b" "T%" {} {} hlisted
    (by decide) (by decide) hpoint honly
  rw [show Pattern.escape "a_b" = "a\\_b" by decide +kernel,
    show Pattern.escape "T%" = "T\\%" by decide +kernel,
    show "a_b" ++ "." ++ "T%" = "a_b.T%" by decide +kernel] at hrows
  obtain ⟨c, rows, ended, hcursor, hall, hcount, htells⟩ := hrows .done (by decide +kernel)
  have hone : ((Statement.query {} store.source {} (.describe "a_b.T%" [])).2.call {}
      .columnCount).1 = .ok (.count 1) := by decide +kernel
  have hlength : rows.length = 1 := by
    rw [hone] at hcount
    exact (Reply.count.inj (Except.ok.inj hcount)).symm
  exact ⟨⟨hlisted, hpoint, honly⟩, c, rows, ended, hcursor, hall, hlength, htells⟩

end CacheCatalog
