import CacheCatalog.Proofs.Agreement

/-! The sizes of columns that declare none. However its settings came about, a connection has decimal
sizes that a column can have, and nothing that resolves a column changes them again; a length is open
where 0 was set, and stays so up to the attributes that are told of a column. -/
namespace CacheCatalog

namespace Settings

structure DecimalFits (s : Settings) : Prop where
  precision : 1 ≤ s.precision ∧ s.precision ≤ maxPrecision
  scale : 0 ≤ s.scale ∧ s.scale ≤ s.precision

theorem checkDecimal_eq_ok {s : Settings} :
    checkDecimal s.precision s.scale = .ok () ↔ s.DecimalFits := by
  constructor
  · intro h
    unfold checkDecimal at h
    split at h
    · cases h
    · split at h
      · cases h
      · exact ⟨by omega, by omega⟩
  · rintro ⟨hprecision, hscale⟩
    unfold checkDecimal
    rw [if_neg (by omega), if_neg (by omega)]

theorem read_cases (text : String) :
    (∃ s, read text = .ok s ∧ parse text = .ok s) ∨
      ∃ fault, read text = .error fault ∧ parse text = .error (.setting fault) := by
  unfold parse
  cases read text with
  | error fault => exact .inr ⟨fault, rfl, rfl⟩
  | ok s => exact .inl ⟨s, rfl, rfl⟩

theorem read_eq_ok_iff {text : String} {s : Settings} : read text = .ok s ↔
    ∃ ps, pairs text.toList = .ok ps ∧ setAll {} ps = .ok s ∧ s.DecimalFits := by
  constructor
  · intro h
    obtain ⟨ps, hpairs, h⟩ := bind_eq_ok.1 h
    obtain ⟨t, hset, h⟩ := bind_eq_ok.1 h
    obtain ⟨⟨⟩, hcheck, hlast⟩ := bind_eq_ok.1 h
    obtain rfl := Except.ok.inj hlast
    exact ⟨ps, hpairs, hset, checkDecimal_eq_ok.1 hcheck⟩
  · rintro ⟨ps, hpairs, hset, hfits⟩
    exact bind_eq_ok.2 ⟨ps, hpairs, bind_eq_ok.2 ⟨s, hset,
      bind_eq_ok.2 ⟨(), checkDecimal_eq_ok.2 hfits, rfl⟩⟩⟩

theorem parse_eq_ok_iff {text : String} {s : Settings} : parse text = .ok s ↔
    ∃ ps, pairs text.toList = .ok ps ∧ setAll {} ps = .ok s ∧ s.DecimalFits := by
  rw [← read_eq_ok_iff]
  obtain ⟨t, hread, hparse⟩ | ⟨fault, hread, hparse⟩ := read_cases text
  · rw [hread, hparse, Except.ok.injEq, Except.ok.injEq]
  · rw [hread, hparse]
    exact iff_of_false nofun nofun

theorem decimalFits_of_parse {text : String} {s : Settings} (h : parse text = .ok s) :
    s.DecimalFits := by
  obtain ⟨_, -, -, hfits⟩ := parse_eq_ok_iff.1 h
  exact hfits

theorem changed_cases (s : Settings) (change : SettingChange) :
    ((s.changed change).precision = s.precision ∧ (s.changed change).scale = s.scale) ∨
    ∃ precision scale, change = .decimal precision scale ∧
      s.changed change = { s with precision, scale } ∧ DecimalFits { s with precision, scale } := by
  cases change with
  | schema | address | stringLength | bytesLength | log => exact .inl ⟨rfl, rfl⟩
  | decimal precision scale =>
    have happly : s.apply (.decimal precision scale) = s.withDecimal precision scale := rfl
    cases hcheck : checkDecimal precision scale with
    | ok u =>
      have hafter : s.changed (.decimal precision scale) = { s with precision, scale } := by
        rw [changed, happly, withDecimal, hcheck]
      exact .inr ⟨precision, scale, rfl, hafter, checkDecimal_eq_ok.1 hcheck⟩
    | error fault =>
      have hafter : s.changed (.decimal precision scale) = s := by
        rw [changed, happly, withDecimal, hcheck]
      rw [hafter]
      exact .inl ⟨rfl, rfl⟩

theorem decimalFits_changed {s : Settings} (h : s.DecimalFits) (change : SettingChange) :
    (s.changed change).DecimalFits := by
  obtain ⟨hprecision, hscale⟩ | ⟨precision, scale, -, hafter, hfits⟩ := s.changed_cases change
  · constructor
    · rw [hprecision]
      exact h.precision
    · rw [hprecision, hscale]
      exact h.scale
  · rw [hafter]
    exact hfits

theorem decimalFits_foldl_changed {s : Settings} (h : s.DecimalFits)
    (changes : List SettingChange) : (changes.foldl changed s).DecimalFits := by
  induction changes generalizing s with
  | nil => exact h
  | cons change changes ih => exact ih (decimalFits_changed h change)

end Settings

structure Extent.Takes (e : Extent) (length : Nat) : Prop where
  open_iff : e.columnSize = noTotal ↔ length = 0
  bounded : length ≠ 0 → e.columnSize = (min length maxLength : Nat)
  octets : e.octetLength = e.columnSize

theorem Extent.takes_ofLength (length places : Nat) :
    (ofLength (if length = 0 then none else some length) places).Takes length := by
  by_cases hopen : length = 0
  · subst hopen
    exact ⟨iff_of_true rfl rfl, fun h => absurd rfl h, rfl⟩
  · have hsize : (ofLength (if length = 0 then none else some length) places).columnSize =
        (min length maxLength : Nat) := by
      rw [if_neg hopen]
      rfl
    constructor
    · rw [hsize]
      exact iff_of_false (by unfold noTotal; omega) hopen
    · exact fun _ => hsize
    · rfl

theorem Column.extent_of_decimal {s : Settings} (h : s.DecimalFits) {c : Column}
    (htype : c.type = .decimal) (hprecision : c.size.precision = none)
    (hscale : c.size.scale = none) :
    c.extent s.limits =
      ⟨s.precision, s.precision + 2, s.precision + 2, s.precision, s.scale⟩ := by
  have hdigits : Extent.decimalDigits c.size s.limits = (s.precision, s.scale.toNat) := by
    obtain ⟨hpositive, hle⟩ := h.precision
    obtain ⟨hnonneg, hscale_le⟩ := h.scale
    unfold Extent.decimalDigits
    rw [hprecision, hscale]
    show (max 1 (min s.precision maxPrecision),
      min s.scale.toNat (max 1 (min s.precision maxPrecision))) = _
    have hkept : max 1 (min s.precision maxPrecision) = s.precision := by omega
    rw [hkept, Nat.min_eq_left (by omega)]
  unfold Column.extent
  rw [htype]
  show Extent.ofDecimal (Extent.decimalDigits c.size s.limits) = _
  rw [hdigits, Extent.ofDecimal, Int.toNat_of_nonneg h.scale.1]
  rfl

theorem Column.takes_of_string (s : Settings) {c : Column} (htype : c.type = .string)
    (hlength : c.size.length = none) : (c.extent s.limits).Takes s.stringLength := by
  unfold Column.extent
  rw [htype, FieldType.extent, hlength]
  exact Extent.takes_ofLength s.stringLength 1

theorem Column.takes_of_bytes (s : Settings) {c : Column} (htype : c.type = .bytes)
    (hlength : c.size.length = none) : (c.extent s.limits).Takes s.bytesLength := by
  unfold Column.extent
  rw [htype, FieldType.extent, hlength]
  exact Extent.takes_ofLength s.bytesLength 2

def Extent.attributes (e : Extent) : List (Nat × Int) :=
  [(1003, e.columnSize), (3, e.octetLength), (1013, e.octetLength), (6, e.displaySize),
    (4, e.precision), (5, e.scale), (1006, e.scale)]

structure Statement.TellsExtent (settings : Settings) (s : Statement) (n : Nat) (e : Extent) :
    Prop where
  attributes : ∀ x ∈ e.attributes,
    (s.call settings (.columnAttribute n x.1)).1 = .ok (.value (.int x.2))
  description : ∃ d, (s.call settings (.describeColumn n)).1 = .ok (.description d) ∧
    d.columnSize = e.columnSize ∧ d.scale = e.scale

theorem Statement.tellsExtent {settings : Settings} {s : Statement} {columns : List Column} {n : Nat}
    {c : Column} (hcolumns : s.result.columns = .ok columns)
    (hcolumn : Column.atOrdinal columns n = .ok c) :
    s.TellsExtent settings n (c.extent settings.limits) := by
  constructor
  · have hattribute (number : Nat) (field : AttributeField)
        (hfield : AttributeField.ofNumber? number = some field) (hcount : field ≠ .count) :
        (s.call settings (.columnAttribute n number)).1 =
          .ok (.value (field.valueIn columns.length settings.limits c)) :=
      call_columnAttribute hcolumns hcolumn hfield hcount
    simp only [Extent.attributes, List.forall_mem_cons]
    exact ⟨hattribute 1003 .length rfl nofun, hattribute 3 .oldLength rfl nofun,
      hattribute 1013 .octetLength rfl nofun, hattribute 6 .displaySize rfl nofun,
      hattribute 4 .oldPrecision rfl nofun, hattribute 5 .scale rfl nofun,
      hattribute 1006 .scale rfl nofun, by simp⟩
  · exact ⟨_, call_describeColumn hcolumns hcolumn, rfl, rfl⟩

namespace Settings

structure SizesHold (s : Settings) : Prop where
  fits : s.DecimalFits
  decimal : ∀ c : Column, c.type = .decimal → c.size.precision = none → c.size.scale = none →
    c.extent s.limits =
      ⟨s.precision, s.precision + 2, s.precision + 2, s.precision, s.scale⟩
  string : ∀ c : Column, c.type = .string → c.size.length = none →
    (c.extent s.limits).Takes s.stringLength
  bytes : ∀ c : Column, c.type = .bytes → c.size.length = none →
    (c.extent s.limits).Takes s.bytesLength
  told : ∀ (statement : Statement) (columns : List Column) (n : Nat) (c : Column),
    statement.result.columns = .ok columns → Column.atOrdinal columns n = .ok c →
      statement.TellsExtent s n (c.extent s.limits)

/-- After any changes of default settings, or of settings that a connection string gives, the decimal
sizes are in range, and columns that declare no sizes take theirs from the settings as they are. -/
theorem configured_sizes_hold {start : Settings}
    (hstart : start = {} ∨ ∃ text, parse text = .ok start) (changes : List SettingChange) :
    (changes.foldl changed start).SizesHold := by
  have hfits : start.DecimalFits := by
    obtain rfl | ⟨text, htext⟩ := hstart
    · exact ⟨by decide, by decide⟩
    · exact decimalFits_of_parse htext
  have hafter := decimalFits_foldl_changed hfits changes
  exact {
    fits := hafter
    decimal := fun c htype hprecision hscale =>
      Column.extent_of_decimal hafter htype hprecision hscale
    string := fun c htype hlength => Column.takes_of_string _ htype hlength
    bytes := fun c htype hlength => Column.takes_of_bytes _ htype hlength
    told := fun statement columns n c hcolumns hcolumn =>
      Statement.tellsExtent hcolumns hcolumn }

theorem configured_sizes_after_refused_change :
    let start : Settings := { precision := 5, scale := 5, stringLength := 0 }
    let changes : List SettingChange := [.decimal 4 5, .bytesLength 4294967295]
    let s := changes.foldl changed start
    parse "DECIMAL_PRECISION=5;MAX_STRING_LENGTH=0;DECIMAL_SCALE=5" = .ok start ∧
    start.apply (.decimal 4 5) = .error (.setting (.scale 4 5)) ∧ s.SizesHold ∧
    (Column.extent ⟨1, "D", ⟨"", ""⟩, .decimal, {}, 1⟩ s.limits) = ⟨5, 7, 7, 5, 5⟩ ∧
    (Column.extent ⟨1, "S", ⟨"", ""⟩, .string, {}, 1⟩ s.limits).columnSize = noTotal ∧
    (Column.extent ⟨1, "B", ⟨"", ""⟩, .bytes, {}, 1⟩ s.limits).columnSize = maxLength := by
  intro start changes s
  have hparse : parse "DECIMAL_PRECISION=5;MAX_STRING_LENGTH=0;DECIMAL_SCALE=5" = .ok start := by
    decide +kernel
  have hholds : s.SizesHold := configured_sizes_hold (.inr ⟨_, hparse⟩) changes
  refine ⟨hparse, by decide, hholds, ?_, ?_, ?_⟩
  · exact hholds.decimal _ rfl rfl rfl
  · exact (hholds.string _ rfl rfl).open_iff.2 rfl
  · exact (hholds.bytes _ rfl rfl).bounded (by decide)

end Settings
end CacheCatalog
