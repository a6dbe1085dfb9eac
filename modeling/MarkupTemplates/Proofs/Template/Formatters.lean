import MarkupTemplates.Printing

namespace MarkupTemplates

/-- The charset that is configured, UTF-8 if none is. -/
def Settings.charset (settings : Settings) : Charset :=
  (((Dictionary.get? settings "output.encoding").filter (· ≠ [])).bind Charset.ofName?).getD .utf8

/-- What a template prints by rules of its own, whatever formatters its table has. For truth values there is no such
rule if the table has a formatter for them. -/
def Settings.ownText (settings : Settings) (entries : List (ValueKind × Formatter)) : FormatValue → Option Text
  | .null => some (settings.getOr "null.value" [])
  | .bool b =>
    match Formatter.entry? .bool entries with
    | some _ => none
    | none => some (if b then settings.getOr "true.value" "true" else settings.getOr "false.value" "false")
  | .bytes b => some (settings.charset.decode b)
  | .str t => some t
  | _ => none

namespace Formatter

variable {entries : List (ValueKind × Formatter)}

theorem formatBy_eq (entries : List (ValueKind × Formatter)) (kind : ValueKind) (value : FormatValue) :
    formatBy entries kind value = ( entry? kind entries).map (·.format value) := by
  induction entries with
  | nil => rfl
  | cons entry rest ih =>
    obtain ⟨k, formatter⟩ := entry
    rw [formatBy, entry?]
    split
    · rfl
    · exact ih

/-- The formatter of a table that a kind goes by. -/
def chosen (entries : List (ValueKind × Formatter)) (kind : ValueKind) : Option Formatter :=
  entry? kind entries |>.or (if kind.isNumber then entry? .number entries else none)

theorem format_table (entries : List (ValueKind × Formatter)) (value : FormatValue) :
    (table entries).format value = Printing.formatBy (chosen entries value.kind) value := by
  rw [format, formatBy_eq, formatBy_eq, chosen]
  cases entry? value.kind entries with
  | some formatter => rfl
  | none =>
    simp only [Option.map_none, Option.none_or]
    split
    · cases entry? .number entries with
      | some formatter => rfl
      | none => rfl
    · rfl

/-- A formatter counts for its kind, in place of one that was registered before. -/
theorem entry?_register (kind k : ValueKind) (formatter : Formatter) :
    entry? k (register entries kind formatter) = if kind = k then some formatter else entry? k entries := by
  rw [register, entry?]
  split
  · rfl
  · next other =>
    induction entries with
    | nil => rfl
    | cons entry rest ih =>
      rw [List.filter_cons, entry?]
      by_cases replaced : entry.1 = kind
      · rw [if_neg (by simpa using replaced), if_neg (replaced ▸ other), ih]
      · rw [if_pos (by simpa using replaced), entry?, ih]

end Formatter

namespace Printing

open Formatter

variable {settings : Settings} {filter : Option (Text → Text)} {formatter : Option Formatter} {printing : Printing}

/-- What is settled when a template is constructed. -/
theorem ofSettings_ok (accepted : ofSettings settings filter formatter = .ok printing) :
    printing.settings = settings ∧ printing.filter = filter ∧ printing.formatter = formatter ∧
      printing.formatters = .resolve formatter ∧ printing.charset = settings.charset ∧
      printing.nullText = settings.getOr "null.value" [] ∧ printing.trueText = settings.getOr "true.value" "true" ∧
      printing.falseText = settings.getOr "false.value" "false" := by
  rw [charset, Settings.charset]
  unfold ofSettings at accepted
  cases encoding : (Dictionary.get? settings "output.encoding").filter (· ≠ []) with
  | none =>
    rw [encoding] at accepted
    obtain rfl := Except.ok.inj accepted
    exact ⟨rfl, rfl, rfl, rfl, rfl, rfl, rfl, rfl⟩
  | some name =>
    rw [encoding] at accepted
    cases known : Charset.ofName? name with
    | none =>
      simp only [known] at accepted
      cases accepted
    | some charset =>
      simp only [known] at accepted
      obtain rfl := Except.ok.inj accepted
      exact ⟨rfl, rfl, rfl, rfl, (congrArg (·.getD .utf8) known).symm, rfl, rfl, rfl⟩

theorem resolve_table (entries : List (ValueKind × Formatter)) :
    KindFormatters.resolve (some (.table entries)) =
      { bool := chosen entries .bool
        byte := chosen entries .byte
        char := chosen entries .char
        short := chosen entries .short
        int := chosen entries .int
        long := chosen entries .long
        float := chosen entries .float
        double := chosen entries .double
        number := chosen entries .number
        date := chosen entries .date } := by
  simp only [KindFormatters.resolve, chosen, ValueKind.isNumber, if_true, Bool.false_eq_true, if_false, Option.or_none,
    Option.or_self]

theorem format_eq {entries : List (ValueKind × Formatter)}
    (accepted : ofSettings settings filter (some (.table entries)) = .ok printing) (value : FormatValue) :
    printing.format value =
      match settings.ownText entries value with
      | some t => [.text t]
      | none => (table entries).format value := by
  obtain ⟨_, _, formatter, formatters, charset, null, yes, no⟩ := ofSettings_ok accepted
  rw [resolve_table] at formatters
  cases value with
  | null => rw [format, null]; rfl
  | bool b =>
    have own : chosen entries .bool = entry? .bool entries := Option.or_none
    simp only [format_table, Value.kind, format, formatters, own, Settings.ownText, yes, no]
    cases entry? .bool entries with
    | some formatter => rfl
    | none => rfl
  | str t => rfl
  | bytes b => rw [format, formatBytes, charset]; rfl
  | template t => rw [format, formatter]; rfl
  | other o => rw [format, formatter]; rfl
  | _ n => rw [format_table, format, formatters]; rfl

/-- Tables print alike if they differ in formatters for null, text and bytes only. -/
theorem format_congr {entries others : List (ValueKind × Formatter)} {filter' : Option (Text → Text)}
    {printing' : Printing} (accepted : ofSettings settings filter (some (.table entries)) = .ok printing)
    (accepted' : ofSettings settings filter' (some (.table others)) = .ok printing')
    (same : ∀ kind, kind ≠ .null → kind ≠ .str → kind ≠ .bytes → entry? kind others = entry? kind entries)
    (value : FormatValue) : printing'.format value = printing.format value := by
  have number := same .number nofun nofun nofun
  have own := same value.kind
  rw [format_eq accepted, format_eq accepted', format_table, format_table]
  cases value with
  | null => rfl
  | str t => rfl
  | bytes b => rfl
  | bool b =>
    rw [chosen, chosen, number, own nofun nofun nofun, Settings.ownText, Settings.ownText,
      same .bool nofun nofun nofun]
  | _ => rw [chosen, chosen, number, own nofun nofun nofun]; rfl

/-- The formatters that a template keeps by kind print a value as the table does that they are taken from, but for what
a template prints by rules of its own. These do not look at formatters for null, text and bytes. -/
theorem kept_formatters_agree {entries : List (ValueKind × Formatter)}
    (accepted : ofSettings settings filter (some (.table entries)) = .ok printing) :
    (∀ value, printing.format value =
      match settings.ownText entries value with
      | some t => [.text t]
      | none => (table entries).format value) ∧
    ∀ others filter' printing', ofSettings settings filter' (some (.table others)) = .ok printing' →
      (∀ kind, kind ≠ .null → kind ≠ .str → kind ≠ .bytes → entry? kind others = entry? kind entries) →
      ∀ value, printing'.format value = printing.format value :=
  ⟨format_eq accepted, fun _ _ _ accepted' same => format_congr accepted accepted' same⟩

/-- A table within the table takes care of numbers, instead of another formatter that was there before. One for text
changes nothing. -/
theorem kept_formatters_agree_on_nested_table :
    let marking (mark : Text) : Formatter := .function fun value => .text mark :: value.plain
    let nested : Formatter := .table (register (register [] .number (marking "n")) .int (marking "i"))
    let entries := register (register (register [] .number (marking "old")) .null (marking "x")) .number nested
    let settings : Settings := [("null.value", "nil")]
    ∃ printing printing', ofSettings settings none (some (.table entries)) = .ok printing ∧
      ofSettings settings none (some (.table (register entries .str (marking "s")))) = .ok printing' ∧
      printing.format (.int 3) = [.text "i", .text "3"] ∧ printing.format (.long 4) = [.text "n", .text "4"] ∧
      printing.format .null = [.text "nil"] ∧ ∀ value, printing'.format value = printing.format value := by
  intro marking nested entries settings
  obtain ⟨printing, accepted⟩ : ∃ printing, ofSettings settings none (some (.table entries)) = .ok printing :=
    ⟨_, rfl⟩
  obtain ⟨printing', accepted'⟩ :
      ∃ printing', ofSettings settings none (some (.table (register entries .str (marking "s")))) = .ok printing' :=
    ⟨_, rfl⟩
  obtain ⟨agree, alike⟩ := kept_formatters_agree accepted
  refine ⟨printing, printing', accepted, accepted', (agree (.int 3)).trans rfl, (agree (.long 4)).trans rfl,
    (agree .null).trans rfl, alike _ _ _ accepted' fun kind _ other _ => ?_⟩
  rw [entry?_register, if_neg other.symm]

end Printing

end MarkupTemplates
