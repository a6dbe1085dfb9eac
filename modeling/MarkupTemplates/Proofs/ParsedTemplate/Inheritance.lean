import Mathlib.Algebra.Ring.Nat
import Mathlib.Data.List.TakeWhile
import MarkupTemplates.Proofs.ParsedTemplate.MacroOrigin
import MarkupTemplates.Proofs.Text.Chunks

namespace MarkupTemplates

theorem DirectiveNames.plain_var : (DirectiveNames.default.name .var).Plain := by decide

/-- What the start tag of a piece says. -/
def Token.readings (token : Token) : List (Text × Option Text) := (token.tag?.map WrittenTag.readings).getD []

/-- Neither the source nor the value of any attribute in it, with character references resolved, holds one of
the marks that enclose code. -/
structure Text.Unmarked (source : Text) : Prop where
  plain : source.Plain
  values : ∀ token ∈ Scan.tokens source, ∀ name value, (name, some value) ∈ token.readings → value.Plain

/-- No comment of the source is a directive. -/
def Text.Uncommented (names : DirectiveNames) (source : Text) : Prop :=
  ∀ comment, .comment comment ∈ Scan.tokens source → names.commentKind? comment = none

instance (source : Text) : Decidable source.Unmarked :=
  decidable_of_iff (source.Plain ∧ ∀ token ∈ Scan.tokens source, ∀ reading ∈ token.readings,
      ∀ value ∈ reading.2, value.Plain) <| by
    constructor
    · rintro ⟨plain, values⟩
      exact ⟨plain, fun token member name value reading => values token member _ reading value rfl⟩
    · rintro ⟨plain, values⟩
      refine ⟨plain, fun token member reading inside value own => values token member reading.1 value ?_⟩
      rwa [← show reading.2 = some value from own]

def Token.comment? : Token → Option Text
  | comment text => some text
  | _ => none

instance (names : DirectiveNames) (source : Text) : Decidable (source.Uncommented names) :=
  decidable_of_iff (∀ comment ∈ (Scan.tokens source).filterMap Token.comment?, names.commentKind? comment = none) <| by
    refine forall_congr' fun comment => imp_congr_left ?_
    rw [List.mem_filterMap]
    constructor
    · rintro ⟨token, member, own⟩
      cases token with
      | comment text => exact Option.some.inj own ▸ member
      | _ => cases own
    · exact fun member => ⟨.comment comment, member, rfl⟩

theorem Token.readings_of_tag {token : Token} {tag : WrittenTag} (tagged : token.tag? = some tag) :
    token.readings = tag.readings := by
  rw [readings, tagged, Option.map_some, Option.getD_some]

theorem Token.text_subset {token : Token} {tokens : List Token} (member : token ∈ tokens) :
    token.text ⊆ spelling tokens := fun _ inside => List.mem_flatMap.mpr ⟨token, member, inside⟩

theorem Token.text_subset_source {token : Token} {source : Text} (member : token ∈ Scan.tokens source) :
    token.text ⊆ source := by
  have inside := Token.text_subset member
  rwa [spelling, Scan.tokens_spells] at inside

/-- The other attributes keep their values when parameters are declared in place of a macro, but for a slash
that one of them may take in. -/
theorem Redeclared.mem {var : Text} {earlier later readings : List (Text × Option Text)}
    {parameters : Option Text} (redeclared : Redeclared var earlier later parameters readings) {name : Text}
    {value : Option Text} (member : (name, value) ∈ readings) :
    (name, value) ∈ earlier ++ later ∨ (name = var ∧ value = parameters) ∨
      ∃ t, (name, some t) ∈ earlier ++ later ∧ value = some (t ++ ['/']) := by
  cases redeclared with
  | replaced =>
    rw [List.mem_append, List.mem_cons] at member
    rcases member with member | eq | member
    · exact .inl (List.mem_append_left _ member)
    · obtain ⟨rfl, rfl⟩ := Prod.mk.inj eq
      exact .inr (.inl ⟨rfl, rfl⟩)
    · exact .inl (List.mem_append_right _ member)
  | removed => exact .inl member
  | @slashed first name' value' eq =>
    subst eq
    rw [List.mem_append, List.mem_singleton] at member
    rcases member with member | eq
    · exact .inl (by simp [member])
    · obtain ⟨rfl, rfl⟩ := Prod.mk.inj eq
      exact .inr (.inr ⟨value', by simp, rfl⟩)

theorem MacroBody.attributeQuoted_plain {t : Text} (plain : t.Plain) : (attributeQuoted t).Plain := by
  induction t with
  | nil => exact fun c member => absurd member List.not_mem_nil
  | cons c t ih =>
    rw [attributeQuoted_cons]
    refine Text.Plain.append ?_ (ih fun d member => plain d (List.mem_cons_of_mem c member))
    split
    · decide
    · split
      · decide
      · exact fun d member => plain d (List.mem_singleton.mp member ▸ List.mem_cons_self)

theorem MacroBody.commentQuoted_plain {t : Text} (plain : t.Plain) : (commentQuoted t).Plain := by
  obtain ⟨mark, quote, eq⟩ := commentQuoted_eq t
  have code : Marker.isCodeChar mark = true := by
    rcases quote with rfl | rfl <;> decide
  rw [eq]
  exact .append (.cons code plain) (.cons code fun c member => absurd member List.not_mem_nil)

section

variable {names : DirectiveNames} {source : Text} {head : MacroHead} {body : MacroBody}

/-- The parameters of a macro are no more marked than its source. -/
theorem BodyTokens.parameters_plain {parameters : Option Text} {tokens : List Token}
    (made : BodyTokens names parameters (Scan.tokens source) tokens) (unmarked : source.Unmarked) {p : Text}
    (declared : parameters = some p) : p.Plain := by
  generalize pieces : Scan.tokens source = all at made
  cases made with
  | @element before tail after first first' written written' earlier later name value tagged _ readings _ among =>
    cases value with
    | none => exact fun c member => absurd (among p declared member) List.not_mem_nil
    | some value =>
      refine Text.Plain.of_subset ?_ (among p declared)
      refine unmarked.values first (by rw [pieces]; simp) name value ?_
      rw [Token.readings_of_tag tagged, readings]
      exact List.mem_append_right _ List.mem_cons_self
  | @run before middle after opening _ among =>
    have inside : opening ⊆ source :=
      @Token.text_subset_source (.comment opening) source (by rw [pieces]; simp)
    exact unmarked.plain.of_subset (List.Subset.trans (among p declared) inside)

theorem HoldsMacro.unmarked (var : (names.name .var).Plain) (word : IsAttributeWord (names.name .var))
    (held : HoldsMacro names source head body) (unmarked : source.Unmarked) : body.text.Unmarked := by
  obtain ⟨duty, segments, extracts, here, declared⟩ := held
  have made := extracts.tokens here declared word
  have parameters : ∀ p, head.parameters = some p → p.Plain := fun p => made.parameters_plain unmarked
  refine ⟨?_, fun token member name value reading => ?_⟩
  · have cut (span : Span) : (source.at span).Plain := unmarked.plain.of_subset (Text.slice_subset source _ _)
    cases extracts with
    | element =>
      refine .append (.append (cut _) ?_) (cut _)
      cases declared : head.parameters with
      | none => exact fun c member => absurd member List.not_mem_nil
      | some p =>
        have quoted := MacroBody.attributeQuoted_plain (parameters p declared)
        exact .append (.cons (by decide) (var.append (.cons (by decide) (.cons (by decide) quoted)))) (by decide)
    | run =>
      refine .append ?_ (cut _)
      cases declared : head.parameters with
      | none => exact fun c member => absurd member List.not_mem_nil
      | some p =>
        have quoted := MacroBody.commentQuoted_plain (parameters p declared)
        have open_mark : Text.Plain "<!--" := by decide
        exact .append (.append (open_mark.append var) (.cons (by decide) quoted)) (by decide)
  · generalize Scan.tokens body.text = tokens at made member
    generalize pieces : Scan.tokens source = all at made
    cases made with
    | @element before tail after first first' written written' earlier later own own' tagged tagged' readings _ among
        redeclared =>
      have old : ∀ name value, (name, some value) ∈ earlier ++ later → value.Plain := by
        intro name value inside
        refine unmarked.values first (by rw [pieces]; simp) name value ?_
        rw [Token.readings_of_tag tagged, readings]
        rcases List.mem_append.mp inside with inside | inside
        · exact List.mem_append_left _ inside
        · exact List.mem_append_right _ (List.mem_cons_of_mem _ inside)
      rcases List.mem_cons.mp member with rfl | member
      · rw [Token.readings_of_tag tagged'] at reading
        rcases redeclared.mem reading with inside | ⟨_, eq⟩ | ⟨t, inside, eq⟩
        · exact old name value inside
        · exact parameters value eq.symm
        · rw [Option.some.inj eq]
          exact (old name t inside).append (by decide)
      · exact unmarked.values token (by rw [pieces]; simp [member]) name value reading
    | @run before middle after opening _ _ =>
      rcases List.mem_append.mp member with member | member
      · obtain ⟨p, _, rfl⟩ := Option.map_eq_some_iff.mp (Option.mem_toList.mp member)
        exact absurd reading List.not_mem_nil
      · exact unmarked.values token (by rw [pieces]; simp [member]) name value reading

/-- Where no comment is a directive, macros are elements, and no comment in them is one either. -/
theorem HoldsMacro.uncommented (word : IsAttributeWord (names.name .var))
    (held : HoldsMacro names source head body) (none : source.Uncommented names) :
    body.text.Uncommented names := by
  obtain ⟨duty, segments, extracts, here, declared⟩ := held
  have made := extracts.tokens here declared word
  intro comment member
  generalize Scan.tokens body.text = tokens at made member
  generalize pieces : Scan.tokens source = all at made
  cases made with
  | @element before tail after first first' written written' earlier later own own' tagged tagged' =>
    rcases List.mem_cons.mp member with rfl | member
    · exact absurd tagged' nofun
    · exact none comment (by rw [pieces]; simp [member])
  | @run before middle after opening opens _ =>
    exact absurd (opens.symm.trans (none opening (by rw [pieces]; simp))) nofun

end

/-- How many macros a piece declares. -/
def Token.declarations (names : DirectiveNames) : Token → Nat
  | comment text => if names.commentKind? text = some .defineMacro then 1 else 0
  | token => token.readings.countP fun reading => names.kindOf? reading.1 = some .defineMacro

/-- How many macros a source declares, at any depth of macros in macros. -/
def Text.declarations (names : DirectiveNames) (source : Text) : Nat :=
  ((Scan.tokens source).map (Token.declarations names)).sum

theorem Scan.tokens_text_ne_nil (t : Text) : ∀ token ∈ Scan.tokens t, token.text ≠ [] := by
  fun_induction Scan.tokens t with
  | case1 t token rest h _ ih => exact List.forall_mem_cons.mpr ⟨Scan.token?_text_ne_nil h, ih⟩
  | case2 => exact fun token member => absurd member List.not_mem_nil

section

variable {names : DirectiveNames}

theorem Token.declarations_of_tag {token : Token} {tag : WrittenTag} (tagged : token.tag? = some tag) :
    token.declarations names = tag.readings.countP fun reading => names.kindOf? reading.1 = some .defineMacro := by
  cases token with
  | startTag own =>
    rw [← readings_of_tag tagged]
    rfl
  | rawElement own content =>
    rw [← readings_of_tag tagged]
    rfl
  | _ => exact absurd tagged nofun

/-- No word for parameters is a word for macros. -/
theorem DirectiveNames.kindOf?_var_ne (names : DirectiveNames) :
    names.kindOf? (names.name .var) ≠ some .defineMacro := by
  -- the kinds up to the one of parameters come before that of macros
  have among : ((DirectiveKind.all.take 7).find? fun kind => names.name kind = names.name .var).isSome = true :=
    List.find?_isSome.mpr ⟨DirectiveKind.var, by decide, decide_eq_true rfl⟩
  obtain ⟨kind, found⟩ := Option.isSome_iff_exists.mp among
  have earlier := List.mem_of_find?_eq_some found
  have all : names.kindOf? (names.name .var) = some kind := by
    rw [kindOf?, ← List.take_append_drop 7 DirectiveKind.all, List.find?_append, found, Option.some_or]
  rw [all]
  rintro ⟨⟩
  exact absurd earlier (by decide)

/-- The tag of a macro's body declares one macro less. -/
theorem Redeclared.countP_lt {earlier later readings : List (Text × Option Text)} {name : Text}
    {parameters : Option Text} (redeclared : Redeclared (names.name .var) earlier later parameters readings)
    (value : Option Text) (kind : names.kindOf? name = some .defineMacro) :
    readings.countP (fun reading => names.kindOf? reading.1 = some .defineMacro) <
      (earlier ++ (name, value) :: later).countP fun reading => names.kindOf? reading.1 = some .defineMacro := by
  have var := names.kindOf?_var_ne
  cases redeclared with
  | replaced => simp [List.countP_append, kind, var]
  | removed => simp [List.countP_append, kind]
  | slashed eq last => simp [eq, last, List.countP_append, List.countP_cons, kind]

/-- Where the comment that declares parameters is read as a directive, it goes by the word for parameters. -/
theorem CommentDirective.read?_declaring {var p : Text} {start : Nat} {found : CommentDirective}
    (word : IsAttributeWord var) (h : read? start (MacroBody.declaringComment var p) = some found) :
    found.name = var := by
  obtain ⟨rest, spelled⟩ : ∃ rest, MacroBody.declaringComment var p = ("<!--" : Text) ++ (var ++ '=' :: rest) :=
    ⟨MacroBody.commentQuoted p ++ ("-->" : Text), by
      simp only [MacroBody.declaringComment, List.append_assoc, List.cons_append]⟩
  obtain ⟨w, legible, text, rfl⟩ := read?_eq_some_iff.mp h
  have same : w.gap ++ (w.name ++ w.before) = var := by
    have front : '=' ∉ w.gap ++ (w.name ++ w.before) := by
      simp only [List.mem_append, not_or]
      exact ⟨fun member => absurd (legible.gap _ member) (by decide),
        fun member => absurd (legible.name _ member) (by decide),
        fun member => absurd (legible.before _ member) (by decide)⟩
    have apart : '=' ∉ var := fun member => absurd (word.2 _ member) (by decide)
    have eq := List.append_cancel_left (w.shape.symm.trans (text.trans spelled))
    have cut := Scan.cutAt?_append (w.after ++ w.mark :: w.inner) front
    rw [List.append_assoc, List.append_assoc, eq, Scan.cutAt?_append rest apart] at cut
    exact (Prod.mk.inj (Option.some.inj cut)).1.symm
  -- the word holds no gaps
  have none {gap : Text} (all : ∀ c ∈ gap, isGap c = true) (part : gap ⊆ var) : gap = [] := by
    refine List.eq_nil_iff_forall_not_mem.mpr fun c member => ?_
    have outside := not_isGap_of_nameChar (word.2 c (part member))
    rw [all c member] at outside
    cases outside
  have gap := none legible.gap (same ▸ List.subset_append_left _ _)
  have before := none legible.before (same ▸ fun c member =>
    List.mem_append_right _ (List.mem_append_right _ member))
  rw [gap, before, List.append_nil, List.nil_append] at same
  exact same

theorem DirectiveNames.commentKind?_declaring {p : Text} (word : IsAttributeWord (names.name .var)) :
    names.commentKind? (MacroBody.declaringComment (names.name .var) p) ≠ some .defineMacro := by
  intro kind
  obtain ⟨found, read, kind⟩ := Option.bind_eq_some_iff.mp kind
  rw [CommentDirective.read?_declaring word read] at kind
  exact names.kindOf?_var_ne kind

/-- The body of a macro declares fewer macros than the source that the macro stands in. -/
theorem HoldsMacro.declarations_lt {source : Text} {head : MacroHead} {body : MacroBody}
    (word : IsAttributeWord (names.name .var)) (held : HoldsMacro names source head body) :
    body.text.declarations names < source.declarations names := by
  obtain ⟨duty, segments, extracts, here, declared⟩ := held
  have made := extracts.tokens here declared word
  rw [Text.declarations, Text.declarations]
  generalize Scan.tokens body.text = tokens at made
  generalize Scan.tokens source = all at made
  cases made with
  | @element _ _ _ _ _ _ _ _ _ _ value tagged tagged' readings kind _ redeclared =>
    have fewer := redeclared.countP_lt value kind
    rw [← readings, ← Token.declarations_of_tag tagged, ← Token.declarations_of_tag tagged'] at fewer
    simp only [List.map_append, List.map_cons, List.sum_append, List.sum_cons]
    omega
  | run opens _ =>
    have own : Token.declarations names (.comment _) = 1 := if_pos opens
    cases head.parameters with
    | none =>
      simp only [Option.map_none, Option.toList_none, List.nil_append, List.map_append, List.map_cons,
        List.sum_append, List.sum_cons, own]
      omega
    | some p =>
      have declaring : Token.declarations names (.comment (MacroBody.declaringComment (names.name .var) p)) = 0 :=
        if_neg (names.commentKind?_declaring word)
      simp only [Option.map_some, Option.toList_some, List.cons_append, List.nil_append, List.map_append,
        List.map_cons, List.sum_append, List.sum_cons, own, declaring]
      omega

/-- A piece takes up at least as much room as it declares macros. -/
theorem Token.declarations_le {token : Token} (legible : token.Legible) (some_text : token.text ≠ []) :
    token.declarations names ≤ token.text.length := by
  have room := List.length_pos_iff.mpr some_text
  cases tagged : token.tag? with
  | none =>
    have few : token.declarations names ≤ 1 := by
      cases token with
      | comment text =>
        show (if _ then 1 else 0) ≤ 1
        split <;> omega
      | startTag tag => exact absurd tagged nofun
      | rawElement tag content => exact absurd tagged nofun
      | _ => exact Nat.zero_le 1
    omega
  | some tag =>
    have attributes : ∀ a ∈ tag.attributes, a.Legible := by
      cases token with
      | startTag own => exact Option.some.inj tagged ▸ legible.1.attributes
      | rawElement own content => exact Option.some.inj tagged ▸ legible.1.attributes
      | _ => exact absurd tagged nofun
    rw [declarations_of_tag tagged, text_of_tag tagged, List.length_append, WrittenTag.text_eq]
    refine Nat.le_trans List.countP_le_length ?_
    rw [WrittenTag.readings, List.length_map]
    have rows (list : List WrittenAttribute) (legible : ∀ a ∈ list, a.Legible) :
        list.length ≤ (list.flatMap WrittenAttribute.text).length := by
      induction list with
      | nil => exact Nat.le_refl 0
      | cons a list ih =>
        have name := List.length_pos_iff.mpr (legible a List.mem_cons_self).some_name
        have others := ih fun b member => legible b (List.mem_cons_of_mem _ member)
        simp only [List.length_cons, List.flatMap_cons, List.length_append, WrittenAttribute.text]
        omega
    have := rows tag.attributes attributes
    simp only [List.length_append, List.length_cons]
    omega

/-- No source has room for more macros than it has characters. -/
theorem Text.declarations_le_length (source : Text) : source.declarations names ≤ source.length := by
  suffices pieces : ∀ tokens : List Token, (∀ token ∈ tokens, token.Legible ∧ token.text ≠ []) →
      (tokens.map (Token.declarations names)).sum ≤ (spelling tokens).length by
    have all := pieces (Scan.tokens source) fun token member =>
      ⟨Scan.tokens_legible source token member, Scan.tokens_text_ne_nil source token member⟩
    rwa [spelling, Scan.tokens_spells] at all
  intro tokens known
  induction tokens with
  | nil => exact Nat.le_refl 0
  | cons token tokens ih =>
    have first := @Token.declarations_le names token (known token List.mem_cons_self).1
      (known token List.mem_cons_self).2
    have others := ih fun next member => known next (List.mem_cons_of_mem _ member)
    rw [List.map_cons, List.sum_cons, spelling_cons, List.length_append]
    omega

end

/-- There is room for all macros of a source. -/
theorem Parser.declarations_lt_depthBound {Compiled : Type} (parser : Parser Compiled) (resource : Resource) :
    resource.source.declarations parser.names < parser.depthBound resource := by
  have few := @Text.declarations_le_length parser.names resource.source
  have room : resource.source.length + 1 ≤ parser.depthBound resource := Nat.le_mul_of_pos_right _ (Nat.succ_pos _)
  omega

end MarkupTemplates
