/-
# Wire forms are faithful

Two things are said of the wire forms of diagnostics, edits, quick fixes and symbols (`Faithful`):

* a value is got back when its own wire form is checked;
* whatever input a check accepts, every span in the accepted value, however deep it lies, is the one
  that the input gives at the same path.

What an input gives for a position is two whole numbers that may well be negative, and for a span
four of them in any order (`Position.Gives`, `Span.Gives`).  So the second point says that the check
refuses what it should, and that it does not put right what it accepts: the numbers are those of the
input, none is negative, and the ends are in order (`Position.ofValue_eq_ok_iff`,
`Span.ofValue_eq_ok_iff`).

Which whole number a plain value stands for is left to the check of whole numbers (`Wire.int`).
-/
import HypnoScript.Proofs.Wire.Checked
import HypnoScript.Wire.Forms

namespace HypnoScript

open Json (Value)
open Wire

/-! ## 1. Plain values -/

namespace Wire

theorem natural_eq_ok_iff {v : Value} {n : Nat} :
    natural v = Except.ok n ↔ int v = Except.ok (n : Int) := by
  rw [natural, Checked.andThen_eq_ok_iff]
  constructor
  · rintro ⟨i, hi, h⟩
    by_cases hsign : 0 ≤ i
    · rw [if_pos hsign] at h
      rw [hi, ← Except.ok.inj h, Int.toNat_of_nonneg hsign]
    · rw [if_neg hsign] at h
      cases h
  · intro h
    exact ⟨n, h, if_pos (Int.natCast_nonneg n)⟩

theorem string_eq_ok_iff {v : Value} {s : String} :
    string v = Except.ok s ↔ v = .string s := by
  cases v with
  | string s' => exact ⟨fun h => by cases h; rfl, fun h => by cases h; rfl⟩
  | _ => exact iff_of_false Checked.error_ne_ok Value.noConfusion

theorem text_eq_ok_iff {v : Value} {t : Text} :
    text v = Except.ok t ↔ v = .string (String.ofList t) := by
  rw [text, Checked.map_eq_ok_iff]
  constructor
  · rintro ⟨s, hs, rfl⟩
    rw [string_eq_ok_iff.mp hs, String.ofList_toList]
  · intro h
    exact ⟨_, string_eq_ok_iff.mpr h, String.toList_ofList⟩

/-- A name that stands for a value in a table. -/
theorem listed_string {α : Type} {table : List (String × α)} {s : String} {a : α}
    (h : table.lookup s = some a) : listed table (.string s) = Except.ok a := by
  rw [listed, h]
  rfl

/-- A field that is there. -/
theorem required_of_field {α : Type} {read : Value → Checked α} {fields : List (String × Value)}
    {name : String} {v : Value} {a : α} (hv : Json.field? fields name = some v)
    (ha : read v = Except.ok a) : required read fields name = Except.ok a :=
  required_eq_ok_iff.mpr ⟨v, hv, ha⟩

/-- A field that could have been left out, and is there. -/
theorem optional_of_field {α : Type} {read : Value → Checked α} {fields : List (String × Value)}
    {name : String} {v : Value} {default a : α} (hv : Json.field? fields name = some v)
    (ha : read v = Except.ok a) : optional read default fields name = Except.ok a :=
  optional_eq_ok_iff.mpr (Or.inl ⟨v, hv, ha⟩)

/-- Items that are got back one by one. -/
theorem listOf_map {α : Type} {read : Value → Checked α} {write : α → Value} {kind : FaultKind}
    (h : ∀ a, read (write a) = Except.ok a) (as : List α) :
    listOf read kind (.list (as.map write)) = Except.ok as := by
  refine listOf_eq_ok_iff.mpr ⟨_, rfl, ?_⟩
  rw [List.forall₂_map_left_iff, List.forall₂_same]
  exact fun a _ => h a

end Wire

/-! ## 2. Positions and spans -/

/-- The line and the column that a value gives for a position.  They may be negative. -/
def Position.Gives (v : Value) (line column : Int) : Prop :=
  ∃ fields l c, v = .object fields ∧
    Json.field? fields "line" = some l ∧ int l = Except.ok line ∧
    Json.field? fields "column" = some c ∧ int c = Except.ok column

/-- A position is what a value gives for it: two numbers that are not negative. -/
def Position.GivenBy (v : Value) (p : Position) : Prop :=
  ∃ line column, Position.Gives v line column ∧ 0 ≤ line ∧ 0 ≤ column ∧
    (p.line : Int) = line ∧ (p.column : Int) = column

/-- The lines and the columns that a value gives for a span.  They may be in any order. -/
def Span.Gives (v : Value) (line column line' column' : Int) : Prop :=
  ∃ fields start stop, v = .object fields ∧
    Json.field? fields "start" = some start ∧ Position.Gives start line column ∧
    Json.field? fields "end" = some stop ∧ Position.Gives stop line' column'

/-- A span is what a value gives for it: numbers that are not negative, and a start that is not
behind the stop, by line and then by column. -/
def Span.GivenBy (v : Value) (s : Span) : Prop :=
  ∃ line column line' column', Span.Gives v line column line' column' ∧
    (0 ≤ line ∧ 0 ≤ column ∧ 0 ≤ line' ∧ 0 ≤ column') ∧
    (line < line' ∨ line = line' ∧ column ≤ column') ∧
    ((s.start.line : Int) = line ∧ (s.start.column : Int) = column) ∧
    (s.stop.line : Int) = line' ∧ (s.stop.column : Int) = column'

/-- **A position is accepted just when it is what the input gives**: nothing that the input gives
otherwise is put right, and nothing that it gives rightly is refused. -/
theorem Position.ofValue_eq_ok_iff {v : Value} {p : Position} :
    Position.ofValue v = Except.ok p ↔ p.GivenBy v := by
  rw [Position.ofValue, Checked.andThen_eq_ok_iff]
  constructor
  · rintro ⟨fields, hfields, h⟩
    obtain ⟨f, column, hf, hcolumn, rfl⟩ := Checked.seq_eq_ok_iff.mp h
    obtain ⟨line, hline, rfl⟩ := Checked.map_eq_ok_iff.mp hf
    obtain ⟨l, hl, hline⟩ := required_eq_ok_iff.mp hline
    obtain ⟨c, hc, hcolumn⟩ := required_eq_ok_iff.mp hcolumn
    exact ⟨line, column, ⟨fields, l, c, fieldsOf_eq_ok_iff.mp hfields, hl,
      natural_eq_ok_iff.mp hline, hc, natural_eq_ok_iff.mp hcolumn⟩, Int.natCast_nonneg _,
      Int.natCast_nonneg _, rfl, rfl⟩
  · rintro ⟨_, _, ⟨fields, l, c, rfl, hl, hline, hc, hcolumn⟩, -, -, rfl, rfl⟩
    refine ⟨fields, rfl, ?_⟩
    rw [required_of_field hl (natural_eq_ok_iff.mpr hline),
      required_of_field hc (natural_eq_ok_iff.mpr hcolumn)]
    rfl

theorem Span.checked_eq_ok_iff {start stop : Position} {s : Span} :
    Span.checked start stop = Except.ok s ↔ s.start = start ∧ s.stop = stop := by
  rw [← Span.ofEnds_eq_ok_iff, Span.checked]
  cases Span.ofEnds start stop with
  | ok s' => exact ⟨fun h => congrArg _ (Except.ok.inj h), fun h => congrArg _ (Except.ok.inj h)⟩
  | error i => exact iff_of_false Checked.error_ne_ok (by simp)

/-- A span is accepted when both its ends are. -/
theorem Span.ofValue_eq_ok_iff_ends {v : Value} {s : Span} :
    Span.ofValue v = Except.ok s ↔ ∃ fields, v = .object fields ∧
      required Position.ofValue fields "start" = Except.ok s.start ∧
      required Position.ofValue fields "end" = Except.ok s.stop := by
  rw [Span.ofValue, Checked.andThen_eq_ok_iff]
  constructor
  · rintro ⟨fields, hfields, h⟩
    obtain ⟨⟨start, stop⟩, hends, hs⟩ := Checked.andThen_eq_ok_iff.mp h
    obtain ⟨f, _, hf, hstop, heq⟩ := Checked.seq_eq_ok_iff.mp hends
    obtain ⟨_, hstart, rfl⟩ := Checked.map_eq_ok_iff.mp hf
    obtain ⟨rfl, rfl⟩ := Prod.mk.inj heq
    obtain ⟨hs, hs'⟩ := Span.checked_eq_ok_iff.mp hs
    exact ⟨fields, fieldsOf_eq_ok_iff.mp hfields, hs ▸ hstart, hs' ▸ hstop⟩
  · rintro ⟨fields, rfl, hstart, hstop⟩
    refine ⟨fields, rfl, ?_⟩
    rw [hstart, hstop]
    exact Span.checked_eq_ok_iff.mpr ⟨rfl, rfl⟩

/-- **A span is accepted just when it is what the input gives.**  Besides its two positions the
check looks at their order, which so cannot be wrong in any span that there is. -/
theorem Span.ofValue_eq_ok_iff {v : Value} {s : Span} :
    Span.ofValue v = Except.ok s ↔ s.GivenBy v := by
  rw [Span.ofValue_eq_ok_iff_ends]
  constructor
  · rintro ⟨fields, rfl, hstart, hstop⟩
    obtain ⟨start, hfield, hstart⟩ := required_eq_ok_iff.mp hstart
    obtain ⟨stop, hfield', hstop⟩ := required_eq_ok_iff.mp hstop
    obtain ⟨line, column, hgives, hline, hcolumn, rfl, rfl⟩ := Position.ofValue_eq_ok_iff.mp hstart
    obtain ⟨line', column', hgives', hline', hcolumn', rfl, rfl⟩ :=
      Position.ofValue_eq_ok_iff.mp hstop
    have hordered := Position.le_iff.mp s.ordered
    exact ⟨_, _, _, _, ⟨fields, start, stop, rfl, hfield, hgives, hfield', hgives'⟩,
      ⟨hline, hcolumn, hline', hcolumn'⟩, by omega, ⟨rfl, rfl⟩, rfl, rfl⟩
  · rintro ⟨line, column, line', column', ⟨fields, start, stop, rfl, hfield, hgives, hfield',
      hgives'⟩, ⟨hline, hcolumn, hline', hcolumn'⟩, -, ⟨hs, hs'⟩, ht, ht'⟩
    exact ⟨fields, rfl,
      required_of_field hfield
        (Position.ofValue_eq_ok_iff.mpr ⟨line, column, hgives, hline, hcolumn, hs, hs'⟩),
      required_of_field hfield'
        (Position.ofValue_eq_ok_iff.mpr ⟨line', column', hgives', hline', hcolumn', ht, ht'⟩)⟩

/-! ## 3. What a check of a record accepts -/

/-- A diagnostic is accepted when all its fields are. -/
theorem Diagnostic.ofValue_eq_ok_iff {v : Value} {g : Diagnostic} :
    Diagnostic.ofValue v = Except.ok g ↔ ∃ fields, v = .object fields ∧
      required Span.ofValue fields "range" = Except.ok g.range ∧
      required string fields "message" = Except.ok g.message ∧
      required Severity.ofValue fields "severity" = Except.ok g.severity ∧
      optional (nullable Rule.ofValue) none fields "code" = Except.ok g.rule ∧
      optional string "hypnoscript" fields "source" = Except.ok g.source := by
  rw [Diagnostic.ofValue, Checked.andThen_eq_ok_iff]
  constructor
  · rintro ⟨fields, hfields, h⟩
    obtain ⟨f₄, source, h₄, hsource, rfl⟩ := Checked.seq_eq_ok_iff.mp h
    obtain ⟨f₃, rule, h₃, hrule, rfl⟩ := Checked.seq_eq_ok_iff.mp h₄
    obtain ⟨f₂, severity, h₂, hseverity, rfl⟩ := Checked.seq_eq_ok_iff.mp h₃
    obtain ⟨f₁, message, h₁, hmessage, rfl⟩ := Checked.seq_eq_ok_iff.mp h₂
    obtain ⟨range, hrange, rfl⟩ := Checked.map_eq_ok_iff.mp h₁
    exact ⟨fields, fieldsOf_eq_ok_iff.mp hfields, hrange, hmessage, hseverity, hrule, hsource⟩
  · rintro ⟨fields, rfl, hrange, hmessage, hseverity, hrule, hsource⟩
    refine ⟨fields, rfl, ?_⟩
    rw [hrange, hmessage, hseverity, hrule, hsource]
    rfl

/-- An edit is accepted when both its fields are. -/
theorem Edit.ofValue_eq_ok_iff {v : Value} {e : Edit} :
    Edit.ofValue v = Except.ok e ↔ ∃ fields, v = .object fields ∧
      required Span.ofValue fields "range" = Except.ok e.range ∧
      required text fields "new_text" = Except.ok e.newText := by
  rw [Edit.ofValue, Checked.andThen_eq_ok_iff]
  constructor
  · rintro ⟨fields, hfields, h⟩
    obtain ⟨f₁, newText, h₁, hnewText, rfl⟩ := Checked.seq_eq_ok_iff.mp h
    obtain ⟨range, hrange, rfl⟩ := Checked.map_eq_ok_iff.mp h₁
    exact ⟨fields, fieldsOf_eq_ok_iff.mp hfields, hrange, hnewText⟩
  · rintro ⟨fields, rfl, hrange, hnewText⟩
    refine ⟨fields, rfl, ?_⟩
    rw [hrange, hnewText]
    rfl

/-- A quick fix is accepted when all its fields are. -/
theorem QuickFix.ofValue_eq_ok_iff {v : Value} {f : QuickFix} :
    QuickFix.ofValue v = Except.ok f ↔ ∃ fields, v = .object fields ∧
      required string fields "title" = Except.ok f.title ∧
      required Rule.ofValue fields "code" = Except.ok f.rule ∧
      required (listOf Edit.ofValue) fields "edits" = Except.ok f.edits ∧
      optional bool false fields "preferred" = Except.ok f.preferred := by
  rw [QuickFix.ofValue, Checked.andThen_eq_ok_iff]
  constructor
  · rintro ⟨fields, hfields, h⟩
    obtain ⟨f₃, preferred, h₃, hpreferred, rfl⟩ := Checked.seq_eq_ok_iff.mp h
    obtain ⟨f₂, edits, h₂, hedits, rfl⟩ := Checked.seq_eq_ok_iff.mp h₃
    obtain ⟨f₁, rule, h₁, hrule, rfl⟩ := Checked.seq_eq_ok_iff.mp h₂
    obtain ⟨title, htitle, rfl⟩ := Checked.map_eq_ok_iff.mp h₁
    exact ⟨fields, fieldsOf_eq_ok_iff.mp hfields, htitle, hrule, hedits, hpreferred⟩
  · rintro ⟨fields, rfl, htitle, hrule, hedits, hpreferred⟩
    refine ⟨fields, rfl, ?_⟩
    rw [htitle, hrule, hedits, hpreferred]
    rfl

namespace Symbol

theorem ofValues_eq_itemsFrom (vs : List Value) : ∀ n : Nat,
    ofValues n vs = itemsFrom ofValue n vs := by
  induction vs with
  | nil =>
    intro n
    rw [ofValues]
    rfl
  | cons v vs ih =>
    intro n
    rw [ofValues, ih]
    rfl

/-- The check of a symbol goes field by field, as that of any other record. -/
theorem ofValue_eq (v : Value) : ofValue v =
    (fieldsOf v).andThen fun fields =>
      Symbol.mk <$> required text fields "name" <*> required string fields "detail" <*>
        required SymbolKind.ofValue fields "kind" <*> required Span.ofValue fields "range" <*>
        required Span.ofValue fields "selection_range" <*>
        optional (listOf ofValue) [] fields "children" := by
  rw [ofValue.eq_def]
  cases v with
  | object fields =>
    refine congrArg (_ <*> ·) ?_
    rw [Wire.optional]
    split
    · rename_i vs hf
      dsimp only
      rw [hf, ofValues_eq_itemsFrom]
      rfl
    · rename_i v hlist hf
      rw [hf]
      cases v with
      | list vs => exact absurd rfl (hlist vs)
      | _ => rfl
    · rename_i hf
      rw [hf]
  | _ => rfl

/-- A symbol is accepted when all its fields are. -/
theorem ofValue_eq_ok_iff {v : Value} {s : Symbol} :
    ofValue v = Except.ok s ↔ ∃ fields, v = .object fields ∧
      required text fields "name" = Except.ok s.name ∧
      required string fields "detail" = Except.ok s.detail ∧
      required SymbolKind.ofValue fields "kind" = Except.ok s.kind ∧
      required Span.ofValue fields "range" = Except.ok s.range ∧
      required Span.ofValue fields "selection_range" = Except.ok s.selection ∧
      optional (listOf ofValue) [] fields "children" = Except.ok s.children := by
  rw [ofValue_eq, Checked.andThen_eq_ok_iff]
  constructor
  · rintro ⟨fields, hfields, h⟩
    obtain ⟨f₅, children, h₅, hchildren, rfl⟩ := Checked.seq_eq_ok_iff.mp h
    obtain ⟨f₄, selection, h₄, hselection, rfl⟩ := Checked.seq_eq_ok_iff.mp h₅
    obtain ⟨f₃, range, h₃, hrange, rfl⟩ := Checked.seq_eq_ok_iff.mp h₄
    obtain ⟨f₂, kind, h₂, hkind, rfl⟩ := Checked.seq_eq_ok_iff.mp h₃
    obtain ⟨f₁, detail, h₁, hdetail, rfl⟩ := Checked.seq_eq_ok_iff.mp h₂
    obtain ⟨name, hname, rfl⟩ := Checked.map_eq_ok_iff.mp h₁
    exact ⟨fields, fieldsOf_eq_ok_iff.mp hfields, hname, hdetail, hkind, hrange, hselection,
      hchildren⟩
  · rintro ⟨fields, rfl, hname, hdetail, hkind, hrange, hselection, hchildren⟩
    refine ⟨fields, rfl, ?_⟩
    rw [hname, hdetail, hkind, hrange, hselection, hchildren]
    cases s
    rfl

end Symbol

/-! ## 4. What is written is read -/

section Lookups

attribute [local simp] Json.field?_cons Json.field?_nil

theorem Position.ofValue_toValue (p : Position) :
    Position.ofValue p.toValue = Except.ok p :=
  Position.ofValue_eq_ok_iff.mpr ⟨p.line, p.column,
    ⟨_, .int p.line, .int p.column, rfl, by simp, rfl, by simp, rfl⟩,
    Int.natCast_nonneg _, Int.natCast_nonneg _, rfl, rfl⟩

theorem Span.ofValue_toValue (s : Span) : Span.ofValue s.toValue = Except.ok s :=
  Span.ofValue_eq_ok_iff_ends.mpr ⟨_, rfl,
    required_of_field (by simp) s.start.ofValue_toValue,
    required_of_field (by simp) s.stop.ofValue_toValue⟩

theorem Severity.ofValue_toNat (s : Severity) :
    Severity.ofValue (.int s.toNat) = Except.ok s := by
  cases s <;> rfl

theorem Rule.ofValue_code (r : Rule) : Rule.ofValue (.string r.code) = Except.ok r :=
  listed_string r.lookup_code

theorem SymbolKind.ofValue_name (k : SymbolKind) :
    SymbolKind.ofValue (.string k.name) = Except.ok k :=
  listed_string k.lookup_name

theorem Diagnostic.ofValue_toValue (g : Diagnostic) :
    Diagnostic.ofValue g.toValue = Except.ok g := by
  obtain ⟨range, message, severity, rule, source⟩ := g
  refine Diagnostic.ofValue_eq_ok_iff.mpr ⟨_, rfl,
    required_of_field (by simp) range.ofValue_toValue,
    required_of_field (v := .string message) (by simp) rfl,
    required_of_field (by simp) severity.ofValue_toNat, ?_,
    optional_of_field (v := .string source) (by simp) rfl⟩
  cases rule with
  | none => exact optional_of_field (v := .null) (by simp) rfl
  | some r =>
    exact optional_of_field (v := .string r.code) (by simp)
      (Checked.map_eq_ok_iff.mpr ⟨r, r.ofValue_code, rfl⟩)

theorem Edit.ofValue_toValue (e : Edit) : Edit.ofValue e.toValue = Except.ok e :=
  Edit.ofValue_eq_ok_iff.mpr ⟨_, rfl,
    required_of_field (by simp) e.range.ofValue_toValue,
    required_of_field (v := .string (String.ofList e.newText)) (by simp) (text_eq_ok_iff.mpr rfl)⟩

theorem QuickFix.ofValue_toValue (f : QuickFix) : QuickFix.ofValue f.toValue = Except.ok f :=
  QuickFix.ofValue_eq_ok_iff.mpr ⟨_, rfl,
    required_of_field (v := .string f.title) (by simp) rfl,
    required_of_field (by simp) f.rule.ofValue_code,
    required_of_field (by simp) (listOf_map Edit.ofValue_toValue f.edits),
    optional_of_field (v := .bool f.preferred) (by simp) rfl⟩

namespace Symbol

mutual

/-- **A symbol is got back from its wire form**, with all the symbols below it.  The recursion is on
the symbols below, of which there is a list, and so has an equation for lists beside it. -/
theorem ofValue_toValue : ∀ s : Symbol, ofValue s.toValue = Except.ok s
  | mk name detail kind range selection children => by
    have hchildren : listOf ofValue .notList (.list (toValues children)) = Except.ok children :=
      listOf_eq_ok_iff.mpr ⟨_, rfl, forall₂_ofValue_toValues children⟩
    rw [toValue]
    exact ofValue_eq_ok_iff.mpr ⟨_, rfl,
      required_of_field (v := .string (String.ofList name)) (by simp) (text_eq_ok_iff.mpr rfl),
      required_of_field (v := .string detail) (by simp) rfl,
      required_of_field (by simp) kind.ofValue_name,
      required_of_field (by simp) range.ofValue_toValue,
      required_of_field (by simp) selection.ofValue_toValue,
      optional_of_field (by simp) hchildren⟩

/-- Symbols are got back from their wire forms one by one. -/
theorem forall₂_ofValue_toValues : ∀ ss : List Symbol,
    List.Forall₂ (fun v s => ofValue v = Except.ok s) (toValues ss) ss
  | [] => by
    rw [toValues]
    exact .nil
  | s :: ss => by
    rw [toValues]
    exact .cons s.ofValue_toValue (forall₂_ofValue_toValues ss)

end

end Symbol

end Lookups

/-! ## 5. What is read is what the input gives -/

namespace Wire

/-- The part of a value to which a path leads. -/
def part? : Value → List Step → Option Value
  | v, [] => some v
  | .object fields, .field name :: path => (Json.field? fields name).bind (part? · path)
  | .list vs, .index n :: path => vs[n]?.bind (part? · path)
  | _, _ :: _ => none

theorem part?_field {fields : List (String × Value)} {name : String} {v : Value}
    (h : Json.field? fields name = some v) (path : List Step) :
    part? (.object fields) (.field name :: path) = part? v path := by
  rw [part?, h, Option.bind_some]

theorem part?_index {vs : List Value} {n : Nat} {v : Value} (h : vs[n]? = some v)
    (path : List Step) : part? (.list vs) (.index n :: path) = part? v path := by
  rw [part?, h, Option.bind_some]

/-- **A wire form is faithful**: values are got back from it, and what the check of it accepts has
at each path only such spans as the input gives there. -/
structure Faithful {α : Type} (toValue : α → Value) (ofValue : Value → Checked α)
    (hasSpan : α → List Step → Span → Prop) : Prop where
  back : ∀ a, ofValue (toValue a) = Except.ok a
  given : ∀ v a, ofValue v = Except.ok a → ∀ path s, hasSpan a path s →
    ∃ w, part? v path = some w ∧ s.GivenBy w

/-- A span in a field that has to be there. -/
theorem exists_part?_of_required {fields : List (String × Value)} {name : String} {s : Span}
    (h : required Span.ofValue fields name = Except.ok s) :
    ∃ w, part? (.object fields) [.field name] = some w ∧ s.GivenBy w := by
  obtain ⟨w, hw, hs⟩ := required_eq_ok_iff.mp h
  exact ⟨w, part?_field hw [], Span.ofValue_eq_ok_iff.mp hs⟩

/-- An item of a list that passes its check is the check of an item of the input. -/
theorem exists_item {α : Type} {read : Value → Checked α} {vs : List Value} {as : List α}
    (h : List.Forall₂ (fun v a => read v = Except.ok a) vs as) {n : Nat} {a : α}
    (ha : as[n]? = some a) : ∃ v, vs[n]? = some v ∧ read v = Except.ok a := by
  obtain ⟨hlength, hget⟩ := List.forall₂_iff_get.mp h
  obtain ⟨hn, rfl⟩ := List.getElem?_eq_some_iff.mp ha
  exact ⟨vs[n], List.getElem?_eq_getElem (hlength ▸ hn), hget n _ hn⟩

end Wire

/-- The span of a diagnostic. -/
def Diagnostic.HasSpan (g : Diagnostic) (path : List Step) (s : Span) : Prop :=
  path = [.field "range"] ∧ s = g.range

/-- The span of an edit. -/
def Edit.HasSpan (e : Edit) (path : List Step) (s : Span) : Prop :=
  path = [.field "range"] ∧ s = e.range

/-- The spans of a quick fix are those of its edits. -/
def QuickFix.HasSpan (f : QuickFix) (path : List Step) (s : Span) : Prop :=
  ∃ n e below, f.edits[n]? = some e ∧ path = .field "edits" :: .index n :: below ∧
    e.HasSpan below s

/-- The spans of a symbol: its own two, and those of the symbols below it. -/
inductive Symbol.HasSpan : Symbol → List Step → Span → Prop
  | range (s : Symbol) : HasSpan s [.field "range"] s.range
  | selection (s : Symbol) : HasSpan s [.field "selection_range"] s.selection
  | child {s c : Symbol} {n : Nat} {path : List Step} {r : Span} (hc : s.children[n]? = some c)
    (h : HasSpan c path r) : HasSpan s (.field "children" :: .index n :: path) r

theorem Edit.exists_part? {v : Value} {e : Edit} (h : Edit.ofValue v = Except.ok e)
    {path : List Step} {s : Span} (hs : e.HasSpan path s) :
    ∃ w, part? v path = some w ∧ s.GivenBy w := by
  obtain ⟨fields, rfl, hrange, -⟩ := Edit.ofValue_eq_ok_iff.mp h
  obtain ⟨rfl, rfl⟩ := hs
  exact exists_part?_of_required hrange

theorem QuickFix.exists_part? {v : Value} {f : QuickFix} (h : QuickFix.ofValue v = Except.ok f)
    {path : List Step} {s : Span} (hs : f.HasSpan path s) :
    ∃ w, part? v path = some w ∧ s.GivenBy w := by
  obtain ⟨fields, rfl, -, -, hedits, -⟩ := QuickFix.ofValue_eq_ok_iff.mp h
  obtain ⟨n, e, below, he, rfl, hs⟩ := hs
  obtain ⟨_, hfield, hlist⟩ := required_eq_ok_iff.mp hedits
  obtain ⟨vs, rfl, hitems⟩ := listOf_eq_ok_iff.mp hlist
  obtain ⟨v, hv, he⟩ := exists_item hitems he
  rw [part?_field hfield, part?_index hv]
  exact Edit.exists_part? he hs

/-- **At every depth of a symbol, a span is what the input gives there.**  The path to the span
leads through the fields and the lists of the input in the same way, one step of it at a time. -/
theorem Symbol.exists_part? {v : Value} {s : Symbol} (h : Symbol.ofValue v = Except.ok s)
    {path : List Step} {r : Span} (hr : s.HasSpan path r) :
    ∃ w, part? v path = some w ∧ r.GivenBy w := by
  induction hr generalizing v with
  | range s =>
    obtain ⟨fields, rfl, -, -, -, hrange, -⟩ := Symbol.ofValue_eq_ok_iff.mp h
    exact exists_part?_of_required hrange
  | selection s =>
    obtain ⟨fields, rfl, -, -, -, -, hselection, -⟩ := Symbol.ofValue_eq_ok_iff.mp h
    exact exists_part?_of_required hselection
  | @child s c n path r hc hr ih =>
    obtain ⟨fields, rfl, -, -, -, -, -, hchildren⟩ := Symbol.ofValue_eq_ok_iff.mp h
    rcases optional_eq_ok_iff.mp hchildren with ⟨_, hfield, hlist⟩ | ⟨-, hnone⟩
    · obtain ⟨vs, rfl, hitems⟩ := listOf_eq_ok_iff.mp hlist
      obtain ⟨v, hv, hc⟩ := exists_item hitems hc
      rw [part?_field hfield, part?_index hv]
      exact ih hc
    · -- Without the field there are no symbols below.
      rw [← hnone] at hc
      cases hc

/-- **Wire forms are faithful.**  Diagnostics, edits, quick fixes and symbols of any depth are got
back from their wire forms.  And whatever input is accepted for one of them, or for a position or a
span alone, every span of it is what the input gives at its path: of numbers that are not negative,
with a start that is not behind the stop.

The checks have defaults, take some values for others, and go on behind a fault to report all of
them.  What is accepted is therefore read off the check of each field (`Checked.andThen_eq_ok_iff`),
and the parts of an input are named by their paths, which do not depend on what else is in it. -/
theorem wire_forms_faithful :
    (∀ v p, Position.ofValue v = Except.ok p ↔ p.GivenBy v) ∧
      (∀ v s, Span.ofValue v = Except.ok s ↔ s.GivenBy v) ∧
      Faithful Diagnostic.toValue Diagnostic.ofValue Diagnostic.HasSpan ∧
      Faithful Edit.toValue Edit.ofValue Edit.HasSpan ∧
      Faithful QuickFix.toValue QuickFix.ofValue QuickFix.HasSpan ∧
      Faithful Symbol.toValue Symbol.ofValue Symbol.HasSpan := by
  refine ⟨fun v p => Position.ofValue_eq_ok_iff, fun v s => Span.ofValue_eq_ok_iff,
    ⟨Diagnostic.ofValue_toValue, ?_⟩,
    ⟨Edit.ofValue_toValue, fun v e h path s => Edit.exists_part? h⟩,
    ⟨QuickFix.ofValue_toValue, fun v f h path s => QuickFix.exists_part? h⟩,
    ⟨Symbol.ofValue_toValue, fun v s h path r => Symbol.exists_part? h⟩⟩
  rintro v g h path s ⟨rfl, rfl⟩
  obtain ⟨fields, rfl, hrange, -⟩ := Diagnostic.ofValue_eq_ok_iff.mp h
  exact exists_part?_of_required hrange

end HypnoScript
