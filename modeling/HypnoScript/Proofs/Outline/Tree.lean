/-
# Outlines are well formed

The symbols of an outline cover whole lines of the text, and each has its name on its first line, as
it stands there in the text itself (`Symbol.Placed`).  Symbols beside each other are in order, and
none but the wrapper reaches into the next one (`Symbol.Ahead`).  Below a session there are its
members, which start between its first line and its last one (`Symbol.MemberOf`), and there is
nothing below those.

An outline is made without looking anything up that is not there.  To say so, it is made a second
time here, with each look-up and each range checked (`symbols?`): no check fails, and the outline is
the same one (`symbols?_eq`).
-/
import HypnoScript.Proofs.Outline.Listed

namespace HypnoScript

open Text (IsRun isWord)

namespace Outline

/-! ## 1. Outlines with checks -/

/-- What could go wrong when an outline is made. -/
inductive Failure where
  /-- A line is looked up that the text does not have. -/
  | noLine (line : Nat)
  /-- A range stops in front of its start. -/
  | inverted (ends : Span.Inverted)
  deriving Repr

/-- The line with a number, if there is one. -/
def line? (ls : List Text) (n : Nat) : Except Failure Text :=
  ls[n]?.elim (.error (.noLine n)) .ok

/-- The span between two ends, if they are in order. -/
def span? (start stop : Position) : Except Failure Span :=
  (Span.ofEnds start stop).mapError .inverted

/-- The symbol for a block, with nothing below it. -/
def Block.toSymbol? (d : Document) (b : Block) : Except Failure Symbol := do
  let last ← line? d.lines b.endLine
  let range ← span? ⟨b.line, 0⟩ ⟨b.endLine, last.length⟩
  let selection ← span? ⟨b.line, b.heading.column⟩
    ⟨b.line, b.heading.column + b.heading.name.length⟩
  return .mk b.heading.name b.heading.form.detail b.heading.form.kind range selection []

/-- The symbol for the block that a line declares, if it declares one. -/
def symbolAt? (d : Document) (forms : List Form) (line : Nat) :
    Except Failure (Option Symbol) := do
  let code ← line? d.codeLines line
  match heading? forms code with
  | none => return none
  | some h =>
    let _ ← line? d.lines line
    let b : Block := ⟨h, line, linesBelow (d.code.drop (d.lineStart line + h.column))⟩
    let s ← b.toSymbol? d
    return some s

/-- The symbols that `count` lines from `line` on declare, without those inside one already found;
lines before `resume` belong to such a one. -/
def walk? (d : Document) (forms : List Form) (below : Symbol → Except Failure (List Symbol)) :
    (count line resume : Nat) → Except Failure (List Symbol)
  | 0, _, _ => return []
  | count + 1, line, resume =>
    if line < resume then walk? d forms below count (line + 1) resume
    else do
      match ← symbolAt? d forms line with
      | none => walk? d forms below count (line + 1) resume
      | some (.mk name detail kind range selection _) =>
        let children ← below (.mk name detail kind range selection [])
        let rest ← walk? d forms below count (line + 1)
          (if kind == .module then line + 1 else range.stop.line + 1)
        return .mk name detail kind range selection children :: rest

/-- The members of a session, given its symbol with nothing below it. -/
def members? (d : Document) (s : Symbol) : Except Failure (List Symbol) :=
  if s.kind == .session then
    walk? d memberForms (fun _ => return []) (s.range.stop.line - (s.range.start.line + 1))
      (s.range.start.line + 1) 0
  else return []

/-- The outline of a text, with checks. -/
def symbols? (t : Text) : Except Failure (List Symbol) :=
  let d := Document.ofText t
  walk? d topForms (members? d) d.lineCount 0 0

section Checks

variable {t : Text} {forms : List Form} {n : Nat}

theorem ok_bind {α β : Type} (a : α) (f : α → Except Failure β) : (Except.ok a >>= f) = f a := rfl

theorem line?_eq_ok {ls : List Text} {l : Text} (h : ls[n]? = some l) : line? ls n = .ok l := by
  rw [line?, h]
  rfl

theorem span?_eq_ok (s : Span) : span? s.start s.stop = .ok s := by
  rw [span?, Span.ofEnds_eq_ok_iff.mpr ⟨rfl, rfl⟩]
  rfl

/-- There is a line of each number below the number of lines. -/
theorem getElem?_of_lt {k : Nat} (hk : k < (Document.ofText t).lineCount) :
    ∃ l, (Document.ofText t).lines[k]? = some l ∧ (Document.ofText t).lineLength k = l.length := by
  have hget := List.getElem?_eq_getElem (show k < (Document.ofText t).lines.length from hk)
  exact ⟨_, hget, Document.lineLength_of_getElem? hget⟩

theorem toSymbol?_eq {b : Block} (h : b.Declared (.ofText t) forms) :
    b.toSymbol? (.ofText t) = .ok (b.toSymbol (.ofText t) []) := by
  obtain ⟨last, hlast, hlength⟩ := getElem?_of_lt h.endLine_lt
  have hrange : span? ⟨b.line, 0⟩ ⟨b.endLine, last.length⟩ =
      .ok (Span.ofLines b.line b.linesBelow last.length) :=
    span?_eq_ok (Span.ofLines b.line b.linesBelow last.length)
  have hselection : span? ⟨b.line, b.heading.column⟩
      ⟨b.line, b.heading.column + b.heading.name.length⟩ =
        .ok (Span.onLine b.line b.heading.column b.heading.name.length) :=
    span?_eq_ok (Span.onLine b.line b.heading.column b.heading.name.length)
  rw [Block.toSymbol?, line?_eq_ok hlast, ok_bind, hrange, ok_bind, hselection, ok_bind,
    Block.toSymbol, hlength]
  rfl

/-- **No check fails on a line of the text.**  The name of a block stands on the line that declares
it, and its last line is one of the text, so the ends of both ranges are in order. -/
theorem symbolAt?_eq (hn : n < (Document.ofText t).lineCount) :
    symbolAt? (.ofText t) forms n =
      .ok ((blockAt? (.ofText t) forms n).map fun b => b.toSymbol (.ofText t) []) := by
  have hcodeLines : n < (Document.ofText t).codeLines.length := by
    rwa [Document.length_codeLines]
  have hcode := List.getElem?_eq_getElem hcodeLines
  generalize (Document.ofText t).codeLines[n] = code at hcode
  obtain ⟨line, hline, -⟩ := getElem?_of_lt hn
  rw [symbolAt?, line?_eq_ok hcode, ok_bind]
  cases hheading : heading? forms code with
  | none =>
    have hblock : blockAt? (.ofText t) forms n = none := by
      rw [blockAt?, hcode, Option.bind_some, hheading]
      rfl
    rw [hblock]
    rfl
  | some h =>
    have hblock : blockAt? (.ofText t) forms n = some ⟨h, n, linesBelow
        ((Document.ofText t).code.drop ((Document.ofText t).lineStart n + h.column))⟩ := by
      rw [blockAt?, hcode, Option.bind_some, hheading]
      rfl
    rw [hblock]
    dsimp only
    rw [line?_eq_ok hline, ok_bind, toSymbol?_eq (declared_of_blockAt? hblock).2]
    rfl

/-- **No check fails on the way down the lines**, if none fails below a symbol. -/
theorem walk?_eq {below : Symbol → Except Failure (List Symbol)} {children : Block → List Symbol}
    (hbelow : ∀ b, blockAt? (.ofText t) forms b.line = some b →
      below (b.toSymbol (.ofText t) []) = .ok (children b)) (count : Nat) :
    ∀ line resume, line + count ≤ (Document.ofText t).lineCount →
      walk? (.ofText t) forms below count line resume =
        .ok ((blocksFrom (.ofText t) forms count line resume).map fun b =>
          b.toSymbol (.ofText t) (children b)) := by
  induction count with
  | zero => exact fun _ _ _ => rfl
  | succ count ih =>
    intro line resume hcount
    rw [walk?, blocksFrom]
    split
    · exact ih _ _ (by omega)
    · rw [symbolAt?_eq (show line < (Document.ofText t).lineCount by omega), ok_bind]
      cases hb : blockAt? (.ofText t) forms line with
      | none => exact ih _ _ (by omega)
      | some b =>
        obtain ⟨hline, -⟩ := declared_of_blockAt? hb
        have hchildren := hbelow b (by rw [hline, hb])
        rw [Block.toSymbol] at hchildren
        rw [Option.map_some, Block.toSymbol]
        dsimp only
        rw [hchildren, ok_bind]
        change (walk? (.ofText t) forms below count (line + 1)
          (if b.isTransparent then line + 1 else b.endLine + 1) >>= _) = _
        rw [ih _ _ (by omega), ok_bind]
        rfl

/-- No check fails between the first line of a session and its last one. -/
theorem members?_eq {b : Block} (h : b.Declared (.ofText t) forms) :
    members? (.ofText t) (b.toSymbol (.ofText t) []) = .ok (childrenOf (.ofText t) b) := by
  have hline := h.line_lt
  have hend := h.endLine_lt
  have hmembers : walk? (.ofText t) memberForms (fun _ => return [])
      (b.endLine - (b.line + 1)) (b.line + 1) 0 = .ok (members (.ofText t) b) :=
    walk?_eq (fun _ _ => rfl) _ _ _ (by omega)
  change (if b.heading.form.kind == .session then walk? (.ofText t) memberForms
    (fun _ => return []) (b.endLine - (b.line + 1)) (b.line + 1) 0 else return []) = _
  rw [childrenOf, hmembers]
  split <;> rfl

/-- **An outline is made without any failure.**  All lines that the two walks come to are lines of
the text: the walk at the top ends with the text, and the one for members ends with their session.
-/
theorem symbols?_eq (t : Text) : symbols? t = .ok (symbols t) := by
  refine walk?_eq ?_ _ _ _ (Nat.le_of_eq (Nat.zero_add _))
  intro b hb
  exact members?_eq (declared_of_blockAt? hb).2

end Checks

end Outline

/-! ## 2. Symbols and their places -/

namespace Symbol

/-- One symbol is ahead of another: it starts above it, and ends above it, too, unless it is the
wrapper. -/
structure Ahead (s s' : Symbol) : Prop where
  start : s.range.start.line < s'.range.start.line
  stop : s.kind ≠ .module → s.range.stop.line < s'.range.start.line

/-- A symbol covers whole lines of a text, and its selection covers its name, which the text has on
the first of them. -/
structure Placed (t : Text) (s : Symbol) : Prop where
  start_column : s.range.start.column = 0
  lines_le : s.range.start.line ≤ s.range.stop.line
  stop_line : ∃ l, t.lines[s.range.stop.line]? = some l ∧ s.range.stop.column = l.length
  start_le : s.range.start ≤ s.selection.start
  stop_le : s.selection.stop ≤ s.range.stop
  name : ∃ u v, t.lines[s.range.start.line]? = some (u ++ (s.name ++ v)) ∧
    s.selection.start = ⟨s.range.start.line, u.length⟩ ∧
    s.selection.stop = ⟨s.range.start.line, u.length + s.name.length⟩

/-- A suggestion or a trigger between the first line of a session and the last one, with nothing
below it. -/
structure MemberOf (s m : Symbol) : Prop where
  session : s.kind = .session
  kind : m.kind = .method ∨ m.kind = .event
  children : m.children = []
  below : s.range.start.line < m.range.start.line
  above : m.range.start.line < s.range.stop.line

end Symbol

namespace Outline

/-- A name consists of word characters. -/
theorem isWord_of_mem_name {form : Form} {code : Text} {h : Heading} (hw : IsRun form.word)
    (hh : headingOf? code form = some h) : ∀ c ∈ h.name, isWord c = true := by
  obtain ⟨-, hname | ⟨r, hname⟩, -⟩ := headingOf?_split hh
  · rw [hname]
    exact hw.2
  · rw [hname]
    intro c hc
    exact List.mem_takeWhile_imp hc

section Places

variable {t : Text} {forms : List Form} {b b' : Block}

/-- The text has the name where its masked copy has it. -/
theorem Block.Declared.exists_line (h : b.Declared (.ofText t) forms) (hw : AreWords forms) :
    ∃ u v, t.lines[b.line]? = some (u ++ (b.heading.name ++ v)) ∧ u.length = b.heading.column := by
  obtain ⟨code, hcode, hheading⟩ := h.heading
  obtain ⟨form, hform, hheading⟩ := List.exists_of_findSome?_eq_some hheading
  obtain ⟨-, -, p, q, rfl, hlength⟩ := headingOf?_split hheading
  obtain ⟨l, hl, hhides⟩ := Document.exists_line_of_codeLines hcode
  obtain ⟨u, v, rfl, hu⟩ :=
    Mask.exists_of_hides (isWord_of_mem_name (hw form hform) hheading) hhides
  exact ⟨u, v, hl, hu.trans hlength⟩

theorem placed_toSymbol (h : b.Declared (.ofText t) forms) (hw : AreWords forms)
    (cs : List Symbol) : (b.toSymbol (.ofText t) cs).Placed t := by
  have hcolumn := h.column_add_le
  refine ⟨rfl, Nat.le_add_right _ _, getElem?_of_lt h.endLine_lt, ?_, ?_, ?_⟩
  · exact Or.inr ⟨rfl, Nat.zero_le _⟩
  · rw [Position.le_iff]
    change b.line < b.endLine ∨ b.line = b.endLine ∧
      b.heading.column + b.heading.name.length ≤ (Document.ofText t).lineLength b.endLine
    rcases Nat.eq_or_lt_of_le (Nat.le_add_right b.line b.linesBelow) with heq | hlt
    · have hline : b.line = b.endLine := heq
      exact Or.inr ⟨hline, hline ▸ hcolumn⟩
    · exact Or.inl hlt
  · obtain ⟨u, v, hl, hu⟩ := h.exists_line hw
    refine ⟨u, v, hl, ?_, ?_⟩
    · rw [hu]
      rfl
    · rw [hu]
      rfl

theorem ahead_toSymbol {d : Document} {cs cs' : List Symbol} (h : b.Ahead b') :
    (b.toSymbol d cs).Ahead (b'.toSymbol d cs') := by
  refine ⟨h.line, ?_⟩
  intro hkind
  refine h.endLine ?_
  rw [Block.isTransparent, beq_eq_false_iff_ne]
  exact hkind

/-- Blocks that are found one after the other make symbols that are. -/
theorem pairwise_ahead {d : Document} (forms : List Form) (count line resume : Nat)
    (children : Block → List Symbol) :
    ((blocksFrom d forms count line resume).map fun b => b.toSymbol d (children b)).Pairwise
      Symbol.Ahead := by
  rw [List.pairwise_map]
  exact (pairwise_blocksFrom d forms count line resume).imp ahead_toSymbol

/-- What is found by the forms of members is a suggestion or a trigger. -/
theorem kind_of_member (h : b.Declared (.ofText t) memberForms) :
    b.heading.form.kind = .method ∨ b.heading.form.kind = .event := by
  obtain ⟨code, -, hheading⟩ := h.heading
  have hform := ((heading?_eq_some_iff areWords_memberForms nodup_memberForms).mp hheading).1
  rw [memberForms, List.mem_pair] at hform
  rcases hform with hform | hform
  · rw [hform]
    exact Or.inl rfl
  · rw [hform]
    exact Or.inr rfl

/-- **Outlines are well formed.**  No look-up and no range fails while one is made.  The symbols at
the top level, and those below each of them, are in order, and none but the wrapper reaches into the
next.  Each covers whole lines of the text, with its name on the first one.  Below a session there
are suggestions and triggers that start inside of it, and there is nothing below anything else.

A name is found in the masked copy, at a column of the copy.  That it stands at that column in the
line too is due to word characters being shown only where they stand; no offset has to be corrected,
whatever stands in front of it. -/
theorem symbols_wellFormed (t : Text) :
    symbols? t = .ok (symbols t) ∧ (symbols t).Pairwise Symbol.Ahead ∧
      ∀ s ∈ symbols t, s.Placed t ∧ s.children.Pairwise Symbol.Ahead ∧
        ∀ m ∈ s.children, s.MemberOf m ∧ m.Placed t := by
  refine ⟨symbols?_eq t, pairwise_ahead topForms _ _ _ _, ?_⟩
  intro s hs
  obtain ⟨b, hb, rfl⟩ := mem_symbols_iff.mp hs
  have hdeclared := (declared_of_blockAt? (blockAt?_of_mem_blocks hb)).2
  refine ⟨placed_toSymbol hdeclared areWords_topForms _, ?_, ?_⟩
  · change (childrenOf (.ofText t) b).Pairwise Symbol.Ahead
    rw [childrenOf]
    split
    · exact pairwise_ahead memberForms _ _ _ _
    · exact .nil
  · intro m hm
    obtain ⟨hkind, b', hb', rfl⟩ := mem_childrenOf_iff.mp hm
    obtain ⟨hblock, hbelow, habove⟩ := of_mem_memberBlocks hb'
    have hmember := (declared_of_blockAt? hblock).2
    exact ⟨⟨hkind, kind_of_member hmember, rfl, hbelow, habove⟩,
      placed_toSymbol hmember areWords_memberForms []⟩

/-- A session with a member whose name has a letter that is not in ASCII. -/
theorem symbols_wellFormed_session :
    let t := "session A \x7b\n  trigger grüßen \x7b \x7d\n\x7d".toList
    let m := Block.toSymbol ⟨⟨"grüßen".toList, 10, triggerForm⟩, 1, 0⟩ (.ofText t) []
    let s := Block.toSymbol ⟨⟨"A".toList, 8, sessionForm⟩, 0, 2⟩ (.ofText t) [m]
    (s ∈ symbols t ∧ m ∈ s.children) ∧ symbols? t = .ok (symbols t) ∧ s.Placed t ∧
      s.MemberOf m ∧ m.Placed t := by
  intro t m s
  have hs : s ∈ symbols t := by
    have hsymbols : symbols t = [s] := rfl
    rw [hsymbols]
    exact List.mem_cons_self
  have hm : m ∈ s.children := List.mem_cons_self
  obtain ⟨hchecked, -, hplaces⟩ := symbols_wellFormed t
  obtain ⟨hplaced, -, hmembers⟩ := hplaces s hs
  exact ⟨⟨hs, hm⟩, hchecked, hplaced, hmembers m hm⟩

end Places
end Outline
end HypnoScript
