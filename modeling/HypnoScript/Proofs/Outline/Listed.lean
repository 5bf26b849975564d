/-
# Which blocks are listed

The outline goes down the lines of a text, lists each block that a line declares, and goes on behind
its last line, or inside it if it is the wrapper.  So of two blocks that are listed beside each
other one is ahead of the other (`Block.Ahead`, `pairwise_blocksFrom`), and a block that is passed
over lies inside one that is listed (`Block.Covers`, `mem_or_covered`).

What can be folded is looked for on every line, without passing over anything.  It is the same
blocks nevertheless (`foldingRanges_agree`): the members of a session are declared in one form only,
as the words of the forms differ (`heading?_eq_some_iff`), and the blocks that no symbol stands for
start inside one for which there is a symbol.
-/
import Mathlib.Data.List.Nodup
import HypnoScript.Proofs.Outline.Ends
import HypnoScript.Proofs.Outline.Tokens

namespace HypnoScript
namespace Outline

open Text (IsRun tokens)

/-! ## 1. The walk down the lines -/

/-- A block is ahead of another: it starts above it, and ends above it, too, unless the blocks
inside of it are listed beside it. -/
structure Block.Ahead (b b' : Block) : Prop where
  line : b.line < b'.line
  endLine : b.isTransparent = false → b.endLine < b'.line

/-- A line lies inside a block, below its first line, and blocks there are not listed beside it. -/
structure Block.Covers (b : Block) (n : Nat) : Prop where
  closed : b.isTransparent = false
  below : b.line < n
  le_endLine : n ≤ b.endLine

section Walk

variable {d : Document} {forms : List Form} {count line resume n : Nat} {b : Block}

/-- What is found is declared where it starts, on one of the lines that are searched. -/
theorem of_mem_blocksFrom (h : b ∈ blocksFrom d forms count line resume) :
    blockAt? d forms b.line = some b ∧ line ≤ b.line ∧ resume ≤ b.line ∧
      b.line < line + count := by
  induction count generalizing line resume with
  | zero => exact absurd h List.not_mem_nil
  | succ count ih =>
    rw [blocksFrom] at h
    split at h
    · obtain ⟨hb, hline, hresume, hcount⟩ := ih h
      exact ⟨hb, by omega, hresume, by omega⟩
    · split at h
      · obtain ⟨hb, hline, hresume, hcount⟩ := ih h
        exact ⟨hb, by omega, hresume, by omega⟩
      · rename_i b' hb'
        obtain ⟨hline', -⟩ := declared_of_blockAt? hb'
        rcases List.mem_cons.mp h with rfl | h
        · exact ⟨by rw [hline', hb'], by omega, by omega, by omega⟩
        · obtain ⟨hb, hline, -, hcount⟩ := ih h
          exact ⟨hb, by omega, by omega, by omega⟩

/-- **Of the blocks that are found, each is ahead of the next ones.**  The walk goes on behind the
last line of a block, unless the block is the wrapper, and then behind its first line. -/
theorem pairwise_blocksFrom (d : Document) (forms : List Form) (count : Nat) :
    ∀ line resume, (blocksFrom d forms count line resume).Pairwise Block.Ahead := by
  induction count with
  | zero => exact fun _ _ => .nil
  | succ count ih =>
    intro line resume
    rw [blocksFrom]
    split
    · exact ih _ _
    · split
      · exact ih _ _
      · rename_i b hb
        obtain ⟨hline, -⟩ := declared_of_blockAt? hb
        refine .cons ?_ (ih _ _)
        intro b' hb'
        obtain ⟨-, hbelow, hresume, -⟩ := of_mem_blocksFrom hb'
        refine ⟨by omega, ?_⟩
        intro hclosed
        rw [hclosed] at hresume
        exact hresume

/-- **No block is lost**: it is found, or starts inside one that is found.  The only lines that are
passed over are those of a block. -/
theorem mem_or_covered (h : blockAt? d forms n = some b) (hline : line ≤ n)
    (hresume : resume ≤ n) (hcount : n < line + count) :
    b ∈ blocksFrom d forms count line resume ∨
      ∃ b' ∈ blocksFrom d forms count line resume, b'.Covers n := by
  induction count generalizing line resume with
  | zero => omega
  | succ count ih =>
    rw [blocksFrom]
    split
    · exact ih (by omega) hresume (by omega)
    · split
      · rename_i hnone
        have hne : line ≠ n := by
          rintro rfl
          rw [hnone] at h
          cases h
        exact ih (by omega) hresume (by omega)
      · rename_i b' hb'
        obtain ⟨hline', -⟩ := declared_of_blockAt? hb'
        by_cases hn : line = n
        · subst hn
          rw [hb', Option.some.injEq] at h
          exact Or.inl (h ▸ List.mem_cons_self)
        · by_cases hcovers : b'.Covers n
          · exact Or.inr ⟨b', List.mem_cons_self, hcovers⟩
          · -- the walk goes on above the line, or on it
            have hgo : (if b'.isTransparent then line + 1 else b'.endLine + 1) ≤ n := by
              split
              · omega
              · rename_i hclosed
                apply Nat.lt_of_not_le
                intro hle
                exact hcovers ⟨Bool.eq_false_iff.mpr hclosed, by omega, hle⟩
            have hrest := ih (show line + 1 ≤ n by omega) hgo (by omega)
            rcases hrest with hmem | ⟨b'', hmem, hcovers'⟩
            · exact Or.inl (List.mem_cons_of_mem _ hmem)
            · exact Or.inr ⟨b'', List.mem_cons_of_mem _ hmem, hcovers'⟩

end Walk

/-! ## 2. One form for each line -/

section Headings

variable {forms : List Form} {form form' : Form} {code : Text} {h h' : Heading}

/-- The word of its form is the first token of a heading. -/
theorem tokens_of_headingOf? (hw : IsRun form.word) (hh : headingOf? code form = some h) :
    (tokens code).head? = some (.word form.word) := by
  have hname := headingOf?_eq hw code
  rw [hh, Option.map_some] at hname
  unfold headingName? at hname
  split at hname
  · rename_i w ts htokens
    split at hname
    · cases hname
    · rename_i hword
      rw [htokens, List.head?_cons, not_not.mp hword]
  · cases hname

/-- **A line is a heading in one form only**, if the words of the forms differ: the line starts with
one word, so the order in which the forms are tried does not matter. -/
theorem heading?_eq_some_iff (hw : AreWords forms) (hforms : (forms.map Form.word).Nodup) :
    heading? forms code = some h ↔ h.form ∈ forms ∧ headingOf? code h.form = some h := by
  have hfound {h : Heading} (hh : heading? forms code = some h) :
      h.form ∈ forms ∧ headingOf? code h.form = some h := by
    obtain ⟨form, hform, hh⟩ := List.exists_of_findSome?_eq_some hh
    obtain ⟨rfl, -⟩ := headingOf?_split hh
    exact ⟨hform, hh⟩
  refine ⟨hfound, ?_⟩
  rintro ⟨hform, hh⟩
  obtain ⟨h', hh'⟩ : ∃ h', heading? forms code = some h' := by
    rw [← Option.isSome_iff_exists, heading?, List.findSome?_isSome_iff]
    exact ⟨h.form, hform, by rw [hh]; rfl⟩
  obtain ⟨hform', hheading'⟩ := hfound hh'
  have hwords : h.form.word = h'.form.word := by
    have htokens := tokens_of_headingOf? (hw _ hform) hh
    rw [tokens_of_headingOf? (hw _ hform') hheading', Option.some.injEq, Token.word.injEq] at htokens
    exact htokens.symm
  have heq : h.form = h'.form := List.inj_on_of_nodup_map hforms hform hform' hwords
  rw [heq, hheading', Option.some.injEq] at hh
  rw [hh', hh]

theorem mem_topForms_of_mem_memberForms (h : form ∈ memberForms) : form ∈ topForms := by
  rw [memberForms, List.mem_pair] at h
  rcases h with rfl | rfl <;> simp [topForms]

theorem nodup_topForms : (topForms.map Form.word).Nodup := by decide

theorem nodup_memberForms : (memberForms.map Form.word).Nodup := by decide

/-- A member of a session is a block in its own right. -/
theorem blockAt?_topForms {d : Document} {n : Nat} {b : Block}
    (hb : blockAt? d memberForms n = some b) : blockAt? d topForms n = some b := by
  obtain ⟨code, hcode, hheading⟩ := Option.bind_eq_some_iff.mp hb
  obtain ⟨h, hh, rfl⟩ := Option.map_eq_some_iff.mp hheading
  obtain ⟨hform, hh⟩ := (heading?_eq_some_iff areWords_memberForms nodup_memberForms).mp hh
  have htop : h.form ∈ topForms := mem_topForms_of_mem_memberForms hform
  have hsame : heading? topForms code = some h :=
    (heading?_eq_some_iff areWords_topForms nodup_topForms).mpr ⟨htop, hh⟩
  rw [blockAt?, hcode, Option.bind_some, hsame]
  rfl

end Headings

/-! ## 3. The blocks that symbols stand for -/

/-- The blocks that an outline lists at its top level. -/
def blocks (d : Document) : List Block := blocksFrom d topForms d.lineCount 0 0

/-- The blocks that are members of a session. -/
def memberBlocks (d : Document) (b : Block) : List Block :=
  blocksFrom d memberForms (b.endLine - (b.line + 1)) (b.line + 1) 0

/-- The symbols below the one that stands for a block. -/
def childrenOf (d : Document) (b : Block) : List Symbol :=
  if b.heading.form.kind == .session then members d b else []

section Symbols

variable {t : Text} {s m : Symbol} {b : Block}

theorem mem_symbols_iff :
    s ∈ symbols t ↔
      ∃ b ∈ blocks (.ofText t), b.toSymbol (.ofText t) (childrenOf (.ofText t) b) = s :=
  List.mem_map

theorem mem_childrenOf_iff {d : Document} : m ∈ childrenOf d b ↔
    b.heading.form.kind = .session ∧ ∃ b' ∈ memberBlocks d b, b'.toSymbol d [] = m := by
  rw [childrenOf]
  split
  · rename_i hkind
    rw [beq_iff_eq] at hkind
    rw [and_iff_right hkind]
    exact List.mem_map
  · rename_i hkind
    rw [beq_iff_eq] at hkind
    refine iff_of_false List.not_mem_nil ?_
    intro h
    exact hkind h.1

/-- What is listed at the top level is declared there. -/
theorem blockAt?_of_mem_blocks {d : Document} (h : b ∈ blocks d) :
    blockAt? d topForms b.line = some b :=
  (of_mem_blocksFrom h).1

/-- **A member starts inside its session**, below its first line and above its last one. -/
theorem of_mem_memberBlocks {d : Document} {b' : Block} (h : b' ∈ memberBlocks d b) :
    blockAt? d memberForms b'.line = some b' ∧ b.line < b'.line ∧ b'.line < b.endLine := by
  obtain ⟨hblock, hline, -, hcount⟩ := of_mem_blocksFrom h
  exact ⟨hblock, by omega, by omega⟩

end Symbols
end Outline

/-- A symbol is listed by an outline: it is one of its symbols, or below one that is listed. -/
inductive Symbol.Listed (outline : List Symbol) : Symbol → Prop
  | top {s : Symbol} (h : s ∈ outline) : Listed outline s
  | child {s c : Symbol} (h : Listed outline s) (hc : c ∈ s.children) : Listed outline c

/-- The lines of a symbol, to be folded. -/
def Symbol.folded (s : Symbol) : FoldingRange := ⟨s.range.start.line, s.range.stop.line⟩

namespace Outline

section Folding

variable {t : Text}

/-- A symbol that is listed is at the top level or one below it, and stands for a block that its
line declares. -/
theorem exists_of_listed {s : Symbol} (h : s.Listed (symbols t)) :
    ∃ b, blockAt? (.ofText t) topForms b.line = some b ∧
      (∃ cs, s = b.toSymbol (.ofText t) cs) ∧ (s ∈ symbols t ∨ s.children = []) := by
  induction h with
  | @top s h =>
    obtain ⟨b, hb, rfl⟩ := mem_symbols_iff.mp h
    exact ⟨b, blockAt?_of_mem_blocks hb, ⟨_, rfl⟩, Or.inl h⟩
  | @child s c h hc ih =>
    obtain ⟨-, -, -, htop | hnil⟩ := ih
    · obtain ⟨b, -, rfl⟩ := mem_symbols_iff.mp htop
      obtain ⟨-, m, hm, rfl⟩ := mem_childrenOf_iff.mp hc
      exact ⟨m, blockAt?_topForms (of_mem_memberBlocks hm).1, ⟨_, rfl⟩, Or.inr rfl⟩
    · rw [hnil] at hc
      exact absurd hc List.not_mem_nil

/-- **What can be folded** is every block of more than one line.  Nothing is passed over, so each
line is asked for its own block only. -/
theorem mem_foldingRanges_iff {r : FoldingRange} : r ∈ foldingRanges t ↔
    ∃ b, blockAt? (.ofText t) topForms b.line = some b ∧ b.line < b.endLine ∧
      r = ⟨b.line, b.endLine⟩ := by
  rw [foldingRanges, foldingRangesOf, List.mem_filterMap]
  constructor
  · rintro ⟨n, -, hn⟩
    obtain ⟨b, hb, hfold⟩ := Option.bind_eq_some_iff.mp hn
    obtain ⟨rfl, -⟩ := declared_of_blockAt? hb
    split at hfold
    · rename_i hlt
      exact ⟨b, hb, hlt, (Option.some.inj hfold).symm⟩
    · cases hfold
  · rintro ⟨b, hb, hlt, rfl⟩
    have hline := (declared_of_blockAt? hb).2.line_lt
    refine ⟨b.line, List.mem_range.mpr hline, ?_⟩
    rw [hb, Option.bind_some, if_pos hlt]

/-- Further down there is another line to fold from. -/
theorem pairwise_foldingRanges (t : Text) :
    (foldingRanges t).Pairwise (·.startLine < ·.startLine) := by
  refine List.pairwise_lt_range.filterMap _ ?_
  intro n n' hlt r hr r' hr'
  have hstart {n : Nat} {r : FoldingRange}
      (hr : ((blockAt? (.ofText t) topForms n).bind fun b =>
        if n < b.endLine then some (⟨n, b.endLine⟩ : FoldingRange) else none) = some r) :
      r.startLine = n := by
    obtain ⟨b, -, hfold⟩ := Option.bind_eq_some_iff.mp hr
    split at hfold
    · rw [← Option.some.inj hfold]
    · cases hfold
  rw [hstart hr, hstart hr']
  exact Int.ofNat_lt.mpr hlt

/-- **Outline and folding agree.**  What can be folded is in the order of its first lines; the lines
of each symbol that is listed, at any level, can be folded if they are more than one; and if lines
can be folded that are not those of a symbol, the first of them lies inside the lines of a symbol
that is not the wrapper.

The two are made by different walks.  The outline passes over lines and looks for members with forms
of their own; folding looks at every line with all forms.  A line nevertheless has the same block in
both, as no two forms start with the same word, and what the outline passes over it covers. -/
theorem foldingRanges_agree (t : Text) :
    (foldingRanges t).Pairwise (·.startLine < ·.startLine) ∧
    (∀ s : Symbol, s.Listed (symbols t) → s.range.start.line < s.range.stop.line →
      s.folded ∈ foldingRanges t) ∧
    ∀ r ∈ foldingRanges t, (∃ s : Symbol, s.Listed (symbols t) ∧ s.folded = r) ∨
      ∃ s : Symbol, s.Listed (symbols t) ∧ s.kind ≠ .module ∧
        (s.range.start.line : Int) ≤ r.startLine ∧ r.startLine ≤ s.range.stop.line := by
  refine ⟨pairwise_foldingRanges t, ?_, ?_⟩
  · intro s hs hlt
    obtain ⟨b, hb, ⟨cs, rfl⟩, -⟩ := exists_of_listed hs
    exact mem_foldingRanges_iff.mpr ⟨b, hb, hlt, rfl⟩
  · intro r hr
    obtain ⟨b, hb, -, rfl⟩ := mem_foldingRanges_iff.mp hr
    have hline := (declared_of_blockAt? hb).2.line_lt
    have hlisted {b : Block} (hb : b ∈ blocks (.ofText t)) :
        (b.toSymbol (.ofText t) (childrenOf (.ofText t) b)).Listed (symbols t) :=
      .top (mem_symbols_iff.mpr ⟨b, hb, rfl⟩)
    have hwalk : b ∈ blocks (.ofText t) ∨ ∃ b' ∈ blocks (.ofText t), b'.Covers b.line :=
      mem_or_covered hb (Nat.zero_le _) (Nat.zero_le _) (by omega)
    rcases hwalk with hmem | ⟨b', hmem, hcovers⟩
    · exact Or.inl ⟨_, hlisted hmem, rfl⟩
    · refine Or.inr ⟨_, hlisted hmem, ?_, ?_, ?_⟩
      · intro hkind
        have hclosed := hcovers.closed
        have hmodule : b'.heading.form.kind = .module := hkind
        rw [Block.isTransparent, hmodule] at hclosed
        cases hclosed
      · exact Int.ofNat_le.mpr (Nat.le_of_lt hcovers.below)
      · exact Int.ofNat_le.mpr hcovers.le_endLine

/-- A block inside a suggestion can be folded, though no symbol stands for it. -/
theorem foldingRanges_agree_nested :
    let t := "suggestion f() \x7b\n  deepFocus \x7b\n  \x7d\n\x7d".toList
    let s := Block.toSymbol ⟨⟨"f".toList, 11, suggestionForm⟩, 0, 3⟩ (.ofText t) []
    let r : FoldingRange := ⟨1, 2⟩
    (s.Listed (symbols t) ∧ s.range.start.line < s.range.stop.line ∧ s.folded ∈ foldingRanges t) ∧
      r ∈ foldingRanges t ∧ ((∃ s : Symbol, s.Listed (symbols t) ∧ s.folded = r) ∨
        ∃ s : Symbol, s.Listed (symbols t) ∧ s.kind ≠ .module ∧
          (s.range.start.line : Int) ≤ r.startLine ∧ r.startLine ≤ s.range.stop.line) := by
  intro t s r
  have hsymbols : symbols t = [s] := rfl
  have hlisted : s.Listed (symbols t) := .top (hsymbols ▸ List.mem_cons_self)
  have hlines : s.range.start.line < s.range.stop.line := by decide
  have hr : r ∈ foldingRanges t := by decide +kernel
  obtain ⟨-, hfolded, hplaces⟩ := foldingRanges_agree t
  exact ⟨⟨hlisted, hlines, hfolded s hlisted hlines⟩, hr, hplaces r hr⟩

end Folding
end Outline
end HypnoScript
