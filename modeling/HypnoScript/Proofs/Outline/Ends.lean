/-
# Where blocks end

The outline finds the last line of a block by counting newlines on its way.  Here the line is told
by offsets, as for everything else that is found in the code.  The first brace at or behind the name
opens the block (`OpensAt`), the search for the brace that closes it goes by the depth alone
(`closing?`), and it stops at that brace or at the end of the text (`stopOf`).  The last line of the
block is the line of the stop, or the line of the name if no brace is opened behind it
(`endLine_of_opensAt`, `endLine_of_not_opensAt`).

A search that starts inside of the stretch of another one stops no later than that one
(`closingAt?_nested`): blocks can follow each other or lie inside of each other, but do not cross.
-/
import HypnoScript.Outline
import HypnoScript.Proofs.Analysis.Ranges
import HypnoScript.Proofs.Text.Offsets

namespace HypnoScript

/-! ## 1. Lines of offsets -/

/-- A text ends as many lines below its start as it has newlines. -/
theorem Text.line_endOf (p : Text) : p.endOf.line = p.count '\n' := by
  induction p using line_induction with
  | last l hl => rw [endOf_of_no_newline hl, List.count_eq_zero.mpr hl]
  | line l p hl ih =>
    rw [endOf_append_newline, endOf_of_no_newline hl, List.count_append, List.count_cons_self,
      List.count_eq_zero.mpr hl, ih]
    dsimp only
    omega

namespace Document

variable {t : Text} {n c : Nat}

/-- The line of an offset is the number of newlines in front of it. -/
theorem line_positionAt_eq_count {o : Nat} (ho : o ≤ (masked t).length) :
    ((ofText t).positionAt o).line = ((masked t).take o).count '\n' := by
  have hcode : (ofText t).code = (masked t).take o ++ (masked t).drop o :=
    (List.take_append_drop o (masked t)).symm
  have hposition := positionAt_of_code hcode
  rw [List.length_take_of_le ho] at hposition
  rw [hposition, Text.line_endOf]

theorem length_masked (t : Text) : (masked t).length = t.length := Mask.length_scan .code t

/-- A place on a line stands in the text. -/
theorem lineStart_add_le (hn : n < (ofText t).lineCount) (hc : c ≤ (ofText t).lineLength n) :
    (ofText t).lineStart n + c ≤ (masked t).length := by
  have hend := lineStartIn_add_length_le (show n < t.lines.length from hn)
  rw [Text.joinLines_lines] at hend
  rw [length_masked]
  exact Nat.le_trans (Nat.add_le_add_left hc _) hend

/-- In front of a place on line `n` there are `n` newlines. -/
theorem count_take_lineStart_add (hn : n < (ofText t).lineCount)
    (hc : c ≤ (ofText t).lineLength n) :
    ((masked t).take ((ofText t).lineStart n + c)).count '\n' = n := by
  have hposition : (ofText t).positionAt ((ofText t).lineStart n + c : Nat) = ⟨n, c⟩ :=
    positionIn_lineStartIn_add hn hc
  rw [← line_positionAt_eq_count (lineStart_add_le hn hc), hposition]

end Document

namespace Outline

/-! ## 2. The search for the closing brace -/

/-- The number of open blocks behind a character, unless it closes the last one. -/
def depthBehind? (depth : Nat) (c : Char) : Option Nat :=
  if c = '{' then some (depth + 1)
  else if c = '}' then if depth ≤ 1 then none else some (depth - 1)
  else some depth

/-- How far behind the start of a text the brace stands that closes the last of the open blocks.
There is none if the text ends before. -/
def closing? (depth : Nat) : Text → Option Nat
  | [] => none
  | c :: cs =>
    match depthBehind? depth c with
    | none => some 0
    | some depth => (closing? depth cs).map (· + 1)

section Step

variable {depth next : Nat} {c : Char}

theorem depthBehind?_eq_none_iff : depthBehind? depth c = none ↔ c = '}' ∧ depth ≤ 1 := by
  unfold depthBehind?
  split
  · rename_i ho
    simp [ho]
  · split
    · rename_i hc
      simp [hc]
    · rename_i hc
      simp [hc]

theorem depthBehind?_pos (hpos : 0 < depth) (h : depthBehind? depth c = some next) :
    0 < next := by
  unfold depthBehind? at h
  split at h
  · rw [← Option.some.inj h]
    exact Nat.succ_pos _
  · split at h
    · split at h
      · cases h
      · rw [← Option.some.inj h]
        omega
    · rwa [← Option.some.inj h]

/-- With fewer open blocks there are fewer behind the character, too, if the search goes on. -/
theorem depthBehind?_mono {depth' next' : Nat} (hle : depth' ≤ depth)
    (h : depthBehind? depth c = some next) (h' : depthBehind? depth' c = some next') :
    next' ≤ next := by
  unfold depthBehind? at h h'
  by_cases ho : c = '{'
  · rw [if_pos ho, Option.some.injEq] at h h'
    omega
  · rw [if_neg ho] at h h'
    by_cases hc : c = '}'
    · rw [if_pos hc] at h h'
      split at h' <;> split at h <;> simp only [Option.some.injEq, reduceCtorEq] at h h'
      omega
    · rw [if_neg hc, Option.some.injEq] at h h'
      omega

theorem linesToClose_cons (depth : Nat) (c : Char) (t : Text) :
    linesToClose depth (c :: t) = (depthBehind? depth c).elim 0 fun next =>
      linesToClose next t + if c = '\n' then 1 else 0 := by
  rw [linesToClose, depthBehind?]
  by_cases ho : c = '{'
  · subst ho
    rfl
  · rw [if_neg ho, if_neg ho]
    by_cases hc : c = '}'
    · subst hc
      rw [if_pos rfl, if_pos rfl]
      split <;> rfl
    · rw [if_neg hc, if_neg hc]
      split <;> rfl

end Step

section Search

variable {depth next k : Nat} {c : Char} {t : Text}

theorem closing?_cons_stop (h : depthBehind? depth c = none) :
    closing? depth (c :: t) = some 0 := by
  rw [closing?, h]

theorem closing?_cons_next (h : depthBehind? depth c = some next) :
    closing? depth (c :: t) = (closing? next t).map (· + 1) := by
  rw [closing?, h]

/-- A search that comes to an end stops at its first character, or goes on behind it. -/
theorem closing?_cons_eq_some_iff : closing? depth (c :: t) = some k ↔
    depthBehind? depth c = none ∧ k = 0 ∨
      ∃ next m, depthBehind? depth c = some next ∧ closing? next t = some m ∧ k = m + 1 := by
  cases h : depthBehind? depth c with
  | none => simp [closing?_cons_stop h, eq_comm]
  | some next =>
    rw [closing?_cons_next h, Option.map_eq_some_iff]
    constructor
    · rintro ⟨m, hm, rfl⟩
      exact Or.inr ⟨next, m, rfl, hm, rfl⟩
    · rintro (⟨hnone, -⟩ | ⟨next', m, hnext, hm, rfl⟩)
      · cases hnone
      · cases hnext
        exact ⟨m, hm, rfl⟩

/-- The lines that are counted are those in front of the place where the search stops. -/
theorem linesToClose_eq (t : Text) : ∀ depth,
    linesToClose depth t = (t.take ((closing? depth t).getD t.length)).count '\n' := by
  induction t with
  | nil => exact fun _ => rfl
  | cons c t ih =>
    intro depth
    rw [linesToClose_cons]
    cases h : depthBehind? depth c with
    | none =>
      rw [closing?_cons_stop h]
      rfl
    | some next =>
      have hstop : ((closing? next t).map (· + 1)).getD (t.length + 1) =
          (closing? next t).getD t.length + 1 := by
        cases closing? next t <;> rfl
      rw [closing?_cons_next h, List.length_cons, hstop, List.take_succ_cons, List.count_cons,
        Option.elim_some, ih next]
      simp only [beq_iff_eq]

/-- The search stops at a closing brace. -/
theorem getElem?_of_closing? (h : closing? depth t = some k) : t[k]? = some '}' := by
  induction t generalizing depth k with
  | nil => cases h
  | cons c t ih =>
    rcases closing?_cons_eq_some_iff.mp h with ⟨hstop, rfl⟩ | ⟨next, m, -, hm, rfl⟩
    · rw [List.getElem?_cons_zero, (depthBehind?_eq_none_iff.mp hstop).1]
    · rw [List.getElem?_cons_succ, ih hm]

/-- With fewer open blocks the search stops no later. -/
theorem closing?_mono {depth' : Nat} (hle : depth' ≤ depth) (h : closing? depth t = some k) :
    ∃ k' ≤ k, closing? depth' t = some k' := by
  induction t generalizing depth depth' k with
  | nil => cases h
  | cons c t ih =>
    cases h' : depthBehind? depth' c with
    | none => exact ⟨0, Nat.zero_le k, closing?_cons_stop h'⟩
    | some next' =>
      rcases closing?_cons_eq_some_iff.mp h with ⟨hstop, rfl⟩ | ⟨next, m, hnext, hm, rfl⟩
      · -- a brace that closes the last of many blocks closes the last of fewer
        obtain ⟨rfl, hdepth⟩ := depthBehind?_eq_none_iff.mp hstop
        rw [depthBehind?_eq_none_iff.mpr ⟨rfl, Nat.le_trans hle hdepth⟩] at h'
        cases h'
      · obtain ⟨m', hle', hm'⟩ := ih (depthBehind?_mono hle hnext h') hm
        refine ⟨m' + 1, Nat.succ_le_succ hle', ?_⟩
        rw [closing?_cons_next h', hm']
        rfl

/-- From any place on its way on, the search is one for the same brace, with some blocks open. -/
theorem closing?_drop {m : Nat} (hpos : 0 < depth) (h : closing? depth t = some k) (hm : m ≤ k) :
    ∃ depth' > 0, closing? depth' (t.drop m) = some (k - m) := by
  induction t generalizing depth k m with
  | nil => cases h
  | cons c t ih =>
    cases m with
    | zero => exact ⟨depth, hpos, h⟩
    | succ m =>
      rcases closing?_cons_eq_some_iff.mp h with ⟨-, rfl⟩ | ⟨next, n, hnext, hn, rfl⟩
      · exact absurd hm (Nat.not_succ_le_zero m)
      · rw [List.drop_succ_cons, Nat.add_sub_add_right]
        exact ih (depthBehind?_pos hpos hnext) hn (Nat.le_of_succ_le_succ hm)

end Search

/-! ## 3. Braces by their offsets -/

/-- The first brace that is opened at or behind the offset `o` stands at `i`. -/
structure OpensAt (code : Text) (o i : Nat) : Prop where
  le : o ≤ i
  brace : code[i]? = some '{'
  first : ∀ m, o ≤ m → m < i → code[m]? ≠ some '{'

instance (code : Text) (o i : Nat) : Decidable (OpensAt code o i) :=
  decidable_of_iff (o ≤ i ∧ code[i]? = some '{' ∧ ∀ m < i, o ≤ m → code[m]? ≠ some '{')
    ⟨fun h => ⟨h.1, h.2.1, fun m hle hlt => h.2.2 m hlt hle⟩,
      fun h => ⟨h.le, h.brace, fun m hlt hle => h.first m hle hlt⟩⟩

/-- The offset of the brace that closes the one at `i`. -/
def closingAt? (code : Text) (i : Nat) : Option Nat := (closing? 0 (code.drop i)).map (i + ·)

/-- Where the search for the brace that closes the one at `i` stops: at that brace, or at the end of
the text if there is none. -/
def stopOf (code : Text) (i : Nat) : Nat := (closingAt? code i).getD code.length

section Offsets

variable {code : Text} {o i j : Nat}

theorem OpensAt.unique {i' : Nat} (h : OpensAt code o i) (h' : OpensAt code o i') : i = i' := by
  rcases Nat.lt_trichotomy i i' with hlt | heq | hlt
  · exact absurd h.brace (h'.first i h.le hlt)
  · exact heq
  · exact absurd h'.brace (h.first i' h'.le hlt)

/-- Where a brace is opened behind an offset, a first one is. -/
theorem exists_opensAt {m : Nat} (hm : o ≤ m) (hbrace : code[m]? = some '{') :
    ∃ i ≤ m, OpensAt code o i := by
  induction hk : m - o using Nat.strongRecOn generalizing m with
  | ind k ih =>
    by_cases hfirst : ∃ m', o ≤ m' ∧ m' < m ∧ code[m']? = some '{'
    · obtain ⟨m', hle, hlt, hbrace'⟩ := hfirst
      obtain ⟨i, hi, hopens⟩ := ih (m' - o) (by omega) hle hbrace' rfl
      exact ⟨i, by omega, hopens⟩
    · exact ⟨m, Nat.le_refl m, hm, hbrace,
        fun m' hle hlt hbrace' => hfirst ⟨m', hle, hlt, hbrace'⟩⟩

theorem drop_eq_cons_of_brace (h : code[i]? = some '{') :
    code.drop i = '{' :: code.drop (i + 1) := by
  obtain ⟨hi, hbrace⟩ := List.getElem?_eq_some_iff.mp h
  rw [List.drop_eq_getElem_cons hi, hbrace]

/-- Behind an offset, the text is cut in front of the first brace that is opened there. -/
theorem OpensAt.cut (h : OpensAt code o i) :
    (code.drop o).takeWhile (· != '{') = (code.drop o).take (i - o) ∧
      (code.drop o).dropWhile (· != '{') = code.drop i := by
  have hsplit : code.drop o = (code.drop o).take (i - o) ++ code.drop i := by
    rw [show code.drop i = (code.drop o).drop (i - o) by
      rw [List.drop_drop, Nat.add_sub_cancel' h.le], List.take_append_drop]
  have hfront : ∀ c ∈ (code.drop o).take (i - o), (c != '{') = true := by
    intro c hc
    obtain ⟨m, hm, rfl⟩ := List.mem_iff_getElem.mp hc
    have hlt : m < i - o := Nat.lt_of_lt_of_le hm (List.length_take_le _ _)
    have hat := h.first (o + m) (Nat.le_add_right o m) (by omega)
    rw [bne_iff_ne]
    intro heq
    refine hat ?_
    rw [← List.getElem?_drop, ← List.getElem?_take_of_lt hlt, List.getElem?_eq_getElem hm, heq]
  have hi : i < code.length := (List.getElem?_eq_some_iff.mp h.brace).1
  have hhead := drop_eq_cons_of_brace h.brace
  constructor
  · rw [hsplit, List.takeWhile_append_of_pos hfront, hhead,
      List.takeWhile_cons_of_neg (by decide), List.append_nil, List.take_left']
    rw [List.length_take, List.length_drop]
    omega
  · rw [hsplit, List.dropWhile_append_of_pos hfront, hhead, List.dropWhile_cons_of_neg (by decide)]

/-- Where no brace is opened behind an offset, none is found there. -/
theorem dropWhile_eq_nil (h : ∀ i, ¬ OpensAt code o i) :
    (code.drop o).dropWhile (· != '{') = [] := by
  rw [List.dropWhile_eq_nil_iff]
  intro c hc
  obtain ⟨m, hm, rfl⟩ := List.mem_iff_getElem.mp hc
  rw [bne_iff_ne]
  intro heq
  have hbrace : code[o + m]? = some '{' := by
    rw [← List.getElem?_drop, List.getElem?_eq_getElem hm, heq]
  obtain ⟨i, -, hopens⟩ := exists_opensAt (Nat.le_add_right o m) hbrace
  exact h i hopens

/-- Behind its brace, one block is open. -/
theorem closingAt?_of_brace (h : code[i]? = some '{') :
    closingAt? code i = (closing? 1 (code.drop (i + 1))).map (i + 1 + ·) := by
  have hopen : depthBehind? 0 '{' = some 1 := rfl
  rw [closingAt?, drop_eq_cons_of_brace h, closing?_cons_next hopen, Option.map_map]
  congr 1
  funext m
  simp only [Function.comp_apply]
  omega

theorem getElem?_of_closingAt? (h : closingAt? code i = some j) : code[j]? = some '}' := by
  obtain ⟨m, hm, rfl⟩ := Option.map_eq_some_iff.mp h
  rw [← List.getElem?_drop, getElem?_of_closing? hm]

/-- **A block that is opened inside of another one is closed no later.**  The search of the outer
one passes through the inner one, with a depth that is greater by what it has counted before, so it
cannot come to its end before the inner one has. -/
theorem closingAt?_nested {i' : Nat} (hbrace : code[i]? = some '{')
    (hclose : closingAt? code i = some j) (hle : i ≤ i') (hlt : i' < j)
    (hbrace' : code[i']? = some '{') : ∃ j' ≤ j, closingAt? code i' = some j' := by
  rcases Nat.eq_or_lt_of_le hle with rfl | hlt'
  · exact ⟨j, Nat.le_refl j, hclose⟩
  · rw [closingAt?_of_brace hbrace] at hclose
    obtain ⟨k, hk, rfl⟩ := Option.map_eq_some_iff.mp hclose
    -- the search of the outer block has come to the brace of the inner one
    obtain ⟨depth, hpos, hdepth⟩ := closing?_drop (m := i' - (i + 1)) Nat.one_pos hk (by omega)
    have hrest : (code.drop (i + 1)).drop (i' - (i + 1)) = '{' :: code.drop (i' + 1) := by
      rw [List.drop_drop, Nat.add_sub_cancel' hlt', drop_eq_cons_of_brace hbrace']
    rw [hrest] at hdepth
    obtain ⟨k', hle', hk'⟩ := closing?_mono (Nat.zero_le depth) hdepth
    refine ⟨i' + k', by omega, ?_⟩
    rw [closingAt?, drop_eq_cons_of_brace hbrace', hk']
    rfl

theorem stopOf_of_closed (h : closingAt? code i = some j) : stopOf code i = j := by
  rw [stopOf, h]
  rfl

theorem stopOf_of_unclosed (h : closingAt? code i = none) : stopOf code i = code.length := by
  rw [stopOf, h]
  rfl

theorem stopOf_eq (hi : i ≤ code.length) :
    stopOf code i = i + (closing? 0 (code.drop i)).getD (code.drop i).length := by
  rw [stopOf, closingAt?, List.length_drop]
  cases closing? 0 (code.drop i) with
  | none => exact (Nat.add_sub_cancel' hi).symm
  | some m => rfl

theorem stopOf_le (code : Text) (i : Nat) : stopOf code i ≤ code.length := by
  cases h : closingAt? code i with
  | none => exact Nat.le_of_eq (stopOf_of_unclosed h)
  | some j =>
    rw [stopOf_of_closed h]
    exact Nat.le_of_lt (List.getElem?_eq_some_iff.mp (getElem?_of_closingAt? h)).1

theorem OpensAt.le_stopOf (h : OpensAt code o i) : i ≤ stopOf code i := by
  rw [stopOf_eq (Nat.le_of_lt (List.getElem?_eq_some_iff.mp h.brace).1)]
  exact Nat.le_add_right _ _

/-- **A block goes on for as many lines** as there are newlines in front of its stop: those in front
of the first brace and those that the search passes. -/
theorem linesBelow_of_opensAt (h : OpensAt code o i) :
    linesBelow (code.drop o) = ((code.drop o).take (stopOf code i - o)).count '\n' := by
  have hi : i < code.length := (List.getElem?_eq_some_iff.mp h.brace).1
  have hbody : (code.drop i).isEmpty = false := by
    rw [drop_eq_cons_of_brace h.brace]
    rfl
  have hstop := stopOf_eq (Nat.le_of_lt hi)
  have htake : (code.drop o).take (stopOf code i - o) =
      (code.drop o).take (i - o) ++ (code.drop i).take (stopOf code i - i) := by
    have hle := h.le
    have hlength : stopOf code i - o = (i - o) + (stopOf code i - i) := by
      have := h.le_stopOf
      omega
    rw [hlength, List.take_add, List.drop_drop, Nat.add_sub_cancel' hle]
  rw [linesBelow]
  simp only [h.cut.1, h.cut.2, hbody, Bool.false_eq_true, if_false]
  rw [htake, List.count_append, linesToClose_eq, hstop, Nat.add_sub_cancel_left]

theorem linesBelow_of_not_opensAt (h : ∀ i, ¬ OpensAt code o i) : linesBelow (code.drop o) = 0 := by
  rw [linesBelow]
  simp only [dropWhile_eq_nil h]
  rfl

end Offsets

/-! ## 4. The last line of a block -/

/-- A heading has the word of its form for a name, or a word of the line, and the name stands on the
line where the heading says. -/
theorem headingOf?_split {form : Form} {code : Text} {h : Heading}
    (hh : headingOf? code form = some h) :
    h.form = form ∧ (h.name = form.word ∨ ∃ r, h.name = Text.leadingWord r) ∧
      ∃ u v, code = u ++ (h.name ++ v) ∧ u.length = h.column := by
  obtain ⟨rest, hstart, hrest⟩ := Option.bind_eq_some_iff.mp hh
  have hbody : Text.trimLeft code = form.word ++ rest := Text.afterStart?_eq_some_iff.mp hstart
  have hsplit (s : Text) (hs : s <:+ code) :
      code = code.take (code.length - s.length) ++ s ∧
        (code.take (code.length - s.length)).length = code.length - s.length := by
    obtain ⟨u, rfl⟩ := hs
    rw [List.length_append, Nat.add_sub_cancel, List.take_left]
    exact ⟨rfl, rfl⟩
  have htrim : Text.trimLeft code <:+ code := List.dropWhile_suffix _
  split at hrest
  · dsimp only at hrest
    split at hrest
    · rw [← Option.some.inj hrest]
      have hname : Text.trimLeft rest <:+ code :=
        (List.dropWhile_suffix _).trans ((hbody ▸ List.suffix_append _ _).trans htrim)
      obtain ⟨hcode, hlength⟩ := hsplit _ hname
      refine ⟨rfl, Or.inr ⟨_, rfl⟩, _, (Text.trimLeft rest).dropWhile Text.isWord, ?_, hlength⟩
      rw [Text.leadingWord, List.takeWhile_append_dropWhile]
      exact hcode
    · cases hrest
  · split at hrest
    · cases hrest
    · rw [← Option.some.inj hrest]
      obtain ⟨hcode, hlength⟩ := hsplit _ htrim
      exact ⟨rfl, Or.inl rfl, _, rest, by rw [← hbody]; exact hcode, hlength⟩

/-- The offset at which the name of a block starts. -/
def Block.nameAt (d : Document) (b : Block) : Nat := d.lineStart b.line + b.heading.column

/-- What it means that a line declares a block. -/
structure Block.Declared (d : Document) (forms : List Form) (b : Block) : Prop where
  heading : ∃ code, d.codeLines[b.line]? = some code ∧ heading? forms code = some b.heading
  linesBelow : b.linesBelow = Outline.linesBelow (d.code.drop (b.nameAt d))

section Blocks

variable {t : Text} {forms : List Form} {n i : Nat} {b : Block}

theorem declared_of_blockAt? {d : Document} (h : blockAt? d forms n = some b) :
    b.line = n ∧ b.Declared d forms := by
  obtain ⟨code, hcode, hh⟩ := Option.bind_eq_some_iff.mp h
  obtain ⟨heading, hheading, rfl⟩ := Option.map_eq_some_iff.mp hh
  exact ⟨rfl, ⟨code, hcode, hheading⟩, rfl⟩

namespace Block.Declared

theorem line_lt (h : b.Declared (.ofText t) forms) : b.line < (Document.ofText t).lineCount := by
  obtain ⟨code, hcode, -⟩ := h.heading
  rw [← Document.length_codeLines]
  exact (List.getElem?_eq_some_iff.mp hcode).1

/-- The name stands on its line. -/
theorem column_add_le (h : b.Declared (.ofText t) forms) :
    b.heading.column + b.heading.name.length ≤ (Document.ofText t).lineLength b.line := by
  obtain ⟨code, hcode, hheading⟩ := h.heading
  obtain ⟨form, -, hheading⟩ := List.exists_of_findSome?_eq_some hheading
  obtain ⟨-, -, u, v, rfl, hlength⟩ := headingOf?_split hheading
  obtain ⟨l, hl, hhides⟩ := Document.exists_line_of_codeLines hcode
  have hline : (Document.ofText t).lineLength b.line = l.length :=
    Document.lineLength_of_getElem? hl
  rw [hline, hhides.length_eq, List.length_append, List.length_append, hlength]
  omega

theorem count_take_nameAt (h : b.Declared (.ofText t) forms) :
    ((masked t).take (b.nameAt (.ofText t))).count '\n' = b.line :=
  Document.count_take_lineStart_add h.line_lt
    (Nat.le_trans (Nat.le_add_right _ _) h.column_add_le)

/-- **The last line of a block** is the line on which the search for its closing brace stops.  The
search counts newlines from the name on, so its count and the line of the name make the line of the
stop. -/
theorem endLine_of_opensAt (h : b.Declared (.ofText t) forms)
    (hopens : OpensAt (masked t) (b.nameAt (.ofText t)) i) :
    b.endLine = ((Document.ofText t).positionAt (stopOf (masked t) i)).line := by
  have hstop : stopOf (masked t) i =
      b.nameAt (.ofText t) + (stopOf (masked t) i - b.nameAt (.ofText t)) :=
    (Nat.add_sub_cancel' (Nat.le_trans hopens.le hopens.le_stopOf)).symm
  have hbelow : b.linesBelow = (((masked t).drop (b.nameAt (.ofText t))).take
      (stopOf (masked t) i - b.nameAt (.ofText t))).count '\n' :=
    h.linesBelow.trans (linesBelow_of_opensAt hopens)
  rw [Document.line_positionAt_eq_count (stopOf_le _ _), hstop, List.take_add, List.count_append,
    h.count_take_nameAt, ← hbelow]
  rfl

/-- **A block without a brace behind its name** is its line alone: no newline is counted where no
brace is found. -/
theorem endLine_of_not_opensAt (h : b.Declared (.ofText t) forms)
    (hopens : ∀ i, ¬ OpensAt (masked t) (b.nameAt (.ofText t)) i) : b.endLine = b.line := by
  have hbelow : b.linesBelow = 0 := h.linesBelow.trans (linesBelow_of_not_opensAt hopens)
  rw [Block.endLine, hbelow, Nat.add_zero]

/-- The last line of a block is one of the text. -/
theorem endLine_lt (h : b.Declared (.ofText t) forms) :
    b.endLine < (Document.ofText t).lineCount := by
  by_cases hopens : ∃ i, OpensAt (masked t) (b.nameAt (.ofText t)) i
  · obtain ⟨i, hi⟩ := hopens
    rw [h.endLine_of_opensAt hi]
    exact Document.line_positionAt_lt t _
  · rw [h.endLine_of_not_opensAt fun i hi => hopens ⟨i, hi⟩]
    exact h.line_lt

end Block.Declared
end Blocks
end Outline
end HypnoScript
