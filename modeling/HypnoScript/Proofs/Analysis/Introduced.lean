/-
# The word in front of a declared name

A declared name stands behind a word, with blanks and nothing else between the two
(`Text.NameBehind`).  When there are keywords, and each of them could be a name, the word is a
keyword.  When there are none, the search takes the empty text for a keyword, and what it declares
is every name that stands behind any word at all (`mem_sites_noKeywords_iff`): a chain of empty
keywords is a run of blanks, and it starts at a word boundary.

So that names are declared behind keywords alone is true of a text just when there are keywords, or
when no name of the text stands behind a word (`declared_behind_keywords`).
-/
import HypnoScript.Proofs.Analysis.UnusedNames

namespace HypnoScript

open Text (isBlank isWord startsName headIsWord lastIsWord placed IsRun IsIdentifier StandsWhole)

/-! ## 1. Names behind words -/

namespace Text

/-- A name stands in the text at the offset, behind a word, with blanks and nothing else between
them.  Both are as long as they can be. -/
def NameBehind (t word name : Text) (offset : Nat) : Prop :=
  ∃ before gap behind, t = before ++ (word ++ (gap ++ (name ++ behind))) ∧
    offset = before.length + word.length + gap.length ∧ IsRun word ∧ IsIdentifier name ∧
    lastIsWord false before = false ∧ gap ≠ [] ∧ (∀ c ∈ gap, isBlank c = true) ∧
    headIsWord behind = false

/-- A name stands behind a word just when the two are neighbours among the tokens. -/
theorem nameBehind_iff {t word name : Text} {offset : Nat} :
    NameBehind t word name offset ↔ name.head?.any startsName = true ∧
      ∃ us i vs, placed 0 t = us ++ (.word word, i) :: (.word name, offset) :: vs := by
  constructor
  · rintro ⟨before, gap, behind, rfl, rfl, hword, hname, hwhole, hne, hblank, hends⟩
    exact ⟨hname.starts, _, _, _, placed_eq_append_cons_cons_iff.mpr ⟨hword, hname.isRun, before,
      gap, behind, rfl, rfl, by omega, hwhole, hne, hblank, hends, rfl, rfl⟩⟩
  · rintro ⟨hstarts, us, i, vs, hplaced⟩
    obtain ⟨hword, hname, before, gap, behind, rfl, hi, hoffset, hwhole, hne, hblank, hends, -⟩ :=
      placed_eq_append_cons_cons_iff.mp hplaced
    exact ⟨before, gap, behind, rfl, by omega, hword, isIdentifier_of_isRun hname hstarts, hwhole,
      hne, hblank, hends⟩

end Text

open Text (NameBehind NameFollows)

namespace Declaration

variable {α : Type}

/-! ## 2. Names behind words among the tokens -/

/-- The names among some tokens that stand behind a word; `behind` tells whether a word stands in
front of the first token. -/
def namesBehind : Bool → List (Token × α) → List (Text × α)
  | _, [] => []
  | _, (.sign _, _) :: ts => namesBehind false ts
  | behind, (.word w, a) :: ts =>
    (if behind && w.head?.any startsName then [(w, a)] else []) ++ namesBehind true ts

theorem namesBehind_of_not_startsWithName {ts : List (Token × α)}
    (h : startsWithName ts = false) : namesBehind true ts = namesBehind false ts := by
  cases ts with
  | nil => rfl
  | cons p ts =>
    obtain ⟨token, a⟩ := p
    cases token with
    | sign c => rfl
    | word w =>
      have hw : w.head?.any startsName = false := h
      rw [namesBehind, namesBehind, hw]
      rfl

/-- A name is found just when a word is its neighbour, or stands in front of all the tokens. -/
theorem mem_namesBehind_iff {ts : List (Token × α)} {n : Text} {a : α} : ∀ {behind : Bool},
    (n, a) ∈ namesBehind behind ts ↔ n.head?.any startsName = true ∧
      ((behind = true ∧ ∃ vs, ts = (.word n, a) :: vs) ∨
        ∃ us k i vs, ts = us ++ (.word k, i) :: (.word n, a) :: vs) := by
  induction ts with
  | nil =>
    intro behind
    simp [namesBehind]
  | cons p ts ih =>
    intro behind
    obtain ⟨token, b⟩ := p
    cases token with
    | sign c =>
      rw [namesBehind, ih]
      refine and_congr_right fun _ => ?_
      constructor
      · rintro (⟨hfalse, -⟩ | ⟨us, k, i, vs, rfl⟩)
        · cases hfalse
        · exact Or.inr ⟨(.sign c, b) :: us, k, i, vs, rfl⟩
      · rintro (⟨-, vs, hts⟩ | ⟨us, k, i, vs, hts⟩)
        · cases hts
        · cases us with
          | nil => cases hts
          | cons u us =>
            cases hts
            exact Or.inr ⟨us, k, i, vs, rfl⟩
    | word w =>
      rw [namesBehind, List.mem_append, ih]
      constructor
      · rintro (h | ⟨hstarts, ⟨-, vs, rfl⟩ | ⟨us, k, i, vs, rfl⟩⟩)
        · split at h
          · rename_i hw
            rw [Bool.and_eq_true] at hw
            cases List.mem_singleton.mp h
            exact ⟨hw.2, Or.inl ⟨hw.1, ts, rfl⟩⟩
          · cases h
        · exact ⟨hstarts, Or.inr ⟨[], w, b, vs, rfl⟩⟩
        · exact ⟨hstarts, Or.inr ⟨(.word w, b) :: us, k, i, vs, rfl⟩⟩
      · rintro ⟨hstarts, ⟨hbehind, vs, hts⟩ | ⟨us, k, i, vs, hts⟩⟩
        · cases hts
          rw [hbehind, hstarts, Bool.and_self, if_pos rfl]
          exact Or.inl List.mem_cons_self
        · refine Or.inr ⟨hstarts, ?_⟩
          cases us with
          | nil =>
            cases hts
            exact Or.inl ⟨rfl, vs, rfl⟩
          | cons u us =>
            cases hts
            exact Or.inr ⟨us, k, i, vs, rfl⟩

/-! ## 3. The search without keywords -/

/-- However many blanks are left out, behind the others comes the same text. -/
theorem trimLeft_of_mem_afterBlanks {t r : Text} (h : r ∈ afterBlanks t) :
    r.trimLeft = t.trimLeft := by
  fun_induction afterBlanks t with
  | case1 => cases h
  | case2 c cs hc ih =>
    have htrim : Text.trimLeft (c :: cs) = Text.trimLeft cs := by simp [Text.trimLeft, hc]
    rw [htrim]
    rcases List.mem_append.mp h with h | h
    · exact ih h
    · rw [List.mem_singleton.mp h]
  | case3 => cases h

/-- A search that finds the same behind any number of blanks. -/
theorem findSome?_afterBlanks_of_forall {β : Type} {f : Text → Option β} {x : Option β} {t : Text}
    (h : ∀ r ∈ afterBlanks t, f r = x) :
    (afterBlanks t).findSome? f = if headIsBlank t then x else none := by
  cases t with
  | nil => rfl
  | cons c cs =>
    have hhead : headIsBlank (c :: cs) = isBlank c := rfl
    rw [hhead]
    rw [afterBlanks] at h ⊢
    split
    · rename_i hc
      rw [if_pos hc] at h
      cases x with
      | none => exact List.findSome?_eq_none_iff.mpr h
      | some y =>
        have hlast : f cs = some y := h cs (List.mem_append_right _ List.mem_cons_self)
        rw [List.findSome?_append, List.findSome?_singleton, hlast]
        cases hfind : (afterBlanks cs).findSome? f with
        | none => rfl
        | some z =>
          obtain ⟨r, hr, hz⟩ := List.exists_of_findSome?_eq_some hfind
          rw [h r (List.mem_append_left _ hr)] at hz
          rw [← hz]
          rfl
    · rfl

/-- The text behind its blanks, when it starts with a name. -/
def nameBehindBlanks (t : Text) : Option Text :=
  if t.trimLeft.head?.any startsName then some t.trimLeft else none

theorem afterKeyword_noKeywords (t : Text) : afterKeyword [[]] t = afterBlanks t := by
  rw [afterKeyword, List.flatMap_cons, List.flatMap_nil, List.append_nil]
  rfl

/-- A chain of empty keywords is a run of blanks. -/
theorem nameAfter_noKeywords (t : Text) : nameAfter [[]] t = nameBehindBlanks t := by
  induction hn : t.length using Nat.strongRecOn generalizing t with
  | ind n ih =>
    subst hn
    have hrest : ∀ r ∈ afterBlanks t, nameAfter [[]] r = nameBehindBlanks t := by
      intro r hr
      rw [ih _ (length_lt_of_mem_afterBlanks hr) r rfl, nameBehindBlanks,
        trimLeft_of_mem_afterBlanks hr, ← nameBehindBlanks]
    rw [nameAfter_eq, declaredAt, afterKeyword_noKeywords, findSome?_afterBlanks_of_forall hrest]
    cases hb : headIsBlank t with
    | true =>
      rw [if_pos rfl, Text.startsName_of_not_word (not_headIsWord_of_headIsBlank hb),
        if_neg Bool.false_ne_true, Option.or_none]
    | false =>
      rw [if_neg Bool.false_ne_true, Option.none_or, nameBehindBlanks,
        trimLeft_of_not_headIsBlank hb]

theorem declaredAt_noKeywords (t : Text) :
    declaredAt [[]] t = if headIsBlank t then nameBehindBlanks t else none := by
  rw [declaredAt, afterKeyword_noKeywords]
  refine findSome?_afterBlanks_of_forall fun r hr => ?_
  rw [nameAfter_noKeywords, nameBehindBlanks, trimLeft_of_mem_afterBlanks hr, ← nameBehindBlanks]

theorem startsWithName_placed {t : Text} (hb : headIsBlank t = false) (o : Nat) :
    startsWithName (placed o t) = t.head?.any startsName := by
  cases hw : headIsWord t with
  | true =>
    obtain ⟨u, s, rfl, hu, hs⟩ := Text.exists_word hw
    obtain ⟨c, u, rfl⟩ := List.exists_cons_of_ne_nil hu.1
    rw [Text.placed_word_append hu hs]
    rfl
  | false =>
    rw [Text.startsName_of_not_word hw]
    cases t with
    | nil => rfl
    | cons c t =>
      rw [Text.placed_sign_cons hw hb]
      rfl

/-- Behind the blanks that a text starts with, a name is found, or there is none. -/
theorem declaredAt_noKeywords_cases {t : Text} (hb : headIsBlank t = true) (o : Nat) :
    (∃ g u s, t = g ++ (u ++ s) ∧ declaredAt [[]] t = some (u ++ s) ∧ IsRun u ∧
        headIsWord s = false ∧ u.head?.any startsName = true ∧
        placed o t = (.word u, o + g.length) :: placed (o + g.length + u.length) s) ∨
      declaredAt [[]] t = none ∧ startsWithName (placed o t) = false := by
  obtain ⟨g, hg, hplaced⟩ := placed_trimLeft (s := t) o
  have hname := startsWithName_placed (headIsBlank_trimLeft t) (o + g.length)
  have hdeclared := declaredAt_noKeywords t
  rw [hb, if_pos rfl, nameBehindBlanks] at hdeclared
  generalize Text.trimLeft t = r at hg hplaced hname hdeclared
  cases hr : r.head?.any startsName with
  | true =>
    have hword : headIsWord r = true := by
      rw [← Bool.not_eq_false]
      intro hno
      rw [Text.startsName_of_not_word hno] at hr
      cases hr
    obtain ⟨u, s, rfl, hu, hs⟩ := Text.exists_word hword
    rw [hr, if_pos rfl] at hdeclared
    rw [Text.placed_word_append hu hs] at hplaced hname
    exact Or.inl ⟨g, u, s, hg, hdeclared, hu, hs, hname.trans hr, hplaced⟩
  | false =>
    rw [hr, if_neg Bool.false_ne_true] at hdeclared
    rw [hplaced]
    exact Or.inr ⟨hdeclared, hname.trans hr⟩

/-- **Without keywords, the names that are declared are those behind words.**  The empty keyword
stands at every word boundary.  At the start of a word the blanks that have to follow are missing;
at its end they are what stands between it and the next word, and a name is declared if that one can
be a name.  The induction is on the length of the text, as the search goes on behind the name. -/
theorem sitesFrom_noKeywords (t : Text) : ∀ (o : Nat) (before : Bool),
    before = false ∨ headIsWord t = false →
    sitesFrom [[]] o 0 before t = namesBehind before (placed o t) := by
  induction hn : t.length using Nat.strongRecOn generalizing t with
  | ind n ih =>
    subst hn
    intro o before hbefore
    cases hw : headIsWord t with
    | true =>
      obtain rfl : before = false := hbefore.resolve_right (by simp [hw])
      have hnone : declaredAt [[]] t = none := by
        rw [declaredAt_noKeywords, if_neg]
        intro hb
        rw [not_headIsWord_of_headIsBlank hb] at hw
        cases hw
      obtain ⟨u, s, rfl, hu, hs⟩ := Text.exists_word hw
      have hlt : s.length < (u ++ s).length := by
        have := List.length_pos_iff.mpr hu.1
        rw [List.length_append]
        omega
      rw [sitesFrom_word hu hnone, ih _ hlt s rfl _ true (Or.inr hs),
        Text.placed_word_append hu hs]
      rfl
    | false =>
      cases t with
      | nil => rfl
      | cons c cs =>
        have hc : isWord c = false := hw
        have hboundary : Text.atBoundary before (c :: cs) = before := by
          rw [Text.atBoundary, hw]
          cases before <;> rfl
        have hpassed (h : Text.atBoundary before (c :: cs) = true →
            declaredAt [[]] (c :: cs) = none) :
            sitesFrom [[]] o 0 before (c :: cs) = namesBehind false (placed (o + 1) cs) := by
          rw [sitesFrom_passed h, hc]
          exact ih cs.length (Nat.lt_succ_self _) cs rfl (o + 1) false (Or.inl rfl)
        cases hb : isBlank c with
        | false =>
          rw [Text.placed_sign_cons hc hb]
          refine hpassed fun _ => ?_
          rw [declaredAt_noKeywords]
          exact if_neg (Bool.eq_false_iff.mp hb)
        | true =>
          cases before with
          | false =>
            rw [Text.placed_blank_cons hb]
            exact hpassed fun h => absurd (hboundary.symm.trans h) Bool.false_ne_true
          | true =>
            have hblank : headIsBlank (c :: cs) = true := hb
            rcases declaredAt_noKeywords_cases hblank o with
              ⟨g, u, s, hg, hfound, hu, hs, hstarts, hplaced⟩ | ⟨hnone, hname⟩
            · have hlt : s.length < (c :: cs).length := by
                have := List.length_pos_iff.mpr hu.1
                rw [hg, List.length_append, List.length_append]
                omega
              rw [sitesFrom_found hboundary hg hfound hu hs, ih _ hlt s rfl _ true (Or.inr hs),
                hplaced, namesBehind, hstarts]
              rfl
            · rw [namesBehind_of_not_startsWithName hname, Text.placed_blank_cons hb]
              exact hpassed fun _ => hnone

/-! ## 4. What a declared name stands behind -/

variable {dialect : Dialect} {code name : Text} {offset : Nat}

theorem mem_sites_noKeywords_iff (hnone : dialect.declarationKeywords = []) :
    (name, offset) ∈ sites dialect code ↔ ∃ word, NameBehind code word name offset := by
  have htried : tried dialect.declarationKeywords = [[]] := by rw [hnone]; rfl
  rw [sites, htried, sitesFrom_noKeywords code 0 false (Or.inl rfl), mem_namesBehind_iff]
  constructor
  · rintro ⟨hstarts, ⟨hfalse, -⟩ | ⟨us, k, i, vs, hplaced⟩⟩
    · cases hfalse
    · exact ⟨k, Text.nameBehind_iff.mpr ⟨hstarts, us, i, vs, hplaced⟩⟩
  · rintro ⟨word, h⟩
    obtain ⟨hstarts, us, i, vs, hplaced⟩ := Text.nameBehind_iff.mp h
    exact ⟨hstarts, Or.inr ⟨us, word, i, vs, hplaced⟩⟩

/-- With keywords, a declared name stands behind one of them. -/
theorem exists_keyword_of_mem_sites (hne : dialect.declarationKeywords ≠ [])
    (hk : ∀ k ∈ dialect.declarationKeywords, IsIdentifier k)
    (h : (name, offset) ∈ sites dialect code) :
    ∃ k ∈ dialect.declarationKeywords, NameBehind code k name offset := by
  obtain ⟨before, k, gap, behind, hcode, hoffset, hd⟩ := (mem_sites_iff hne hk).mp h
  exact ⟨k, hd.declares, before, gap, behind, hcode, hoffset, (hk k hd.declares).isRun,
    hd.isIdentifier, hd.whole, hd.gap_ne_nil, hd.blank, hd.ends⟩

/-- There are hints about unused variables just when a variable stands nowhere but where it is
declared. -/
theorem exists_unusedVariable_iff {w : Wording} {t : Text} :
    (∃ g ∈ analyze dialect w t, g.rule = some .unusedVariable) ↔
      ∃ v ∈ «variables» dialect (masked t), v.OnlyDeclared (masked t) := by
  constructor
  · rintro ⟨g, hg, hrule⟩
    obtain ⟨v, hv, hused, -⟩ := mem_check_iff.mp (mem_analyze_iff.mp ⟨hg, hrule⟩).1
    exact ⟨v, hv, (used_eq_false_iff hv).mp hused⟩
  · rintro ⟨v, hv, honly⟩
    obtain ⟨o, ho⟩ := exists_mem_sites hv
    have hhint : hintAt w (.ofText t) v.name o ∈ check dialect w (.ofText t) := mem_check_iff.mpr
      ⟨v, hv, (used_eq_false_iff hv).mpr honly, o, (mem_declarations_iff hv).mpr ho, rfl⟩
    exact ⟨_, mem_analyze_iff.mpr ⟨hhint, rfl⟩⟩

/-- Without keywords, there are such hints just when a name stands behind words and nowhere else. -/
theorem exists_unusedVariable_noKeywords_iff (hnone : dialect.declarationKeywords = [])
    {w : Wording} {t : Text} :
    (∃ g ∈ analyze dialect w t, g.rule = some .unusedVariable) ↔
      ∃ word name o, NameBehind (masked t) word name o ∧
        ∀ n, StandsWhole 0 (masked t) name n → ∃ word', NameBehind (masked t) word' name n := by
  rw [exists_unusedVariable_iff]
  constructor
  · rintro ⟨v, hv, honly⟩
    obtain ⟨o, ho⟩ := exists_mem_sites hv
    obtain ⟨word, hword⟩ := (mem_sites_noKeywords_iff hnone).mp ho
    exact ⟨word, v.name, o, hword, fun n hn => (mem_sites_noKeywords_iff hnone).mp
      ((mem_declarations_iff hv).mp (honly n hn))⟩
  · rintro ⟨word, name, o, hword, honly⟩
    obtain ⟨v, hv, rfl, -⟩ := mem_variables_iff.mpr
      ((mem_sites_noKeywords_iff hnone).mpr ⟨word, hword⟩)
    exact ⟨v, hv, fun n hn => (mem_declarations_iff hv).mpr
      ((mem_sites_noKeywords_iff hnone).mpr (honly n hn))⟩

/-- **Names are declared behind keywords alone just when there are keywords, or no name stands
behind a word.**  Without keywords every name is declared that stands behind a word, and there are
hints about those that stand nowhere else.

No keyword is not a keyword that stands nowhere: the search then looks for the empty text, and finds
it. -/
theorem declared_behind_keywords (hk : ∀ k ∈ dialect.declarationKeywords, IsIdentifier k)
    (code : Text) (w : Wording) (t : Text) :
    ((∀ v ∈ «variables» dialect code, ∀ o ∈ v.declarations,
        ∃ k ∈ dialect.declarationKeywords, NameBehind code k v.name o) ↔
      dialect.declarationKeywords ≠ [] ∨ ∀ word name o, ¬ NameBehind code word name o) ∧
    (dialect.declarationKeywords = [] →
      (∀ name o, (∃ v ∈ «variables» dialect code, v.name = name ∧ o ∈ v.declarations) ↔
        ∃ word, NameBehind code word name o) ∧
      ((∃ g ∈ analyze dialect w t, g.rule = some .unusedVariable) ↔
        ∃ word name o, NameBehind (masked t) word name o ∧
          ∀ n, StandsWhole 0 (masked t) name n →
            ∃ word', NameBehind (masked t) word' name n)) := by
  refine ⟨⟨fun h => ?_, fun h v hv o ho => ?_⟩, fun hnone => ⟨fun name o => ?_, ?_⟩⟩
  · by_cases hnone : dialect.declarationKeywords = []
    · refine Or.inr fun word name o hword => ?_
      obtain ⟨v, hv, -, ho⟩ := mem_variables_iff.mpr
        ((mem_sites_noKeywords_iff hnone).mpr ⟨word, hword⟩)
      obtain ⟨k, hmem, -⟩ := h v hv o ho
      rw [hnone] at hmem
      cases hmem
    · exact Or.inl hnone
  · have hsite := (mem_declarations_iff hv).mp ho
    by_cases hnone : dialect.declarationKeywords = []
    · obtain ⟨word, hword⟩ := (mem_sites_noKeywords_iff hnone).mp hsite
      exact absurd hword (h.resolve_left (fun hne => hne hnone) word _ o)
    · exact exists_keyword_of_mem_sites hnone hk hsite
  · rw [mem_variables_iff, mem_sites_noKeywords_iff hnone]
  · exact exists_unusedVariable_noKeywords_iff hnone

/-- Keywords of which one starts with another, and one is there twice. -/
theorem declared_behind_keywords_sharing :
    ∃ dialect : Dialect,
      dialect.declarationKeywords = ["in".toList, "induce".toList, "in".toList] ∧
      (∀ k ∈ dialect.declarationKeywords, IsIdentifier k) ∧
      (∃ v ∈ «variables» dialect "induce in x".toList, v.name = "x".toList ∧
        10 ∈ v.declarations) ∧
      ∀ v ∈ «variables» dialect "induce in x".toList, ∀ o ∈ v.declarations,
        ∃ k ∈ dialect.declarationKeywords, NameBehind "induce in x".toList k v.name o := by
  have hk : ∀ k ∈ ["in".toList, "induce".toList, "in".toList], IsIdentifier k := by decide
  refine ⟨{ declarationKeywords := ["in".toList, "induce".toList, "in".toList] }, rfl, hk, ?_,
    (declared_behind_keywords hk "induce in x".toList .standard []).1.mpr
      (Or.inl (List.cons_ne_nil _ _))⟩
  rw [mem_variables_iff, mem_sites_iff (List.cons_ne_nil _ _) hk]
  have hlast : ¬ NameFollows [] := by
    rw [← startsWithName_placed_iff 0]
    decide
  refine ⟨"induce ".toList, "in".toList, [' '], [], rfl, rfl, ?_⟩
  exact
    { declares := by decide
      whole := rfl
      gap_ne_nil := by decide
      blank := List.forall_iff_forall_mem.mp (by decide)
      isIdentifier := by decide
      ends := rfl
      last := fun h => hlast h.2 }

/-- Without keywords, the second of two words is declared, and there is a hint about it. -/
theorem declared_behind_no_keyword :
    ∃ dialect : Dialect, dialect.declarationKeywords = [] ∧
      (∃ v ∈ «variables» dialect "a b".toList, v.name = "b".toList ∧ 2 ∈ v.declarations) ∧
      ∃ g ∈ analyze dialect .standard "a b".toList, g.rule = some .unusedVariable := by
  have hb : NameBehind "a b".toList "a".toList "b".toList 2 :=
    ⟨[], [' '], [], rfl, rfl, by decide, by decide, rfl, by decide,
      List.forall_iff_forall_mem.mp (by decide), rfl⟩
  have hmasked : masked "a b".toList = "a b".toList := by decide +kernel
  refine ⟨{ declarationKeywords := [] }, rfl, ?_, ?_⟩
  · rw [mem_variables_iff, mem_sites_noKeywords_iff rfl]
    exact ⟨_, hb⟩
  · rw [exists_unusedVariable_noKeywords_iff rfl, hmasked]
    refine ⟨_, _, 2, hb, fun n hn => ?_⟩
    have hoffsets : Text.wordOffsets "b".toList "a b".toList = [2] := by decide
    rw [← Text.mem_wordOffsets_iff (by decide), hoffsets, List.mem_singleton] at hn
    rw [hn]
    exact ⟨_, hb⟩

end Declaration
end HypnoScript
