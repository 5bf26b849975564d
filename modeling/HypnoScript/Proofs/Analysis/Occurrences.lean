/-
# What a search finds stands there

Whatever words a dialect has, blank ones and empty ones among them, an offset that a check finds in
the code is one at which the thing stands that it looks for: the word (`standsAt_wordOffsets`), a
bracket (`bracket_of_mem_faults`), the declared name (`standsAt_sites`).  A declared name even
stands there as a whole word (`exists_of_mem_sites`), and no two of them stand at one place
(`pairwise_sites`).

The searches count offsets from where the text starts that they are given, so `Text.StandsAt` does
too.
-/
import HypnoScript.Bracket
import HypnoScript.Declaration
import HypnoScript.Proofs.Text.Places

namespace HypnoScript

open Text (isWord headIsWord lastIsWord)

/-- A piece of a text stands at an offset, when the text starts at offset `o`. -/
def Text.StandsAt (o : Nat) (t u : Text) (n : Nat) : Prop :=
  ∃ p q, t = p ++ (u ++ q) ∧ o + p.length = n

/-! ## 1. Whole words -/

namespace Text

theorem StandsAt.cons {o n : Nat} {t u : Text} (h : StandsAt (o + 1) t u n) (c : Char) :
    StandsAt o (c :: t) u n := by
  obtain ⟨p, q, rfl, rfl⟩ := h
  exact ⟨c :: p, q, rfl, by rw [List.length_cons]; omega⟩

theorem standsAt_of_wordAtStart {w t : Text} {before : Bool}
    (h : wordAtStart w before t = true) (o : Nat) : StandsAt o t w o := by
  rw [wordAtStart, Bool.and_eq_true] at h
  cases hs : afterStart? w t with
  | none => simp [hs] at h
  | some rest =>
    have ht : t = w ++ rest := afterStart?_eq_some_iff.mp hs
    exact ⟨[], rest, ht, rfl⟩

theorem standsAt_wordOffsetsFrom {w t : Text} {n : Nat} : ∀ {o skip : Nat} {before : Bool},
    n ∈ wordOffsetsFrom w o skip before t → StandsAt o t w n := by
  induction t with
  | nil =>
    intro o skip before h
    rw [wordOffsetsFrom] at h
    split at h
    · rename_i hstart
      rw [List.mem_singleton.mp h]
      exact standsAt_of_wordAtStart hstart.2 o
    · exact absurd h List.not_mem_nil
  | cons c t ih =>
    intro o skip before h
    cases skip with
    | succ skip => exact (ih h).cons c
    | zero =>
      rw [wordOffsetsFrom] at h
      split at h
      · rename_i hstart
        rcases List.mem_cons.mp h with rfl | h
        · exact standsAt_of_wordAtStart hstart _
        · exact (ih h).cons c
      · exact (ih h).cons c

/-- **Where a word is found, it stands.** -/
theorem standsAt_wordOffsets {w t : Text} {n : Nat} (h : n ∈ wordOffsets w t) :
    StandsAt 0 t w n := standsAt_wordOffsetsFrom h

end Text

/-! ## 2. What stands in front of a word -/

namespace Text

theorem lastIsWord_cons (before : Bool) (c : Char) (p : Text) :
    lastIsWord before (c :: p) = lastIsWord (isWord c) p := by
  rw [lastIsWord, lastIsWord, List.getLast?_cons]
  cases p.getLast? <;> rfl

theorem lastIsWord_append (before : Bool) (u p : Text) :
    lastIsWord before (u ++ p) = lastIsWord (lastIsWord before u) p := by
  induction u generalizing before with
  | nil => rfl
  | cons c u ih => rw [List.cons_append, lastIsWord_cons, lastIsWord_cons, ih]

/-- A text that has a last character which is none of a word ends with no word, whatever stands
before it. -/
theorem lastIsWord_of_last {p : Text} (h : lastIsWord true p = false) (before : Bool) :
    lastIsWord before p = false := by
  cases p with
  | nil => cases h
  | cons c p => rwa [lastIsWord_cons] at h ⊢

theorem lastIsWord_append_of_last {p : Text} (h : lastIsWord true p = false) (before : Bool)
    (u : Text) : lastIsWord before (u ++ p) = false := by
  rw [lastIsWord_append, lastIsWord_of_last h]

end Text

/-! ## 3. Brackets -/

namespace Bracket

/-- The brackets of the stack stand in front of the text, the others in it. -/
theorem bracket_of_mem_faultsFrom {t : Text} {n : Nat} : ∀ {stack : List Frame} {o : Nat},
    n ∈ faultsFrom stack o t → n ∈ stack.map Frame.offset ∨
      ∃ c, (isOpener c || isCloser c) = true ∧ Text.StandsAt o t [c] n := by
  induction t with
  | nil =>
    intro stack o h
    rw [faultsFrom, List.map_reverse, List.mem_reverse] at h
    exact Or.inl h
  | cons c t ih =>
    intro stack o h
    have hhere (hc : (isOpener c || isCloser c) = true) :
        ∃ d, (isOpener d || isCloser d) = true ∧ Text.StandsAt o (c :: t) [d] o :=
      ⟨c, hc, [], t, rfl, rfl⟩
    have hbehind {stack' : List Frame} (hn : n ∈ faultsFrom stack' (o + 1) t)
        (hstack : n ∈ stack'.map Frame.offset → n = o ∧ isOpener c = true ∨
          n ∈ stack.map Frame.offset) :
        n ∈ stack.map Frame.offset ∨
          ∃ d, (isOpener d || isCloser d) = true ∧ Text.StandsAt o (c :: t) [d] n := by
      rcases ih hn with hn | ⟨d, hd, hstands⟩
      · rcases hstack hn with ⟨rfl, hopener⟩ | hn
        · exact Or.inr (hhere (by rw [hopener, Bool.true_or]))
        · exact Or.inl hn
      · exact Or.inr ⟨d, hd, hstands.cons c⟩
    rw [faultsFrom.eq_def] at h
    dsimp only at h
    split at h
    · rename_i hopener
      refine hbehind h fun hn => ?_
      rw [List.map_cons, List.mem_cons] at hn
      exact hn.imp (fun e => ⟨e, hopener⟩) id
    · split at h
      · rename_i hcloser
        have hc : (isOpener c || isCloser c) = true := by rw [hcloser, Bool.or_true]
        cases stack with
        | nil =>
          rcases List.mem_cons.mp h with rfl | h
          · exact Or.inr (hhere hc)
          · exact hbehind h Or.inr
        | cons f stack =>
          have hlater (hn : n ∈ stack.map Frame.offset) :
              n = o ∧ isOpener c = true ∨ n ∈ (f :: stack).map Frame.offset :=
            Or.inr (List.mem_cons_of_mem _ hn)
          dsimp only at h
          split at h
          · exact hbehind h hlater
          · rcases List.mem_cons.mp h with rfl | h
            · exact Or.inr (hhere hc)
            · exact hbehind h hlater
      · exact hbehind h Or.inr

/-- **Where a faulty bracket is found, a bracket stands**: the check reports what it has read, at
once or from its stack. -/
theorem bracket_of_mem_faults {t : Text} {n : Nat} (h : n ∈ faults t) :
    ∃ c, (isOpener c || isCloser c) = true ∧ Text.StandsAt 0 t [c] n := by
  rcases bracket_of_mem_faultsFrom h with hn | hc
  · exact absurd hn List.not_mem_nil
  · exact hc

end Bracket

/-! ## 4. Declared names -/

namespace Declaration

variable {kws : List Text} {r t name : Text} {o n skip : Nat} {before : Bool}

theorem exists_of_mem_afterBlanks (h : r ∈ afterBlanks t) :
    ∃ p, t = p ++ r ∧ lastIsWord true p = false := by
  induction t with
  | nil => exact absurd h List.not_mem_nil
  | cons c t ih =>
    rw [afterBlanks] at h
    split at h
    · rename_i hc
      rcases List.mem_append.mp h with h | h
      · obtain ⟨p, rfl, hp⟩ := ih h
        exact ⟨c :: p, rfl, Text.lastIsWord_append_of_last hp true [c]⟩
      · obtain rfl := List.mem_singleton.mp h
        exact ⟨[c], rfl, Text.isWord_eq_false_of_isBlank hc⟩
    · exact absurd h List.not_mem_nil

/-- What follows a keyword and its blanks stands behind a blank, even if the keyword is empty. -/
theorem exists_of_mem_afterKeyword (h : r ∈ afterKeyword kws t) :
    ∃ p, t = p ++ r ∧ lastIsWord true p = false := by
  obtain ⟨k, -, hr⟩ := List.mem_flatMap.mp h
  cases hs : Text.afterStart? k t with
  | none => simp [hs] at hr
  | some s =>
    rw [hs] at hr
    obtain ⟨p, rfl, hp⟩ := exists_of_mem_afterBlanks hr
    refine ⟨k ++ p, ?_, Text.lastIsWord_append_of_last hp true k⟩
    rw [Text.afterStart?_eq_some_iff.mp hs, List.append_assoc]

/-- A name stands at the end of a chain of keywords. -/
theorem exists_of_nameAfter (h : nameAfter kws t = some r) :
    r.head?.any Text.startsName = true ∧ ∃ p, t = p ++ r ∧ lastIsWord false p = false := by
  induction t using nameAfter.induct kws generalizing r with
  | case1 t ih =>
    rw [nameAfter, Option.or_eq_some_iff] at h
    rcases h with h | ⟨-, h⟩
    · obtain ⟨⟨s, hs⟩, -, hr⟩ := List.exists_of_findSome?_eq_some h
      obtain ⟨p, rfl, hp⟩ := exists_of_mem_afterKeyword hs
      obtain ⟨hstarts, q, rfl, hq⟩ := ih ⟨s, hs⟩ hr
      refine ⟨hstarts, p ++ q, (List.append_assoc ..).symm, ?_⟩
      rw [Text.lastIsWord_append, Text.lastIsWord_of_last hp, hq]
    · split at h
      · rename_i hstarts
        cases h
        exact ⟨hstarts, [], rfl, rfl⟩
      · cases h

/-- **A declared name stands behind a character that is none of a word**, for the last thing in
front of it is a blank, whatever the keywords are. -/
theorem exists_of_declaredAt (h : declaredAt kws t = some r) :
    r.head?.any Text.startsName = true ∧ ∃ p, t = p ++ r ∧ lastIsWord true p = false := by
  obtain ⟨s, hs, hr⟩ := List.exists_of_findSome?_eq_some h
  obtain ⟨p, rfl, hp⟩ := exists_of_mem_afterKeyword hs
  obtain ⟨hstarts, q, rfl, hq⟩ := exists_of_nameAfter hr
  refine ⟨hstarts, p ++ q, (List.append_assoc ..).symm, ?_⟩
  rw [Text.lastIsWord_append, Text.lastIsWord_of_last hp, hq]

/-- The word that a text starts with is a name if the text starts with a character that names start
with. -/
theorem startsName_leadingWord (h : t.head?.any Text.startsName = true) :
    (Text.leadingWord t).head?.any Text.startsName = true := by
  cases t with
  | nil => cases h
  | cons c t =>
    have hc : isWord c = true := (Bool.and_eq_true_iff.mp h).1
    rw [Text.leadingWord, List.takeWhile_cons_of_pos hc]
    exact h

/-- A site is behind a character of the text that is none of a word, and has a whole name. -/
theorem exists_of_mem_sitesFrom (h : (name, n) ∈ sitesFrom kws o skip before t) :
    (name.head?.any Text.startsName = true ∧ ∀ c ∈ name, isWord c = true) ∧
      ∃ p q, t = p ++ (name ++ q) ∧ o + p.length = n ∧ lastIsWord true p = false ∧
        headIsWord q = false := by
  induction t generalizing o skip before with
  | nil => exact absurd h List.not_mem_nil
  | cons c t ih =>
    have hbehind {skip : Nat} {before : Bool}
        (hn : (name, n) ∈ sitesFrom kws (o + 1) skip before t) :
        (name.head?.any Text.startsName = true ∧ ∀ c ∈ name, isWord c = true) ∧
          ∃ p q, c :: t = p ++ (name ++ q) ∧ o + p.length = n ∧ lastIsWord true p = false ∧
            headIsWord q = false := by
      obtain ⟨hname, p, q, rfl, rfl, hp, hq⟩ := ih hn
      refine ⟨hname, c :: p, q, rfl, ?_, Text.lastIsWord_append_of_last hp true [c], hq⟩
      rw [List.length_cons]
      omega
    cases skip with
    | succ skip => exact hbehind h
    | zero =>
      rw [sitesFrom] at h
      split at h
      · rename_i rest hrest
        split at hrest
        · rcases List.mem_cons.mp h with h | h
          · obtain ⟨hstarts, p, hp, hlast⟩ := exists_of_declaredAt hrest
            cases h
            refine ⟨⟨startsName_leadingWord hstarts, fun d hd => List.mem_takeWhile_imp hd⟩, p,
              rest.dropWhile isWord, ?_, ?_, hlast, Text.headIsWord_dropWhile rest⟩
            · rw [Text.leadingWord, List.takeWhile_append_dropWhile, hp]
            · rw [hp, List.length_append, Nat.add_sub_cancel]
          · exact hbehind h
        · cases hrest
      · exact hbehind h

/-- No site is found in what is still to be passed over. -/
theorem le_of_mem_sitesFrom (h : (name, n) ∈ sitesFrom kws o skip before t) : o + skip ≤ n := by
  induction t generalizing o skip before with
  | nil => exact absurd h List.not_mem_nil
  | cons c t ih =>
    cases skip with
    | succ skip =>
      have hle := ih h
      omega
    | zero =>
      rw [sitesFrom] at h
      split at h
      · rcases List.mem_cons.mp h with h | h
        · cases h
          exact Nat.le_add_right _ _
        · have hle := ih h
          omega
      · have hle := ih h
        omega

/-- **Sites are found from the left**, each one behind the name of the one before, which the search
passes over. -/
theorem pairwise_sitesFrom (kws : List Text) (t : Text) : ∀ (o skip : Nat) (before : Bool),
    (sitesFrom kws o skip before t).Pairwise (·.2 < ·.2) := by
  induction t with
  | nil => exact fun _ _ _ => .nil
  | cons c t ih =>
    intro o skip before
    cases skip with
    | succ skip => exact ih _ _ _
    | zero =>
      rw [sitesFrom]
      split
      · rename_i rest hrest
        refine .cons ?_ (ih _ _ _)
        intro p hp
        split at hrest
        · have hname : Text.leadingWord rest ≠ [] := by
            intro hnil
            have hstarts := startsName_leadingWord (exists_of_declaredAt hrest).1
            rw [hnil] at hstarts
            cases hstarts
          have hpos := List.length_pos_iff.mpr hname
          have hle := le_of_mem_sitesFrom hp
          dsimp only
          omega
        · cases hrest
      · exact ih _ _ _

variable {dialect : Dialect} {code : Text}

theorem pairwise_sites (dialect : Dialect) (code : Text) :
    (sites dialect code).Pairwise (·.2 < ·.2) := pairwise_sitesFrom _ code 0 0 false

theorem exists_of_mem_sites (h : (name, n) ∈ sites dialect code) :
    (name.head?.any Text.startsName = true ∧ ∀ c ∈ name, isWord c = true) ∧
      ∃ p q, code = p ++ (name ++ q) ∧ 0 + p.length = n ∧ lastIsWord true p = false ∧
        headIsWord q = false := exists_of_mem_sitesFrom h

/-- **Where a name is declared, it stands**, and it consists of word characters. -/
theorem standsAt_sites (h : (name, n) ∈ sites dialect code) :
    Text.StandsAt 0 code name n ∧ ∀ c ∈ name, isWord c = true := by
  obtain ⟨⟨-, hword⟩, p, q, hcode, hn, -⟩ := exists_of_mem_sites h
  exact ⟨⟨p, q, hcode, hn⟩, hword⟩

end Declaration
end HypnoScript
