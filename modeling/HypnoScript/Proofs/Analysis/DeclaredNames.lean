/-
# Declared names, recognised where they stand

The search for declarations takes chains of keywords as long as it can, and goes on behind the name
that it found.  When the keywords could be names themselves, none of that can be seen from outside:
a name is declared just when the word before it is a keyword and, if it is a keyword too, no name
follows it (`variables_exact`).

Among the tokens this is a walk that looks at two neighbours at a time (`sitesBeside`), and it finds
what the chains find (`sitesOf_eq_sitesBeside`): of a chain only the last two words count.  In the
text, tokens are words with nothing but blanks between them (`placed_eq_append_cons_iff`).
-/
import HypnoScript.Proofs.Analysis.Verdict
import HypnoScript.Proofs.Layout.Analysis

namespace HypnoScript

open Text (isBlank isWord startsName headIsWord lastIsWord placed IsRun)

/-! ## 1. Names -/

namespace Text

/-- A word that can be a name: its first character is no decimal digit. -/
structure IsIdentifier (w : Text) : Prop where
  starts : w.head?.any startsName = true
  word : ∀ c ∈ w, isWord c = true

theorem isIdentifier_iff (w : Text) :
    IsIdentifier w ↔ w.head?.any startsName = true ∧ w.all isWord = true := by
  rw [List.all_eq_true]
  exact ⟨fun h => ⟨h.starts, h.word⟩, fun h => ⟨h.1, h.2⟩⟩

instance (w : Text) : Decidable (IsIdentifier w) := decidable_of_iff _ (isIdentifier_iff w).symm

theorem IsIdentifier.isRun {w : Text} (h : IsIdentifier w) : IsRun w := by
  refine ⟨?_, h.word⟩
  rintro rfl
  exact absurd h.starts (by decide)

theorem isIdentifier_of_isRun {w : Text} (hw : IsRun w) (h : w.head?.any startsName = true) :
    IsIdentifier w := ⟨h, hw.2⟩

/-- A text starts with a name, behind nothing but blanks. -/
def NameFollows (t : Text) : Prop :=
  ∃ gap w s, t = gap ++ (w ++ s) ∧ (∀ c ∈ gap, isBlank c = true) ∧ IsIdentifier w ∧
    headIsWord s = false

end Text

open Text (IsIdentifier NameFollows)

namespace Declaration

/-- The parts of a text around a name that is declared in it. -/
structure Declares (kws : List Text) (before keyword gap name behind : Text) : Prop where
  /-- The word before the name is a keyword, … -/
  declares : keyword ∈ kws
  /-- … as a whole, … -/
  whole : lastIsWord false before = false
  /-- … with blanks behind it, … -/
  gap_ne_nil : gap ≠ []
  /-- … and nothing else. -/
  blank : ∀ c ∈ gap, isBlank c = true
  isIdentifier : IsIdentifier name
  ends : headIsWord behind = false
  /-- The name is no keyword of a longer declaration. -/
  last : ¬ (name ∈ kws ∧ NameFollows behind)

/-- The name is declared in the text, at the offset. -/
def DeclaredAt (kws : List Text) (t name : Text) (offset : Nat) : Prop :=
  ∃ before keyword gap behind,
    t = before ++ (keyword ++ (gap ++ (name ++ behind))) ∧
      offset = before.length + keyword.length + gap.length ∧
      Declares kws before keyword gap name behind

/-- The order of the keywords does not matter. -/
theorem DeclaredAt.of_mem_iff {kws kws' : List Text} (h : ∀ k, k ∈ kws ↔ k ∈ kws') {t name : Text}
    {offset : Nat} (hd : DeclaredAt kws t name offset) : DeclaredAt kws' t name offset := by
  obtain ⟨before, keyword, gap, behind, ht, ho, hd⟩ := hd
  refine ⟨before, keyword, gap, behind, ht, ho, { hd with declares := ?_, last := ?_ }⟩
  · exact (h keyword).mp hd.declares
  · rw [← h name]
    exact hd.last

/-! ## 2. Neighbours among the tokens -/

variable {α : Type} {kws : List Text}

/-- The first of some tokens is a name. -/
def startsWithName : List (Token × α) → Bool
  | (.word w, _) :: _ => w.head?.any startsName
  | _ => false

/-- The name that stands behind a token, if the token is a keyword, and the name is none that
another name follows. -/
def nameBeside (kws : List Text) : Token → List (Token × α) → Option (Text × α)
  | .word k, (.word w, a) :: ts =>
    if kws.contains k && w.head?.any startsName && !(kws.contains w && startsWithName ts) then
      some (w, a)
    else none
  | _, _ => none

/-- The names that some tokens declare, by looking at two neighbours at a time. -/
def sitesBeside (kws : List Text) : List (Token × α) → List (Text × α)
  | [] => []
  | (token, _) :: ts => (nameBeside kws token ts).toList ++ sitesBeside kws ts

theorem declares_iff {k w : Text} {ts : List (Token × α)} :
    (kws.contains k && w.head?.any startsName && !(kws.contains w && startsWithName ts)) = true ↔
      k ∈ kws ∧ w.head?.any startsName = true ∧ ¬ (w ∈ kws ∧ startsWithName ts = true) := by
  rw [Bool.and_eq_true, Bool.and_eq_true, Bool.not_eq_true', Bool.and_eq_false_iff, not_and_or,
    List.contains_iff_mem, and_assoc, Bool.not_eq_true, ← Bool.not_eq_true (kws.contains w),
    List.contains_iff_mem]

theorem nameBeside_of_not_mem {k : Text} (h : k ∉ kws) : ∀ ts : List (Token × α),
    nameBeside kws (.word k) ts = none
  | [] => rfl
  | (.sign _, _) :: _ => rfl
  | (.word _, _) :: _ => by rw [nameBeside, if_neg (fun h' => h (declares_iff.mp h').1)]

theorem nameBeside_of_not_startsWithName (token : Token) : ∀ {ts : List (Token × α)},
    startsWithName ts = false → nameBeside kws token ts = none
  | [], _ => by cases token <;> rfl
  | (.sign _, _) :: _, _ => by cases token <;> rfl
  | (.word w, _) :: _, h => by
    have hw : w.head?.any startsName = false := h
    cases token with
    | sign c => rfl
    | word k => rw [nameBeside, hw, Bool.and_false, Bool.false_and, if_neg Bool.false_ne_true]

/-- A chain of keywords that could be names has a name just when it starts with one. -/
theorem isSome_nameOf (hk : ∀ k ∈ kws, IsIdentifier k) (ts : List (Token × α)) :
    (nameOf kws ts).isSome = startsWithName ts := by
  cases ts with
  | nil => rfl
  | cons p ts =>
    obtain ⟨token, a⟩ := p
    cases token with
    | sign c => rfl
    | word w =>
      rw [nameOf, startsWithName]
      cases hw : w.head?.any startsName with
      | true => rw [if_pos rfl, Option.isSome_or, Option.isSome_some, Bool.or_true]
      | false =>
        have hmem : w ∉ kws := by
          intro hmem
          rw [(hk w hmem).starts] at hw
          cases hw
        rw [if_neg hmem, if_neg Bool.false_ne_true]
        rfl

/-- **Of a chain only its last two words count**: the name that a chain leads to is found beside the
last keyword, and none is found beside the keywords before it. -/
theorem sitesBeside_of_nameOf (hk : ∀ k ∈ kws, IsIdentifier k) {ts rest : List (Token × α)}
    {n : Text} {a : α} (h : nameOf kws ts = some (n, a, rest)) {k : Text} (hmem : k ∈ kws) (b : α) :
    sitesBeside kws ((.word k, b) :: ts) = (n, a) :: sitesBeside kws rest := by
  induction ts generalizing k b with
  | nil => cases h
  | cons p ts ih =>
    obtain ⟨token, b'⟩ := p
    cases token with
    | sign c => cases h
    | word w =>
      rw [sitesBeside, nameBeside]
      rw [nameOf] at h
      by_cases hchain : w ∈ kws ∧ startsWithName ts = true
      · -- The chain goes on behind `w`.
        have hsome := (isSome_nameOf hk ts).trans hchain.2
        rw [if_pos hchain.1, Option.or_of_isSome hsome] at h
        rw [if_neg (fun h' => (declares_iff.mp h').2.2 hchain), Option.toList_none, List.nil_append,
          ih h hchain.1 b']
      · -- The chain ends at `w`, which is its name.
        have hnone : (if w ∈ kws then nameOf kws ts else none) = none := by
          split
          · rename_i hw
            rw [← Option.not_isSome_iff_eq_none, isSome_nameOf hk ts]
            exact fun hts => hchain ⟨hw, hts⟩
          · rfl
        have hbeside : nameBeside kws (.word w) ts = none := by
          rcases not_and_or.mp hchain with hw | hts
          · exact nameBeside_of_not_mem hw ts
          · exact nameBeside_of_not_startsWithName _ (Bool.eq_false_iff.mpr hts)
        rw [hnone, Option.none_or] at h
        split at h
        · rename_i hname
          rw [if_pos (declares_iff.mpr ⟨hmem, hname, hchain⟩), sitesBeside, hbeside]
          cases h
          rfl
        · cases h

/-- **The search by chains finds what is found by looking at neighbours.**  Behind a name that was
found the search does not look at the name again.  Looking at neighbours it is looked at once more,
as a keyword perhaps; but a keyword is taken for a name only if no name follows, and then nothing is
found there. -/
theorem sitesOf_eq_sitesBeside (hk : ∀ k ∈ kws, IsIdentifier k) (ts : List (Token × α)) :
    sitesOf kws ts = sitesBeside kws ts := by
  fun_induction sitesOf kws ts with
  | case1 => rfl
  | case2 token b ts name a rest h ih =>
    cases token with
    | sign c => cases h
    | word k =>
      rw [declaredBy] at h
      split at h
      · rename_i hmem
        rw [ih, sitesBeside_of_nameOf hk h hmem]
      · cases h
  | case3 token b ts h ih =>
    have hbeside : nameBeside kws token ts = none := by
      cases token with
      | sign c => rfl
      | word k =>
        rw [declaredBy] at h
        split at h
        · have hts := isSome_nameOf hk ts
          rw [h] at hts
          exact nameBeside_of_not_startsWithName _ hts.symm
        · rename_i hmem
          exact nameBeside_of_not_mem hmem ts
    rw [ih, sitesBeside, hbeside]
    rfl

theorem nameBeside_eq_some_iff {token : Token} {ts : List (Token × α)} {n : Text} {a : α} :
    nameBeside kws token ts = some (n, a) ↔ ∃ k vs, token = .word k ∧ ts = (.word n, a) :: vs ∧
      k ∈ kws ∧ n.head?.any startsName = true ∧ ¬ (n ∈ kws ∧ startsWithName vs = true) := by
  constructor
  · intro h
    unfold nameBeside at h
    split at h
    · rename_i k w a' vs
      split at h
      · rename_i hcond
        cases h
        exact ⟨k, vs, rfl, rfl, declares_iff.mp hcond⟩
      · cases h
    · cases h
  · rintro ⟨k, vs, rfl, rfl, hcond⟩
    rw [nameBeside, if_pos (declares_iff.mpr hcond)]

/-- A name is found among the tokens just when it stands behind a keyword, and is no keyword itself
that another name follows. -/
theorem mem_sitesBeside_iff {ts : List (Token × α)} {n : Text} {a : α} :
    (n, a) ∈ sitesBeside kws ts ↔ ∃ us k b vs, ts = us ++ (.word k, b) :: (.word n, a) :: vs ∧
      k ∈ kws ∧ n.head?.any startsName = true ∧ ¬ (n ∈ kws ∧ startsWithName vs = true) := by
  induction ts with
  | nil => simp [sitesBeside]
  | cons p ts ih =>
    obtain ⟨token, b⟩ := p
    rw [sitesBeside, List.mem_append, Option.mem_toList, nameBeside_eq_some_iff, ih]
    constructor
    · rintro (⟨k, vs, rfl, rfl, hcond⟩ | ⟨us, k, b', vs, rfl, hcond⟩)
      · exact ⟨[], k, b, vs, rfl, hcond⟩
      · exact ⟨(token, b) :: us, k, b', vs, rfl, hcond⟩
    · rintro ⟨us, k, b', vs, hts, hcond⟩
      cases us with
      | nil =>
        cases hts
        exact Or.inl ⟨k, vs, rfl, rfl, hcond⟩
      | cons q us =>
        cases hts
        exact Or.inr ⟨us, k, b', vs, rfl, hcond⟩

end Declaration

/-! ## 3. Words in the text -/

namespace Text

variable {w : Text}

theorem lastIsWord_of_blank {g : Text} (h : ∀ c ∈ g, isBlank c = true) :
    lastIsWord false g = false := by
  induction g with
  | nil => rfl
  | cons c g ih =>
    rw [lastIsWord_cons, isWord_eq_false_of_isBlank (h c List.mem_cons_self)]
    exact ih fun d hd => h d (List.mem_cons_of_mem _ hd)

/-- Behind a text that ends with no word, the tokens are those of the one text and then those of the
other. -/
theorem placed_append_of_lastIsWord {p : Text} (hp : lastIsWord false p = false) (o : Nat)
    (q : Text) : placed o (p ++ q) = placed o p ++ placed (o + p.length) q := by
  induction p using token_induction generalizing o with
  | nil => rfl
  | blank c p hb ih =>
    rw [lastIsWord_cons, isWord_eq_false_of_isBlank hb] at hp
    rw [List.cons_append, placed_blank_cons hb, placed_blank_cons hb, ih hp, List.length_cons,
      Nat.add_assoc, Nat.add_comm 1]
  | sign c p hw hb ih =>
    rw [lastIsWord_cons, hw] at hp
    rw [List.cons_append, placed_sign_cons hw hb, placed_sign_cons hw hb, ih hp, List.length_cons,
      Nat.add_assoc, Nat.add_comm 1]
    rfl
  | word u p hu hs ih =>
    rw [lastIsWord_append, lastIsWord_of_isRun hu] at hp
    cases p with
    | nil => cases hp
    | cons d p =>
      have hs' : headIsWord (d :: p ++ q) = false := hs
      rw [List.append_assoc, placed_word_append hu hs', placed_word_append hu hs, ih hp,
        List.length_append, Nat.add_assoc]
      rfl

/-- **Where a word stands among the tokens, it stands in the text**, as a whole: the text is cut in
front of it and behind it, where no word goes on, and so are its tokens. -/
theorem placed_eq_append_cons_iff {t : Text} : ∀ {o i : Nat} {us vs : List (Token × Nat)},
    placed o t = us ++ (.word w, i) :: vs ↔
      IsRun w ∧ ∃ p q, t = p ++ (w ++ q) ∧ i = o + p.length ∧ lastIsWord false p = false ∧
        headIsWord q = false ∧ us = placed o p ∧ vs = placed (i + w.length) q := by
  intro o i us vs
  constructor
  · induction t using token_induction generalizing o us with
    | nil =>
      intro h
      exact absurd h.symm (by simp [placed])
    | blank c t hb ih =>
      intro h
      rw [placed_blank_cons hb] at h
      obtain ⟨hw, p, q, rfl, rfl, hp, hq, hus, hvs⟩ := ih h
      refine ⟨hw, c :: p, q, rfl, ?_, ?_, hq, ?_, hvs⟩
      · rw [List.length_cons]
        omega
      · rw [lastIsWord_cons, isWord_eq_false_of_isBlank hb, hp]
      · rw [placed_blank_cons hb, hus]
    | sign c t hc hb ih =>
      intro h
      rw [placed_sign_cons hc hb] at h
      cases us with
      | nil => cases h
      | cons u us =>
        obtain ⟨rfl, htail⟩ := List.cons.inj h
        obtain ⟨hw, p, q, rfl, rfl, hp, hq, hus, hvs⟩ := ih htail
        refine ⟨hw, c :: p, q, rfl, ?_, ?_, hq, ?_, hvs⟩
        · rw [List.length_cons]
          omega
        · rw [lastIsWord_cons, hc, hp]
        · rw [placed_sign_cons hc hb, hus]
    | word u t hu ht ih =>
      intro h
      rw [placed_word_append hu ht] at h
      cases us with
      | nil =>
        cases h
        exact ⟨hu, [], t, rfl, rfl, rfl, ht, rfl, rfl⟩
      | cons v us =>
        obtain ⟨rfl, htail⟩ := List.cons.inj h
        obtain ⟨hw, p, q, rfl, rfl, hp, hq, hus, hvs⟩ := ih htail
        cases p with
        | nil =>
          rw [List.nil_append, headIsWord_run_append hw] at ht
          cases ht
        | cons d p =>
          refine ⟨hw, u ++ d :: p, q, (List.append_assoc ..).symm, ?_, ?_, hq, ?_, hvs⟩
          · rw [List.length_append]
            omega
          · rwa [lastIsWord_append, lastIsWord_cons, ← lastIsWord_cons false]
          · have hp' : headIsWord (d :: p) = false := ht
            rw [placed_word_append hu hp', hus]
  · rintro ⟨hw, p, q, rfl, rfl, hp, hq, rfl, rfl⟩
    rw [placed_append_of_lastIsWord hp, placed_word_append hw hq]

theorem placed_eq_nil_iff {o : Nat} {t : Text} :
    placed o t = [] ↔ ∀ c ∈ t, isBlank c = true := by
  induction t using token_induction generalizing o with
  | nil => simp [placed]
  | blank c t hb ih =>
    rw [placed_blank_cons hb, ih]
    simp [hb]
  | sign c t hc hb ih =>
    rw [placed_sign_cons hc hb]
    simp [hb]
  | word w t hw ht ih =>
    rw [placed_word_append hw ht]
    refine iff_of_false (List.cons_ne_nil _ _) fun h => ?_
    obtain ⟨c, w, rfl⟩ := List.exists_cons_of_ne_nil hw.1
    have hc : isWord c = false := isWord_eq_false_of_isBlank (h c List.mem_cons_self)
    exact absurd (hw.2 c List.mem_cons_self) (by rw [hc]; exact Bool.false_ne_true)

theorem headIsWord_of_blank_append {g : Text} (hne : g ≠ []) (hg : ∀ c ∈ g, isBlank c = true)
    (t : Text) : headIsWord (g ++ t) = false := by
  obtain ⟨c, g, rfl⟩ := List.exists_cons_of_ne_nil hne
  exact isWord_eq_false_of_isBlank (hg c List.mem_cons_self)

/-- **Of two words that are neighbours among the tokens, one stands behind the other in the text**,
with nothing but blanks between them. -/
theorem placed_eq_append_cons_cons_iff {t k : Text} {o i j : Nat} {us vs : List (Token × Nat)} :
    placed o t = us ++ (.word k, i) :: (.word w, j) :: vs ↔
      IsRun k ∧ IsRun w ∧ ∃ p g q, t = p ++ (k ++ (g ++ (w ++ q))) ∧ i = o + p.length ∧
        j = i + k.length + g.length ∧ lastIsWord false p = false ∧ g ≠ [] ∧
        (∀ c ∈ g, isBlank c = true) ∧ headIsWord q = false ∧ us = placed o p ∧
        vs = placed (j + w.length) q := by
  constructor
  · intro h
    obtain ⟨hk, p, u, rfl, hi, hp, hu, hus, hrest⟩ := placed_eq_append_cons_iff.mp h
    obtain ⟨hw, g, q, rfl, hj, -, hq, hg, hvs⟩ :=
      placed_eq_append_cons_iff.mp (hrest.symm.trans (List.nil_append _).symm)
    refine ⟨hk, hw, p, g, q, rfl, hi, hj, hp, ?_, placed_eq_nil_iff.mp hg.symm, hq, hus, hvs⟩
    rintro rfl
    rw [List.nil_append, headIsWord_run_append hw] at hu
    cases hu
  · rintro ⟨hk, hw, p, g, q, rfl, rfl, rfl, hp, hne, hg, hq, rfl, rfl⟩
    rw [placed_append_of_lastIsWord hp, placed_word_append hk (headIsWord_of_blank_append hne hg _),
      placed_append_of_lastIsWord (lastIsWord_of_blank hg), placed_eq_nil_iff.mpr hg,
      List.nil_append, placed_word_append hw hq]

end Text

namespace Declaration

variable {kws : List Text}

/-- The tokens start with a name just when one follows behind blanks. -/
theorem startsWithName_placed_iff (o : Nat) (t : Text) :
    startsWithName (placed o t) = true ↔ NameFollows t := by
  constructor
  · intro h
    unfold startsWithName at h
    split at h
    · rename_i w i vs hplaced
      obtain ⟨hw, gap, s, rfl, -, -, hs, hgap, -⟩ :=
        Text.placed_eq_append_cons_iff.mp (hplaced.trans (List.nil_append _).symm)
      have hblank := Text.placed_eq_nil_iff.mp hgap.symm
      exact ⟨gap, w, s, rfl, hblank, Text.isIdentifier_of_isRun hw h, hs⟩
    · cases h
  · rintro ⟨gap, w, s, rfl, hgap, hw, hs⟩
    rw [Text.placed_append_of_lastIsWord (Text.lastIsWord_of_blank hgap),
      Text.placed_eq_nil_iff.mpr hgap, List.nil_append, Text.placed_word_append hw.isRun hs]
    exact hw.starts

/-- **A name is declared in a text just when it is found among its tokens.**  Neighbours among the
tokens are words with blanks between them in the text, and the name behind the next blanks is the
next token. -/
theorem mem_sitesBeside_placed_iff (hk : ∀ k ∈ kws, IsIdentifier k) (t name : Text) (offset : Nat) :
    (name, offset) ∈ sitesBeside kws (placed 0 t) ↔ DeclaredAt kws t name offset := by
  rw [mem_sitesBeside_iff]
  constructor
  · rintro ⟨us, k, i, vs, hplaced, hmem, hstarts, hlast⟩
    obtain ⟨-, hname, before, gap, behind, rfl, hi, hoffset, hwhole, hne, hblank, hends, -, rfl⟩ :=
      Text.placed_eq_append_cons_cons_iff.mp hplaced
    rw [startsWithName_placed_iff] at hlast
    exact ⟨before, k, gap, behind, rfl, by omega, hmem, hwhole, hne, hblank,
      Text.isIdentifier_of_isRun hname hstarts, hends, hlast⟩
  · rintro ⟨before, k, gap, behind, rfl, rfl, h⟩
    refine ⟨placed 0 before, k, 0 + before.length, _,
      Text.placed_eq_append_cons_cons_iff.mpr ⟨(hk k h.declares).isRun, h.isIdentifier.isRun,
        before, gap, behind, rfl, rfl, by omega, h.whole, h.gap_ne_nil, h.blank, h.ends, rfl, rfl⟩,
      h.declares, h.isIdentifier.starts, ?_⟩
    rw [startsWithName_placed_iff]
    exact h.last

/-! ## 4. Variables -/

theorem mem_names_iff {name : Text} {found : List (Text × Nat)} :
    name ∈ names found ↔ ∃ offset, (name, offset) ∈ found := by
  refine ⟨mem_of_mem_names, ?_⟩
  induction found with
  | nil => rintro ⟨offset, h⟩; cases h
  | cons p found ih =>
    rintro ⟨offset, h⟩
    obtain ⟨n, i⟩ := p
    rw [names, List.mem_cons, List.mem_filter]
    by_cases hn : name = n
    · exact Or.inl hn
    · rcases List.mem_cons.mp h with h | h
      · cases h
        exact absurd rfl hn
      · exact Or.inr ⟨ih ⟨offset, h⟩, by simpa using hn⟩

theorem nodup_names (found : List (Text × Nat)) : (names found).Nodup := by
  induction found with
  | nil => exact List.nodup_nil
  | cons p found ih =>
    obtain ⟨n, i⟩ := p
    rw [names, List.nodup_cons, List.mem_filter]
    refine ⟨?_, ih.filter _⟩
    rintro ⟨-, h⟩
    simp at h

theorem map_name_variables (dialect : Dialect) (code : Text) :
    («variables» dialect code).map Variable.name = names (sites dialect code) := by
  rw [«variables», List.map_map]
  exact List.map_id _

/-- The declarations of a variable are the sites of its name. -/
theorem mem_declarations_iff {dialect : Dialect} {code : Text} {v : Variable} {offset : Nat}
    (hv : v ∈ «variables» dialect code) :
    offset ∈ v.declarations ↔ (v.name, offset) ∈ sites dialect code := by
  refine ⟨mem_sites_of_mem_declarations hv, fun hoffset => ?_⟩
  obtain ⟨name, -, rfl⟩ := List.mem_map.mp hv
  refine List.mem_map.mpr ⟨(name, offset), ?_, rfl⟩
  rw [List.mem_filter, decide_eq_true_eq]
  exact ⟨hoffset, rfl⟩

/-- Every site is one of a variable. -/
theorem mem_variables_iff {dialect : Dialect} {code name : Text} {offset : Nat} :
    (∃ v ∈ «variables» dialect code, v.name = name ∧ offset ∈ v.declarations) ↔
      (name, offset) ∈ sites dialect code := by
  constructor
  · rintro ⟨v, hv, rfl, hoffset⟩
    exact (mem_declarations_iff hv).mp hoffset
  · intro h
    have hname : name ∈ («variables» dialect code).map Variable.name := by
      rw [map_name_variables, mem_names_iff]
      exact ⟨offset, h⟩
    obtain ⟨v, hv, rfl⟩ := List.mem_map.mp hname
    exact ⟨v, hv, rfl, (mem_declarations_iff hv).mpr h⟩

/-- Every variable has a site. -/
theorem exists_mem_sites {dialect : Dialect} {code : Text} {v : Variable}
    (hv : v ∈ «variables» dialect code) : ∃ offset, (v.name, offset) ∈ sites dialect code := by
  rw [← mem_names_iff, ← map_name_variables]
  exact List.mem_map_of_mem hv

section Keywords

variable {dialect : Dialect}

theorem sites_eq_sitesBeside (hne : dialect.declarationKeywords ≠ [])
    (hk : ∀ k ∈ dialect.declarationKeywords, IsIdentifier k) (code : Text) :
    sites dialect code = sitesBeside (tried dialect.declarationKeywords) (placed 0 code) := by
  have hk' : ∀ k ∈ tried dialect.declarationKeywords, IsIdentifier k :=
    fun k hmem => hk k ((mem_tried_iff hne k).mp hmem)
  rw [sites, sitesFrom_eq (fun k hmem => (hk' k hmem).isRun) code 0 false (Or.inl rfl),
    sitesOf_eq_sitesBeside hk']

/-- **The sites of a text are the places where a name is declared.** -/
theorem mem_sites_iff (hne : dialect.declarationKeywords ≠ [])
    (hk : ∀ k ∈ dialect.declarationKeywords, IsIdentifier k) {code name : Text} {offset : Nat} :
    (name, offset) ∈ sites dialect code ↔
      DeclaredAt dialect.declarationKeywords code name offset := by
  rw [sites_eq_sitesBeside hne hk,
    mem_sitesBeside_placed_iff fun k hmem => hk k ((mem_tried_iff hne k).mp hmem)]
  exact ⟨.of_mem_iff (mem_tried_iff hne), .of_mem_iff fun k => (mem_tried_iff hne k).symm⟩

end Keywords

/-- **Declarations are recognised exactly.**  When there are keywords, each of which could be a
name, the variables of a text have as their declarations just the places where a name is declared,
from the left, and no two variables have one name.

The search takes chains of keywords as long as it can, gives back keywords when no name follows, and
goes on behind the name.  That this can be said by looking at two words and what follows them is due
to the keywords being possible names themselves: the last keyword of a chain is the name if nothing
better comes behind it. -/
theorem variables_exact {dialect : Dialect} (hne : dialect.declarationKeywords ≠ [])
    (hk : ∀ k ∈ dialect.declarationKeywords, IsIdentifier k) (code : Text) :
    (∀ name offset, (∃ v ∈ «variables» dialect code, v.name = name ∧ offset ∈ v.declarations) ↔
        DeclaredAt dialect.declarationKeywords code name offset) ∧
      (∀ v ∈ «variables» dialect code, v.declarations.Pairwise (· < ·)) ∧
      ((«variables» dialect code).map Variable.name).Nodup := by
  refine ⟨fun name offset => ?_, ?_, ?_⟩
  · rw [mem_variables_iff, mem_sites_iff hne hk]
  · intro v hv
    obtain ⟨name, -, rfl⟩ := List.mem_map.mp hv
    exact List.pairwise_map.mpr ((pairwise_sites dialect code).filter _)
  · rw [map_name_variables]
    exact nodup_names _

/-- A keyword that no name follows is declared by the keyword before it. -/
theorem variables_exact_keyword :
    Dialect.standard.declarationKeywords ≠ [] ∧
      (∀ k ∈ Dialect.standard.declarationKeywords, IsIdentifier k) ∧
      ∃ v ∈ «variables» Dialect.standard "embed induce 1".toList,
        v.name = "induce".toList ∧ 6 ∈ v.declarations := by
  have hne : Dialect.standard.declarationKeywords ≠ [] := by decide
  have hk : ∀ k ∈ Dialect.standard.declarationKeywords, IsIdentifier k := by decide
  refine ⟨hne, hk, ((variables_exact hne hk "embed induce 1".toList).1 _ _).mpr ?_⟩
  refine ⟨[], "embed".toList, [' '], " 1".toList, rfl, rfl, ?_⟩
  have hlast : ¬ NameFollows " 1".toList := by
    rw [← startsWithName_placed_iff 0]
    decide
  exact
    { declares := by decide
      whole := rfl
      gap_ne_nil := by decide
      blank := List.forall_iff_forall_mem.mp (by decide)
      isIdentifier := by decide
      ends := by decide
      last := fun h => hlast h.2 }

end Declaration
end HypnoScript
