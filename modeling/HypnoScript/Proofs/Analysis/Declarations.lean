/-
# Declarations are chains of tokens

A declaration is a chain of keywords and a name, each of which is a token: blanks between two words
are all that can stand between them.  So the search for declarations, which tries every way to split
the blanks, finds what `sitesOf` reads off the tokens (`sitesFrom_eq`).

The keywords have to be words for that.
-/
import HypnoScript.Proofs.Analysis.Occurrences
import HypnoScript.Proofs.Analysis.Tokens

namespace HypnoScript
namespace Declaration

open Text (IsRun headIsWord leadingWord placed isWord isBlank)

variable {α β : Type} {kws : List Text}

/-! ## 1. Behind a keyword -/

/-- Whether the text starts with a blank. -/
def headIsBlank (t : Text) : Bool := t.head?.any isBlank

/-- What follows the first word of a text. -/
def behindWord (t : Text) : Text := t.dropWhile isWord

theorem behindWord_append {u s : Text} (hu : ∀ c ∈ u, isWord c = true)
    (hs : headIsWord s = false) : behindWord (u ++ s) = s := by
  rw [behindWord, List.dropWhile_append_of_pos hu]
  cases s with
  | nil => rfl
  | cons c s => exact List.dropWhile_cons_of_neg (by simpa [headIsWord] using hs)

theorem not_headIsWord_of_headIsBlank {t : Text} (h : headIsBlank t = true) :
    headIsWord t = false := by
  cases t with
  | nil => rfl
  | cons c t =>
    exact Text.isWord_eq_false_of_isBlank (by simpa [headIsBlank] using h)

theorem trimLeft_of_not_headIsBlank {t : Text} (h : headIsBlank t = false) : t.trimLeft = t :=
  Text.trimLeft_of_head fun c hc => by
    rw [headIsBlank, Option.mem_def.mp hc] at h
    exact h

/-- Of the ways to split the blanks only the longest run leads anywhere. -/
theorem findSome?_afterBlanks {f : Text → Option β} (hf : ∀ r, headIsBlank r = true → f r = none)
    (s : Text) :
    (afterBlanks s).findSome? f = if headIsBlank s then f s.trimLeft else none := by
  induction s with
  | nil => rfl
  | cons c cs ih =>
    cases hc : isBlank c with
    | false => simp [afterBlanks, headIsBlank, hc]
    | true =>
      have htrim : Text.trimLeft (c :: cs) = Text.trimLeft cs := by simp [Text.trimLeft, hc]
      have hhead : headIsBlank (c :: cs) = true := by simpa [headIsBlank] using hc
      rw [afterBlanks, if_pos hc, List.findSome?_append, ih, List.findSome?_singleton, htrim,
        if_pos hhead]
      cases hcs : headIsBlank cs with
      | true => rw [hf cs hcs, Option.or_none]; rfl
      | false => rw [trimLeft_of_not_headIsBlank hcs]; rfl

/-- **Of the keywords only the word that the text starts with leads anywhere.**  A shorter keyword
may match the front of that word as well, but then no blank comes behind it, and a blank has to come
before anything else is looked for. -/
theorem findSome?_afterKeyword (hk : ∀ k ∈ kws, IsRun k) {f : Text → Option β}
    (hf : ∀ r, headIsBlank r = true → f r = none) (t : Text) :
    (afterKeyword kws t).findSome? f =
      if leadingWord t ∈ kws ∧ headIsBlank (behindWord t) = true then
        f (behindWord t).trimLeft else none := by
  have hone {k : Text} (hk : IsRun k) :
      (((Text.afterStart? k t).map afterBlanks).getD []).findSome? f =
        if leadingWord t = k ∧ headIsBlank (behindWord t) = true then
          f (behindWord t).trimLeft else none := by
    have hstart := Text.starts_iff hk.2 t
    cases h : Text.afterStart? k t with
    | none =>
      rw [h] at hstart
      have hne : leadingWord t ≠ k := fun e => by simpa using hstart.mpr e
      simp [hne]
    | some s =>
      rw [h, Option.any_some, Bool.not_eq_true'] at hstart
      rw [Option.map_some, Option.getD_some, findSome?_afterBlanks hf]
      cases hs : headIsWord s with
      | true =>
        have hne : leadingWord t ≠ k := fun e => by simpa [hs] using hstart.mpr e
        have hb : headIsBlank s = false := by
          refine Bool.eq_false_iff.mpr fun hb => ?_
          exact Bool.false_ne_true ((not_headIsWord_of_headIsBlank hb).symm.trans hs)
        simp [hne, hb]
      | false =>
        have ht : behindWord t = s := by
          rw [Text.afterStart?_eq_some_iff.mp h, behindWord_append hk.2 hs]
        rw [ht, hstart.mp hs]
        simp
  induction kws with
  | nil => simp [afterKeyword]
  | cons k kws ih =>
    have ih := ih fun x hx => hk x (List.mem_cons_of_mem _ hx)
    rw [afterKeyword] at ih
    rw [afterKeyword, List.flatMap_cons, List.findSome?_append, hone (hk k List.mem_cons_self), ih]
    simp only [List.mem_cons]
    by_cases hb : headIsBlank (behindWord t) = true
    · by_cases h1 : leadingWord t = k
      · simp only [h1, hb, and_self, if_true, true_or]
        split <;> simp
      · simp [h1]
    · simp [hb]

/-- A text that starts with a blank starts with no declaration and no name. -/
theorem nameAfter_eq (kws : List Text) (t : Text) :
    nameAfter kws t =
      (declaredAt kws t).or (if t.head?.any Text.startsName then some t else none) := by
  rw [nameAfter, declaredAt]
  simp [List.findSome?_subtype]

theorem nil_not_mem (hk : ∀ k ∈ kws, IsRun k) : [] ∉ kws := fun h => (hk [] h).1 rfl

/-- No name and no declaration starts with a blank. -/
theorem nameAfter_of_headIsBlank (hk : ∀ k ∈ kws, IsRun k) {t : Text}
    (h : headIsBlank t = true) : nameAfter kws t = none := by
  have hdeclared : declaredAt kws t = none := by
    refine List.findSome?_eq_none_iff.mpr fun r hr => ?_
    obtain ⟨k, hmem, hr⟩ := List.mem_flatMap.mp hr
    obtain ⟨hne, hword⟩ := hk k hmem
    obtain ⟨c, k', rfl⟩ := List.exists_cons_of_ne_nil hne
    cases hs : Text.afterStart? (c :: k') t with
    | none => rw [hs] at hr; exact absurd hr (by simp)
    | some s =>
      rw [Text.afterStart?_eq_some_iff.mp hs] at h
      have hc : isWord c = false := not_headIsWord_of_headIsBlank h
      exact absurd (hc.symm.trans (hword c List.mem_cons_self)) Bool.false_ne_true
  rw [nameAfter_eq, hdeclared, Text.startsName_of_not_word (not_headIsWord_of_headIsBlank h)]
  rfl

/-- A declaration starts with a keyword, blanks and a name. -/
theorem declaredAt_eq (hk : ∀ k ∈ kws, IsRun k) (t : Text) :
    declaredAt kws t =
      if leadingWord t ∈ kws ∧ headIsBlank (behindWord t) = true then
        nameAfter kws (behindWord t).trimLeft else none :=
  findSome?_afterKeyword hk (fun _ h => nameAfter_of_headIsBlank hk h) t

/-- Where no word begins, no declaration does. -/
theorem declaredAt_of_not_word (hk : ∀ k ∈ kws, IsRun k) {t : Text} (h : headIsWord t = false) :
    declaredAt kws t = none := by
  rw [declaredAt_eq hk, Text.leadingWord_of_not_word h, if_neg fun h => nil_not_mem hk h.1]

/-! ## 2. Names among the tokens -/

/-- The name that some tokens start with, behind any number of keywords, where it stands and the
tokens behind it.  A keyword is the name only when no name follows it. -/
def nameOf (kws : List Text) : List (Token × α) → Option (Text × α × List (Token × α))
  | (.word w, a) :: ts =>
    (if w ∈ kws then nameOf kws ts else none).or
      (if w.head?.any Text.startsName then some (w, a, ts) else none)
  | _ => none

theorem length_nameOf {ts : List (Token × α)} {n : Text} {a : α} {rest : List (Token × α)}
    (h : nameOf kws ts = some (n, a, rest)) : rest.length < ts.length := by
  induction ts with
  | nil => exact absurd h (by simp [nameOf])
  | cons p ts ih =>
    obtain ⟨token, b⟩ := p
    cases token with
    | sign c => exact absurd h (by simp [nameOf])
    | word w =>
      rw [nameOf, Option.or_eq_some_iff] at h
      rcases h with h | ⟨-, h⟩
      · split at h
        · exact Nat.lt_succ_of_lt (ih h)
        · exact absurd h (by simp)
      · split at h
        · rw [Option.some.injEq, Prod.mk.injEq, Prod.mk.injEq] at h
          exact h.2.2 ▸ Nat.lt_succ_self _
        · exact absurd h (by simp)

/-- The name that is declared behind a token, if it is a keyword, where the name stands and the
tokens behind it. -/
def declaredBy (kws : List Text) :
    Token → List (Token × α) → Option (Text × α × List (Token × α))
  | .word w, ts => if w ∈ kws then nameOf kws ts else none
  | .sign _, _ => none

theorem length_declaredBy {token : Token} {ts : List (Token × α)} {n : Text} {a : α}
    {rest : List (Token × α)} (h : declaredBy kws token ts = some (n, a, rest)) :
    rest.length < ts.length := by
  cases token with
  | sign c => exact absurd h (by simp [declaredBy])
  | word w =>
    rw [declaredBy] at h
    split at h
    · exact length_nameOf h
    · exact absurd h (by simp)

/-- What a search of a text that starts at an offset found, and what one of its tokens found: both
nothing, or both the same name. -/
inductive Agree (o : Nat) (t : Text) :
    Option Text → Option (Text × Nat × List (Token × Nat)) → Prop
  | none : Agree o t none none
  | some (before name behind : Text) (cut : t = before ++ (name ++ behind)) (word : IsRun name)
      (ends : headIsWord behind = false) : Agree o t (some (name ++ behind))
        (some (name, o + before.length, placed (o + before.length + name.length) behind))

theorem Agree.or {o : Nat} {t : Text} {x y : Option Text}
    {x' y' : Option (Text × Nat × List (Token × Nat))} (h : Agree o t x x') (h' : Agree o t y y') :
    Agree o t (x.or y) (x'.or y') := by
  cases h with
  | none => exact h'
  | some before name behind cut word ends => exact .some before name behind cut word ends

/-- More text in front. -/
theorem Agree.append {o : Nat} {t : Text} {x : Option Text}
    {x' : Option (Text × Nat × List (Token × Nat))} (u : Text) (h : Agree (o + u.length) t x x') :
    Agree o (u ++ t) x x' := by
  cases h with
  | none => exact .none
  | some before name behind cut word ends =>
    have h := Agree.some (o := o) (t := u ++ t) (u ++ before) name behind
      (by rw [cut, List.append_assoc]) word ends
    rwa [List.length_append, ← Nat.add_assoc] at h

theorem headIsBlank_trimLeft (s : Text) : headIsBlank s.trimLeft = false := by
  rw [headIsBlank, Text.trimLeft]
  have h := List.head?_dropWhile_not isBlank s
  cases hd : (s.dropWhile isBlank).head? with
  | none => rfl
  | some d => rw [hd] at h; simpa using h

theorem placed_trimLeft {s : Text} (o : Nat) :
    ∃ g : Text, s = g ++ s.trimLeft ∧ placed o s = placed (o + g.length) s.trimLeft := by
  induction s generalizing o with
  | nil => exact ⟨[], rfl, rfl⟩
  | cons c s ih =>
    cases hc : isBlank c with
    | true =>
      obtain ⟨g, hg, hp⟩ := ih (o + 1)
      have htrim : Text.trimLeft (c :: s) = Text.trimLeft s := by simp [Text.trimLeft, hc]
      refine ⟨c :: g, by rw [htrim, List.cons_append, ← hg], ?_⟩
      rw [htrim, Text.placed_blank_cons hc, hp, List.length_cons, Nat.add_assoc, Nat.add_comm 1]
    | false =>
      have htrim : Text.trimLeft (c :: s) = c :: s := by simp [Text.trimLeft, hc]
      exact ⟨[], by rw [htrim]; rfl, by rw [htrim]; rfl⟩

/-- Where no word follows, no name does. -/
theorem nameOf_placed_none {t : Text} (hw : headIsWord t = false) (hb : headIsBlank t = false)
    (o : Nat) : nameOf kws (placed o t) = none := by
  cases t with
  | nil => rfl
  | cons c t =>
    have hw : isWord c = false := by simpa [headIsWord] using hw
    have hb : isBlank c = false := by simpa [headIsBlank] using hb
    rw [Text.placed_sign_cons hw hb]
    rfl

/-- Behind a word, a declaration is found if a name is found behind the blanks. -/
theorem agree_declaredAt (hk : ∀ k ∈ kws, IsRun k) {u s : Text} (hu : IsRun u)
    (hs : headIsWord s = false) (o : Nat)
    (ih : ∀ o, Agree o s.trimLeft (nameAfter kws s.trimLeft) (nameOf kws (placed o s.trimLeft))) :
    Agree o (u ++ s) (declaredAt kws (u ++ s))
      (declaredBy kws (.word u) (placed (o + u.length) s)) := by
  rw [declaredBy, declaredAt_eq hk, Text.leadingWord_append_run hu.2 hs, behindWord_append hu.2 hs]
  by_cases hmem : u ∈ kws
  · rw [if_pos hmem]
    cases hb : headIsBlank s with
    | true =>
      obtain ⟨g, hg, hp⟩ := placed_trimLeft (s := s) (o + u.length)
      rw [if_pos ⟨hmem, rfl⟩, hp]
      have h := ((ih (o + u.length + g.length)).append g).append u
      rwa [← hg] at h
    | false =>
      rw [if_neg (by simp), nameOf_placed_none hs hb]
      exact .none
  · rw [if_neg hmem, if_neg (fun h => hmem h.1)]
    exact .none

/-- **A name is found in a text that starts with no blank just if one is found in its tokens.**  The
search in the text may leave some of the blanks behind a keyword for what follows, which leads
nowhere, as neither a keyword nor a name starts with one.  It ends a chain of keywords sooner only
when no name is found behind it, and so does `nameOf`.  The induction is on the length of the text,
for a chain leads into the middle of it. -/
theorem agree_nameAfter (hk : ∀ k ∈ kws, IsRun k) (t : Text) : ∀ (o : Nat),
    headIsBlank t = false → Agree o t (nameAfter kws t) (nameOf kws (placed o t)) := by
  induction hn : t.length using Nat.strongRecOn generalizing t with
  | ind n ih =>
    subst hn
    intro o hb
    rw [nameAfter_eq]
    cases hw : headIsWord t with
    | false =>
      rw [nameOf_placed_none hw hb, declaredAt_of_not_word hk hw, Text.startsName_of_not_word hw]
      exact .none
    | true =>
      obtain ⟨u, s, rfl, hu, hs⟩ := Text.exists_word hw
      have hlt : s.trimLeft.length < (u ++ s).length := by
        have := List.length_pos_iff.mpr hu.1
        have := (List.dropWhile_suffix (l := s) isBlank).length_le
        rw [List.length_append, Text.trimLeft]
        omega
      have hhead : (u ++ s).head? = u.head? := by
        obtain ⟨c, u, rfl⟩ := List.exists_cons_of_ne_nil hu.1
        rfl
      rw [Text.placed_word_append hu hs, nameOf, hhead]
      refine (agree_declaredAt hk hu hs o fun o =>
        ih _ hlt _ rfl o (headIsBlank_trimLeft s)).or ?_
      split
      · exact .some [] u s rfl hu hs
      · exact .none

/-! ## 3. All declarations -/

/-- The names that some tokens declare, with the places of the names. -/
def sitesOf (kws : List Text) : List (Token × α) → List (Text × α)
  | [] => []
  | (token, _) :: ts =>
    match _h : declaredBy kws token ts with
    | some (name, a, rest) => (name, a) :: sitesOf kws rest
    | none => sitesOf kws ts
termination_by ts => ts.length
decreasing_by
  · exact Nat.lt_succ_of_lt (length_declaredBy _h)
  · exact Nat.lt_succ_self _

theorem sitesOf_none {token : Token} {ts : List (Token × α)} (h : declaredBy kws token ts = none)
    (a : α) : sitesOf kws ((token, a) :: ts) = sitesOf kws ts := by
  rw [sitesOf]
  split
  · rename_i h'
    exact absurd (h.symm.trans h') (by simp)
  · rfl

theorem sitesOf_some {token : Token} {b : α} {ts rest : List (Token × α)} {name : Text}
    (h : declaredBy kws token ts = some (name, b, rest)) (a : α) :
    sitesOf kws ((token, a) :: ts) = (name, b) :: sitesOf kws rest := by
  rw [sitesOf]
  split
  · rename_i h'
    have e := Option.some.inj (h.symm.trans h')
    simp only [Prod.mk.injEq] at e
    rw [e.1, e.2.1, e.2.2]
  · rename_i h'
    exact absurd (h.symm.trans h') (by simp)

/-- What is left of a declaration is passed over. -/
theorem sitesFrom_skip (kws : List Text) (v t : Text) : ∀ (o : Nat) (before : Bool),
    sitesFrom kws o v.length before (v ++ t) =
      sitesFrom kws (o + v.length) 0 (Text.lastIsWord before v) t := by
  induction v with
  | nil => exact fun o before => rfl
  | cons c v ih =>
    intro o before
    rw [List.cons_append, List.length_cons, sitesFrom, ih, Text.lastIsWord_cons, Nat.add_assoc,
      Nat.add_comm 1]

/-- Where no declaration starts, the search goes on behind the next character. -/
theorem sitesFrom_passed {before : Bool} {c : Char} {cs : Text}
    (h : Text.atBoundary before (c :: cs) = true → declaredAt kws (c :: cs) = none) (o : Nat) :
    sitesFrom kws o 0 before (c :: cs) = sitesFrom kws (o + 1) 0 (isWord c) cs := by
  have hnone : (if Text.atBoundary before (c :: cs) then declaredAt kws (c :: cs) else none) =
      none := by
    split
    · exact h ‹_›
    · rfl
  rw [sitesFrom, hnone]

/-- Where one starts, it goes on behind the name. -/
theorem sitesFrom_found {before : Bool} {t g name behind : Text}
    (hboundary : Text.atBoundary before t = true) (hcut : t = g ++ (name ++ behind))
    (hfound : declaredAt kws t = some (name ++ behind)) (hname : IsRun name)
    (hends : headIsWord behind = false) (o : Nat) :
    sitesFrom kws o 0 before t =
      (name, o + g.length) :: sitesFrom kws (o + g.length + name.length) 0 true behind := by
  obtain ⟨c, v, hv⟩ := List.exists_cons_of_ne_nil (List.append_ne_nil_of_right_ne_nil g hname.1)
  have ht : t = c :: (v ++ behind) := by rw [hcut, ← List.append_assoc, hv, List.cons_append]
  have hlast : Text.lastIsWord (isWord c) v = true := by
    rw [← Text.lastIsWord_cons false, ← hv, Text.lastIsWord_append, Text.lastIsWord_of_isRun hname]
  have hlength : v.length + 1 = g.length + name.length := by
    rw [← List.length_append, hv, List.length_cons]
  have hlead : t.length - (name ++ behind).length = g.length := by
    rw [hcut, List.length_append, Nat.add_sub_cancel]
  rw [ht] at hboundary hfound hlead ⊢
  rw [sitesFrom, hboundary, if_pos rfl, hfound]
  simp only
  rw [hlead, Text.leadingWord_append_run hname.2 hends, ← hlength, Nat.add_sub_cancel,
    sitesFrom_skip, hlast, Nat.add_assoc, Nat.add_assoc, ← hlength, Nat.add_comm 1]

/-- Inside a word no declaration starts. -/
theorem sitesFrom_inside {u : Text} (hu : ∀ c ∈ u, isWord c = true) (o : Nat) (t : Text) :
    sitesFrom kws o 0 true (u ++ t) = sitesFrom kws (o + u.length) 0 true t := by
  induction u generalizing o with
  | nil => rfl
  | cons c u ih =>
    have hc : isWord c = true := hu c List.mem_cons_self
    have hb : Text.atBoundary true (c :: (u ++ t)) = false := by
      simp [Text.atBoundary, headIsWord, hc]
    rw [List.cons_append, sitesFrom_passed fun h => absurd (hb.symm.trans h) Bool.false_ne_true,
      hc, ih fun d hd => hu d (List.mem_cons_of_mem _ hd), List.length_cons, Nat.add_assoc,
      Nat.add_comm 1]

/-- Over a word that declares nothing the search goes on. -/
theorem sitesFrom_word {u s : Text} (hu : IsRun u) (h : declaredAt kws (u ++ s) = none)
    (before : Bool) (o : Nat) :
    sitesFrom kws o 0 before (u ++ s) = sitesFrom kws (o + u.length) 0 true s := by
  obtain ⟨c, u, rfl⟩ := List.exists_cons_of_ne_nil hu.1
  rw [List.cons_append] at h ⊢
  rw [sitesFrom_passed fun _ => h, hu.2 c List.mem_cons_self,
    sitesFrom_inside fun d hd => hu.2 d (List.mem_cons_of_mem _ hd), List.length_cons,
    Nat.add_assoc, Nat.add_comm 1]

/-- **The declarations of a text are those among its tokens.**  In the text a search starts at every
character that a word starts with, and goes on behind the name that it found; this is the next token
there. -/
theorem sitesFrom_eq (hk : ∀ k ∈ kws, IsRun k) (t : Text) : ∀ (o : Nat) (before : Bool),
    before = false ∨ headIsWord t = false →
    sitesFrom kws o 0 before t = sitesOf kws (placed o t) := by
  induction hn : t.length using Nat.strongRecOn generalizing t with
  | ind n ih =>
    subst hn
    intro o before hbefore
    cases hw : headIsWord t with
    | false =>
      cases t with
      | nil => rw [sitesFrom, placed, sitesOf]
      | cons c cs =>
        have hc : isWord c = false := hw
        rw [sitesFrom_passed fun _ => declaredAt_of_not_word hk hw, hc,
          ih cs.length (Nat.lt_succ_self _) cs rfl (o + 1) false (Or.inl rfl)]
        cases hb : isBlank c with
        | true => rw [Text.placed_blank_cons hb]
        | false => rw [Text.placed_sign_cons hc hb, sitesOf_none rfl]
    | true =>
      obtain rfl : before = false := hbefore.resolve_right (by simp [hw])
      obtain ⟨u, s, rfl, hu, hs⟩ := Text.exists_word hw
      have hagree := agree_declaredAt hk hu hs o fun o =>
        agree_nameAfter hk s.trimLeft o (headIsBlank_trimLeft s)
      rw [Text.placed_word_append hu hs]
      have hboundary : Text.atBoundary false (u ++ s) = true := by rw [Text.atBoundary, hw]; rfl
      generalize hx : declaredAt kws (u ++ s) = x at hagree
      generalize hx' : declaredBy kws (.word u) (placed (o + u.length) s) = x' at hagree
      cases hagree with
      | none =>
        have hlt : s.length < (u ++ s).length := by
          have := List.length_pos_iff.mpr hu.1
          rw [List.length_append]
          omega
        rw [sitesOf_none hx', sitesFrom_word hu hx, ih _ hlt s rfl _ true (Or.inr hs)]
      | some front name behind cut word ends =>
        have hlt : behind.length < (u ++ s).length := by
          have := List.length_pos_iff.mpr word.1
          rw [cut, List.length_append, List.length_append]
          omega
        rw [sitesOf_some hx', sitesFrom_found hboundary cut hx word ends,
          ih _ hlt behind rfl _ true (Or.inr ends)]

/-! ## 4. Declarations at places of any kind -/

/-- What a search among tokens found, with the places of the tokens changed. -/
def mapFound (f : α → β) (found : Text × α × List (Token × α)) : Text × β × List (Token × β) :=
  (found.1, f found.2.1, found.2.2.map fun p => (p.1, f p.2))

theorem nameOf_map (f : α → β) (ts : List (Token × α)) :
    nameOf kws (ts.map fun p => (p.1, f p.2)) = (nameOf kws ts).map (mapFound f) := by
  induction ts with
  | nil => rfl
  | cons p ts ih =>
    obtain ⟨token, a⟩ := p
    cases token with
    | sign c => rfl
    | word w =>
      rw [List.map_cons, nameOf, nameOf, ih]
      cases hkw : (if w ∈ kws then nameOf kws ts else none) with
      | some found =>
        split at hkw
        · rw [if_pos ‹w ∈ kws›, hkw]
          rfl
        · exact absurd hkw (by simp)
      | none =>
        have hnone : (if w ∈ kws then (nameOf kws ts).map (mapFound f) else none) = none := by
          split at hkw
          · rw [if_pos ‹w ∈ kws›, hkw]
            rfl
          · rw [if_neg ‹w ∉ kws›]
        rw [hnone, Option.none_or, Option.none_or]
        split <;> rfl

theorem declaredBy_map (kws : List Text) (f : α → β) (token : Token) (ts : List (Token × α)) :
    declaredBy kws token (ts.map fun p => (p.1, f p.2)) =
      (declaredBy kws token ts).map (mapFound f) := by
  cases token with
  | sign c => rfl
  | word w =>
    rw [declaredBy, declaredBy]
    split
    · exact nameOf_map f ts
    · rfl

/-- **Where declarations are found does not depend on what places are.** -/
theorem sitesOf_map (kws : List Text) (f : α → β) (ts : List (Token × α)) :
    sitesOf kws (ts.map fun p => (p.1, f p.2)) =
      (sitesOf kws ts).map fun p => (p.1, f p.2) := by
  fun_induction sitesOf kws ts with
  | case1 => rw [List.map_nil, sitesOf, List.map_nil]
  | case2 token _ ts name a rest h ih =>
    have h' : declaredBy kws token (ts.map fun p => (p.1, f p.2)) =
        some (name, f a, rest.map fun p => (p.1, f p.2)) := by
      rw [declaredBy_map, h]
      rfl
    rw [List.map_cons, sitesOf_some h', ih]
    rfl
  | case3 token _ ts h ih =>
    have h' : declaredBy kws token (ts.map fun p => (p.1, f p.2)) = none := by
      rw [declaredBy_map, h]
      rfl
    rw [List.map_cons, sitesOf_none h', ih]

/-- A declared name is one of the tokens. -/
theorem mem_of_nameOf {ts : List (Token × α)} {n : Text} {a : α} {rest : List (Token × α)}
    (h : nameOf kws ts = some (n, a, rest)) : (.word n, a) ∈ ts ∧ rest ⊆ ts := by
  induction ts with
  | nil => exact absurd h (by simp [nameOf])
  | cons p ts ih =>
    obtain ⟨token, b⟩ := p
    cases token with
    | sign c => exact absurd h (by simp [nameOf])
    | word w =>
      rw [nameOf, Option.or_eq_some_iff] at h
      rcases h with h | ⟨-, h⟩
      · split at h
        · obtain ⟨h1, h2⟩ := ih h
          exact ⟨List.mem_cons_of_mem _ h1, fun x hx => List.mem_cons_of_mem _ (h2 hx)⟩
        · exact absurd h (by simp)
      · split at h
        · simp only [Option.some.injEq, Prod.mk.injEq] at h
          obtain ⟨rfl, rfl, rfl⟩ := h
          exact ⟨List.mem_cons_self, fun x hx => List.mem_cons_of_mem _ hx⟩
        · exact absurd h (by simp)

theorem mem_of_mem_sitesOf {ts : List (Token × α)} {n : Text} {a : α}
    (h : (n, a) ∈ sitesOf kws ts) : (.word n, a) ∈ ts := by
  fun_induction sitesOf kws ts with
  | case1 => exact absurd h List.not_mem_nil
  | case2 token _ ts name b rest hd ih =>
    cases token with
    | sign c => exact absurd hd (by simp [declaredBy])
    | word w =>
      rw [declaredBy] at hd
      split at hd
      · obtain ⟨h1, h2⟩ := mem_of_nameOf hd
        rcases List.mem_cons.mp h with e | h
        · rw [Prod.mk.injEq] at e
          exact List.mem_cons_of_mem _ (e.1 ▸ e.2 ▸ h1)
        · exact List.mem_cons_of_mem _ (h2 (ih h))
      · exact absurd hd (by simp)
  | case3 token _ ts hd ih => exact List.mem_cons_of_mem _ (ih h)

/-! ## 4. The usual keywords -/

theorem tried_standard : tried Dialect.standard.declarationKeywords =
    ["sharedTrance", "implant", "induce", "freeze", "embed"].map String.toList := by
  simp +decide [tried, Dialect.standard, List.mergeSort,
    List.MergeSort.Internal.splitInTwo]

/-- The declarations of a text in the usual dialect, in a form in which they can be worked out. -/
theorem sites_standard (code : Text) : sites .standard code =
    sitesOf (["sharedTrance", "implant", "induce", "freeze", "embed"].map String.toList)
      (placed 0 code) := by
  rw [sites, tried_standard]
  exact sitesFrom_eq (by decide) code 0 false (Or.inl rfl)

end Declaration
end HypnoScript
