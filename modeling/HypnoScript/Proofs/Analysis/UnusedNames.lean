/-
# Variables that are never used

A variable counts as used when its name stands in the code more often than it is declared.  The two
numbers come from two searches, and comparing them tells what it is meant to tell, whatever the
keywords of a dialect are.  A declared name stands behind a blank, and is as long as it can be, so
every declaration is an occurrence of the name as a whole word (`standsWhole_of_mem_sites`).
Declarations are found from the left and do not overlap, so none is counted twice
(`pairwise_sites`).  So the numbers are equal just when the name stands nowhere but where it is
declared (`used_eq_false_iff`), and for the variables of which that is true there is a hint at every
declaration (`hints_exact`).

What a declaration looks like is not asked here, so the keywords may be any texts: empty ones, and
such as have blanks in them.
-/
import Mathlib.Data.List.Perm.Subperm
import HypnoScript.Proofs.Analysis.DeclaredNames

namespace HypnoScript

open Text (wordOffsets IsIdentifier StandsWhole)

namespace Declaration

variable {dialect : Dialect} {code name : Text} {o n : Nat}

/-! ## 1. Sites -/

theorem isIdentifier_of_mem_sites (h : (name, n) ∈ sites dialect code) : IsIdentifier name :=
  ⟨(exists_of_mem_sites h).1.1, (exists_of_mem_sites h).1.2⟩

/-- **A declared name stands as a whole word where it is declared.** -/
theorem standsWhole_of_mem_sites (h : (name, n) ∈ sites dialect code) :
    StandsWhole 0 code name n := by
  obtain ⟨-, p, q, hcode, hn, hp, hq⟩ := exists_of_mem_sites h
  exact ⟨p, q, hcode, hn, Text.lastIsWord_of_last hp false, hq⟩

/-- At one place at most one name is declared. -/
theorem eq_of_mem_sites {name' : Text} (h : (name, n) ∈ sites dialect code)
    (h' : (name', n) ∈ sites dialect code) : name = name' := by
  obtain ⟨i, hi, hname⟩ := List.getElem_of_mem h
  obtain ⟨j, hj, hname'⟩ := List.getElem_of_mem h'
  have hsorted := List.pairwise_iff_getElem.mp (pairwise_sites dialect code)
  have hij : i = j := by
    rcases Nat.lt_trichotomy i j with hlt | rfl | hlt
    · have := hsorted i j hi hj hlt
      rw [hname, hname'] at this
      exact absurd this (Nat.lt_irrefl n)
    · rfl
    · have := hsorted j i hj hi hlt
      rw [hname, hname'] at this
      exact absurd this (Nat.lt_irrefl n)
  subst hij
  exact congrArg Prod.fst (hname.symm.trans hname')

/-! ## 2. Counting -/

theorem pairwise_declarations {v : Variable} (hv : v ∈ «variables» dialect code) :
    v.declarations.Pairwise (· < ·) := by
  obtain ⟨name, -, rfl⟩ := List.mem_map.mp hv
  exact List.pairwise_map.mpr ((pairwise_sites dialect code).filter _)

theorem isRun_name {v : Variable} (hv : v ∈ «variables» dialect code) : Text.IsRun v.name := by
  obtain ⟨o, ho⟩ := exists_mem_sites hv
  exact (isIdentifier_of_mem_sites ho).isRun

/-- A variable is told by its name. -/
theorem eq_of_name_eq {v v' : Variable} (hv : v ∈ «variables» dialect code)
    (hv' : v' ∈ «variables» dialect code) (h : v.name = v'.name) : v = v' := by
  obtain ⟨n, -, rfl⟩ := List.mem_map.mp hv
  obtain ⟨n', -, rfl⟩ := List.mem_map.mp hv'
  obtain rfl : n = n' := h
  rfl

/-- The occurrences of a variable are the places where its name stands as a whole word. -/
theorem occurrences_eq {v : Variable} (hv : v ∈ «variables» dialect code) :
    v.occurrences = (wordOffsets v.name code).length := by
  obtain ⟨name, -, rfl⟩ := List.mem_map.mp hv
  rfl

theorem standsWhole_of_mem_declarations {v : Variable} (hv : v ∈ «variables» dialect code)
    (ho : o ∈ v.declarations) : StandsWhole 0 code v.name o :=
  standsWhole_of_mem_sites (mem_sites_of_mem_declarations hv ho)

/-- **Every declaration is counted among the occurrences**, and none of them twice.  So the number
of declarations is never the greater one of the two. -/
theorem subperm_wordOffsets {v : Variable} (hv : v ∈ «variables» dialect code) :
    v.declarations.Subperm (wordOffsets v.name code) := by
  have hnodup : v.declarations.Nodup := (pairwise_declarations hv).imp Nat.ne_of_lt
  refine hnodup.subperm fun o ho => ?_
  rw [Text.mem_wordOffsets_iff (isRun_name hv)]
  exact standsWhole_of_mem_declarations hv ho

/-- The name of a variable stands nowhere but where it is declared. -/
def Variable.OnlyDeclared (code : Text) (v : Variable) : Prop :=
  ∀ n, StandsWhole 0 code v.name n → n ∈ v.declarations

/-- **A variable counts as unused just when its name stands nowhere but where it is declared.**  As
the declarations are some of the occurrences, with none counted twice, they are all of them just
when the numbers are equal. -/
theorem used_eq_false_iff {v : Variable} (hv : v ∈ «variables» dialect code) :
    v.used = false ↔ v.OnlyDeclared code := by
  have hsub := subperm_wordOffsets hv
  have hmem (n : Nat) := Text.mem_wordOffsets_iff (isRun_name hv) code n
  rw [Variable.used, decide_eq_false_iff_not, Nat.not_lt, occurrences_eq hv]
  constructor
  · intro hle n hn
    exact (hsub.perm_of_length_le hle).mem_iff.mpr ((hmem n).mpr hn)
  · intro honly
    have hoffsets : wordOffsets v.name code ⊆ v.declarations :=
      fun n hn => honly n ((hmem n).mp hn)
    exact ((Text.nodup_wordOffsets (isRun_name hv) code).subperm hoffsets).length_le

/-! ## 3. The order of the variables -/

/-- The names of sites that stand from the left are in the order of their first sites. -/
theorem pairwise_names {found : List (Text × Nat)} (hfound : found.Pairwise (·.2 < ·.2)) :
    (names found).Pairwise fun a b =>
      ∃ o, (a, o) ∈ found ∧ ∀ o', (b, o') ∈ found → o < o' := by
  induction found with
  | nil => exact .nil
  | cons p found ih =>
    obtain ⟨name, i⟩ := p
    obtain ⟨hfirst, hfound⟩ := List.pairwise_cons.mp hfound
    -- Of the other names none is that of the first site, so their sites are among the others.
    have hother {b : Text} {o' : Nat} (hb : b ∈ (names found).filter (· ≠ name))
        (ho' : (b, o') ∈ (name, i) :: found) : (b, o') ∈ found := by
      rcases List.mem_cons.mp ho' with h | h
      · cases h
        exact absurd (List.mem_filter.mp hb).2 (by simp)
      · exact h
    refine .cons (fun b hb => ⟨i, List.mem_cons_self, fun o' ho' => ?_⟩) ?_
    · exact hfirst _ (hother hb ho')
    · refine ((ih hfound).filter _).imp_of_mem fun _ hb hab => ?_
      obtain ⟨o, ho, hlt⟩ := hab
      exact ⟨o, List.mem_cons_of_mem _ ho, fun o' ho' => hlt o' (hother hb ho')⟩

/-- **Variables are in the order of their first declarations.** -/
theorem pairwise_variables (dialect : Dialect) (code : Text) :
    («variables» dialect code).Pairwise fun v v' =>
      ∃ o ∈ v.declarations, ∀ o' ∈ v'.declarations, o < o' := by
  refine List.pairwise_map.mpr ?_
  refine (pairwise_names (pairwise_sites dialect code)).imp_of_mem fun ha hb hab => ?_
  obtain ⟨o, ho, hlt⟩ := hab
  refine ⟨o, (mem_declarations_iff (List.mem_map_of_mem ha)).mpr ho, fun o' ho' => ?_⟩
  exact hlt o' ((mem_declarations_iff (List.mem_map_of_mem hb)).mp ho')

/-- **No place is recorded twice**, neither for one variable nor for two: a name that is declared at
a place is all that can be declared there. -/
theorem nodup_declarations {vs : List Variable} (hvs : vs.Sublist («variables» dialect code)) :
    (vs.flatMap Variable.declarations).Nodup := by
  have hnames : (vs.map Variable.name).Nodup := by
    refine List.Pairwise.sublist (hvs.map _) ?_
    rw [map_name_variables]
    exact nodup_names _
  rw [List.Nodup, List.pairwise_flatMap]
  constructor
  · intro v hv
    exact (pairwise_declarations (hvs.subset hv)).imp Nat.ne_of_lt
  · refine (List.pairwise_map.mp hnames).imp_of_mem ?_
    intro v v' hv hv' hne o ho o' ho'
    rintro rfl
    exact hne (eq_of_mem_sites (mem_sites_of_mem_declarations (hvs.subset hv) ho)
      (mem_sites_of_mem_declarations (hvs.subset hv') ho'))

/-! ## 4. The hints -/

/-- The hints are those about all declarations of the variables that are not used. -/
theorem check_eq (dialect : Dialect) (w : Wording) (d : Document) :
    check dialect w d = ((«variables» dialect d.code).filter fun v => !v.used).flatMap
      fun v => v.declarations.map (hintAt w d v.name) := by
  rw [check]
  induction «variables» dialect d.code with
  | nil => rfl
  | cons v vs ih =>
    rw [List.flatMap_cons, ih]
    cases hv : v.used with
    | true =>
      rw [List.filter_cons_of_neg (by simp [hv]), if_pos rfl, List.nil_append]
    | false =>
      rw [List.filter_cons_of_pos (by simp [hv]), if_neg Bool.false_ne_true, List.flatMap_cons]
      rfl

/-- Two places of the code at one position are the same. -/
theorem eq_of_positionAt_eq {t u u' : Text} {o o' : Nat}
    (h : StandsWhole 0 (Document.ofText t).code u o)
    (h' : StandsWhole 0 (Document.ofText t).code u' o')
    (heq : (Document.ofText t).positionAt o = (Document.ofText t).positionAt o') : o = o' := by
  have hinside {u : Text} {o : Nat} (h : StandsWhole 0 (Document.ofText t).code u o) :
      o ≤ t.length := by
    obtain ⟨p, q, hcode, hp, -⟩ := h
    have hlength : (Document.ofText t).code.length = t.length := Mask.length_scan .code t
    rw [← hlength, hcode, List.length_append]
    omega
  rw [← Document.offsetAt_positionAt (hinside h), heq, Document.offsetAt_positionAt (hinside h')]

/-- What is recorded about the names that some code declares. -/
structure Recorded (code : Text) (vs : List Variable) : Prop where
  /-- Where a name is declared, it stands as a whole word. -/
  standsWhole : ∀ v ∈ vs, ∀ o ∈ v.declarations, StandsWhole 0 code v.name o
  /-- No place is recorded twice. -/
  nodup : (vs.flatMap Variable.declarations).Nodup
  /-- All the places where a name stands as a whole word are counted, each one once. -/
  counted : ∀ v ∈ vs, ∃ os : List Nat, os.Nodup ∧ (∀ n, n ∈ os ↔ StandsWhole 0 code v.name n) ∧
    v.occurrences = os.length
  /-- There are no fewer of them than declarations. -/
  declared_le : ∀ v ∈ vs, v.declarations.length ≤ v.occurrences
  /-- The declarations of a name are recorded from the left, … -/
  fromLeft : ∀ v ∈ vs, v.declarations.Pairwise (· < ·)
  /-- … and the names in the order of their first declarations. -/
  inOrder : vs.Pairwise fun v v' => ∃ o ∈ v.declarations, ∀ o' ∈ v'.declarations, o < o'

theorem recorded_variables (dialect : Dialect) (code : Text) :
    Recorded code («variables» dialect code) where
  standsWhole _ hv _ := standsWhole_of_mem_declarations hv
  nodup := nodup_declarations (List.Sublist.refl _)
  counted v hv := ⟨wordOffsets v.name code, Text.nodup_wordOffsets (isRun_name hv) code,
    Text.mem_wordOffsets_iff (isRun_name hv) code, occurrences_eq hv⟩
  declared_le _ hv := occurrences_eq hv ▸ (subperm_wordOffsets hv).length_le
  fromLeft _ := pairwise_declarations
  inOrder := pairwise_variables dialect code

/-- **There is a hint at a declaration just when the name stands nowhere else.** -/
theorem exists_hint_iff {w : Wording} {t : Text} {v : Variable}
    (hv : v ∈ «variables» dialect (Document.ofText t).code) (ho : o ∈ v.declarations) :
    (∃ g ∈ check dialect w (.ofText t), g.range.start = (Document.ofText t).positionAt o) ↔
      v.OnlyDeclared (Document.ofText t).code := by
  rw [← used_eq_false_iff hv]
  constructor
  · rintro ⟨g, hg, hstart⟩
    obtain ⟨v', hv', hused, o', ho', rfl⟩ := mem_check_iff.mp hg
    have hsite := mem_sites_of_mem_declarations hv' ho'
    have hplace : o' = o := eq_of_positionAt_eq (standsWhole_of_mem_sites hsite)
      (standsWhole_of_mem_declarations hv ho) hstart
    subst hplace
    have hname : v'.name = v.name := eq_of_mem_sites hsite (mem_sites_of_mem_declarations hv ho)
    rwa [← eq_of_name_eq hv' hv hname]
  · intro hused
    exact ⟨_, mem_check_iff.mpr ⟨v, hv, hused, o, ho, rfl⟩, rfl⟩

/-- **At no place there are two hints.**  Hints stand at different offsets, and different offsets of
a text have different positions. -/
theorem nodup_hints (dialect : Dialect) (w : Wording) (t : Text) :
    ((check dialect w (.ofText t)).map fun g => g.range.start).Nodup := by
  generalize hvs : («variables» dialect (Document.ofText t).code).filter (fun v => !v.used) = vs
  have hsub : vs.Sublist («variables» dialect (Document.ofText t).code) :=
    hvs ▸ List.filter_sublist
  have hstarts : (check dialect w (.ofText t)).map (fun g => g.range.start) =
      (vs.flatMap Variable.declarations).map fun (o : Nat) => (Document.ofText t).positionAt o := by
    rw [check_eq, hvs, List.map_flatMap, List.map_flatMap]
    refine List.flatMap_congr fun v _ => ?_
    rw [List.map_map]
    rfl
  have hstands {o : Nat} (ho : o ∈ vs.flatMap Variable.declarations) :
      ∃ u, StandsWhole 0 (Document.ofText t).code u o := by
    obtain ⟨v, hv, ho⟩ := List.mem_flatMap.mp ho
    exact ⟨v.name, standsWhole_of_mem_declarations (hsub.subset hv) ho⟩
  rw [hstarts, List.Nodup, List.pairwise_map]
  refine (nodup_declarations hsub).imp_of_mem ?_
  intro o o' ho ho' hne heq
  obtain ⟨u, hu⟩ := hstands ho
  obtain ⟨u', hu'⟩ := hstands ho'
  exact hne (eq_of_positionAt_eq hu hu' heq)

/-- **Hints about unused variables are exact**, whatever the keywords of the dialect are.  Of the
names that the code declares, what has to be recorded is recorded.  At a declaration there is a hint
just when the name stands nowhere as a whole word but where it is declared, and then there is one;
the hints are grouped by name, and the names are in the order of their first declarations.

The check compares two numbers that come from different searches, one for words and one for
declarations.  It would be wrong if a declaration were no whole word, or were found twice; neither
can be, whatever the keywords look like, and this is what the proof is about. -/
theorem hints_exact (dialect : Dialect) (w : Wording) (t : Text) :
    let d := Document.ofText t
    let vs := «variables» dialect d.code
    Recorded d.code vs ∧
      (∀ v ∈ vs, ∀ o ∈ v.declarations,
        (∃ g ∈ check dialect w d, g.range.start = d.positionAt o) ↔ v.OnlyDeclared d.code) ∧
      ((check dialect w d).map fun g => g.range.start).Nodup ∧
      ∃ unused : List Variable, unused.Sublist vs ∧
        (∀ v ∈ vs, v ∈ unused ↔ v.OnlyDeclared d.code) ∧
        check dialect w d = unused.flatMap fun v => v.declarations.map (hintAt w d v.name) := by
  intro d vs
  refine ⟨recorded_variables dialect d.code, ?_, nodup_hints dialect w t,
    vs.filter fun v => !v.used, List.filter_sublist, ?_, check_eq dialect w d⟩
  · intro v hv o ho
    exact exists_hint_iff hv ho
  · intro v hv
    rw [List.mem_filter, Bool.not_eq_true', used_eq_false_iff hv, and_iff_right hv]

/-- Of two names that are declared, one stands nowhere else, and that is the one with a hint. -/
theorem hints_exact_unused :
    let t := "induce x = 1;\ninduce y = 2;\nobserve y;".toList
    let d := Document.ofText t
    let x : Variable := ⟨"x".toList, [7], 1⟩
    let y : Variable := ⟨"y".toList, [21], 2⟩
    «variables» .standard d.code = [x, y] ∧
      check .standard .standard d = [hintAt .standard d x.name 7] ∧
      x.OnlyDeclared d.code ∧ ¬ y.OnlyDeclared d.code := by
  intro t d x y
  have hsites : sites .standard d.code = [(x.name, 7), (y.name, 21)] := by
    rw [sites_eq_sitesBeside (by decide) (by decide), tried_standard]
    decide +kernel
  have hvariables : «variables» .standard d.code = [x, y] := by
    rw [«variables», hsites]
    decide +kernel
  have hcheck : check .standard .standard d = [hintAt .standard d x.name 7] := by
    rw [check, hvariables]
    rfl
  obtain ⟨-, hiff, -, -⟩ := hints_exact .standard .standard t
  have hx := hiff x (by rw [hvariables]; exact List.mem_cons_self) 7 List.mem_cons_self
  have hy := hiff y (by rw [hvariables]; exact List.mem_cons_of_mem _ List.mem_cons_self) 21
    List.mem_cons_self
  rw [hcheck] at hx hy
  refine ⟨hvariables, hcheck, hx.mp ⟨_, List.mem_cons_self, rfl⟩, fun h => ?_⟩
  obtain ⟨g, hg, hstart⟩ := hy.mpr h
  obtain rfl := List.mem_singleton.mp hg
  exact absurd hstart (by decide +kernel)

end Declaration
end HypnoScript
