/-
# Commands that rewrite files

Two commands rewrite the files that they select by a change of their texts, one file after the
other: a file is written, and then its path is printed.  What comes of that is said by `Rewrites`.
At an obstacle no file is touched.  Without one, all files that are selected are read before the
first one is written, and each is changed in its turn; a file that is selected more than once is no
exception.

The paths are printed as they are, and a terminal may take a part of a path for a mark and refuse
it.  Then the command breaks off behind a file that has been written, and those that come later stay
as they were (`Rewrites.broken`).  So rewriting is all or nothing (`AllOrNothing`) only as long as
nothing hinders it (`Unhindered`): all paths can be looked up, the terminal shows what is printed,
and the indentation is not too wide.
-/
import HypnoScript.Proofs.Command.Printing
import HypnoScript.Proofs.Command.Request
import HypnoScript.Proofs.Command.Sources
import HypnoScript.Proofs.QuickFix.Convergence

namespace HypnoScript
namespace Command

open Text.Utf8 (encode)

variable {t t' : FileTree} {folder l : Location} {paths : List Path} {c : Terminal} {j : Job}
  {s : Source} {sources : List Source} {u v : Text}

/-! ## 1. One file -/

/-- A job makes the text of a file a different one. -/
def Job.Alters (j : Job) (s : Source) (u : Text) : Prop := j.change s.text = .ok u ∧ u ≠ s.text

/-- A job breaks off at a file. -/
inductive Job.Breaks (c : Terminal) (j : Job) (s : Source) : Crash → Prop
  /-- The text of the file cannot be changed. -/
  | change {e : Crash} (failure : j.change s.text = .error e) : j.Breaks c s e
  /-- The file gets a new text, but the terminal refuses the line about it. -/
  | line {u : Text} {message : String} (alters : j.Alters s u)
    (refused : c.render (j.line s.path).source = .error message) : j.Breaks c s (.marks message)

/-- A job gets past some files. -/
def Job.Passes (c : Terminal) (j : Job) (sources : List Source) : Prop :=
  ∀ s ∈ sources, ∀ e, ¬ j.Breaks c s e

theorem Job.Alters.unique (h : j.Alters s u) (h' : j.Alters s v) : u = v :=
  Except.ok.inj (h.1.symm.trans h'.1)

theorem Job.passes_cons :
    j.Passes c (s :: sources) ↔ (∀ e, ¬ j.Breaks c s e) ∧ j.Passes c sources :=
  List.forall_mem_cons

/-- The tree behind one file of a job. -/
def Job.writeOne (j : Job) (t : FileTree) (s : Source) : FileTree :=
  match j.change s.text with
  | .error _ => t
  | .ok u => if j.writes ∧ u ≠ s.text then t.write s.location (encode u) else t

theorem Job.writeOne_of_alters (hwrites : j.writes = true) (h : j.Alters s u) :
    j.writeOne t s = t.write s.location (encode u) := by
  simp [Job.writeOne, h.1, h.2, hwrites]

theorem Job.writeOne_eq_self (h : j.writes = true → ∀ u, ¬ j.Alters s u) : j.writeOne t s = t := by
  rw [Job.writeOne]
  cases hchange : j.change s.text with
  | error e => rfl
  | ok u => exact if_neg fun hu => h hu.1 u ⟨hchange, hu.2⟩

theorem Job.alike_writeOne (j : Job) (t : FileTree) (s : Source) : t.Alike (j.writeOne t s) := by
  by_cases h : j.writes = true ∧ ∃ u, j.Alters s u
  · obtain ⟨hwrites, u, hu⟩ := h
    rw [Job.writeOne_of_alters hwrites hu]
    exact FileTree.alike_write t _ _
  · rw [Job.writeOne_eq_self fun hwrites u hu => h ⟨hwrites, u, hu⟩]
    exact .refl t

/-- What a file holds behind one file of a job: only that file can have a new text. -/
theorem Job.read?_writeOne_of_ne (h : s.location = l → ∀ u, ¬ j.Alters s u) :
    (j.writeOne t s).read? l = t.read? l := by
  by_cases hs : j.writes = true ∧ ∃ u, j.Alters s u
  · obtain ⟨hwrites, u, hu⟩ := hs
    rw [Job.writeOne_of_alters hwrites hu, FileTree.read?_write, if_neg]
    exact fun hl => h hl.symm u hu
  · rw [Job.writeOne_eq_self fun hwrites u hu => hs ⟨hwrites, u, hu⟩]

/-- **One step of a job.**  It breaks off at the file, or it has nothing to do with it, or it prints
a line about it; in each case the tree behind it is that of `writeOne`. -/
theorem Job.carryOut_cons (c : Terminal) (j : Job) (t : FileTree) (s : Source)
    (sources : List Source) :
    (∃ e, j.Breaks c s e ∧ j.carryOut c t (s :: sources) = (.error e, j.writeOne t s)) ∨
    (∀ e, ¬ j.Breaks c s e) ∧
      (((∀ u, ¬ j.Alters s u) ∧
          j.carryOut c t (s :: sources) = j.carryOut c (j.writeOne t s) sources) ∨
        ∃ u line, j.Alters s u ∧ j.carryOut c t (s :: sources) =
          ((j.carryOut c (j.writeOne t s) sources).1.map (line :: ·),
            (j.carryOut c (j.writeOne t s) sources).2)) := by
  rw [Job.carryOut]
  cases hchange : j.change s.text with
  | error e =>
    refine Or.inl ⟨e, .change hchange, ?_⟩
    simp [Job.writeOne, hchange]
  | ok u =>
    by_cases hu : u = s.text
    · refine Or.inr ⟨?_, Or.inl ⟨?_, ?_⟩⟩
      · rintro e (hfail | ⟨⟨hv, hne⟩, -⟩)
        · simp [hchange] at hfail
        · exact hne ((Except.ok.inj (hv.symm.trans hchange)).trans hu)
      · rintro v ⟨hv, hne⟩
        exact hne ((Except.ok.inj (hv.symm.trans hchange)).trans hu)
      · simp [Job.writeOne, hchange, hu]
    · have halters : j.Alters s u := ⟨hchange, hu⟩
      have htree : (if j.writes = true then t.write s.location (encode u) else t) =
          j.writeOne t s := by simp [Job.writeOne, hchange, hu]
      dsimp only
      rw [if_neg hu, htree, shown]
      cases hrender : c.render (j.line s.path).source with
      | error message => exact Or.inl ⟨_, .line halters hrender, rfl⟩
      | ok line =>
        refine Or.inr ⟨?_, Or.inr ⟨u, line, halters, rfl⟩⟩
        rintro e (hfail | ⟨-, hrefused⟩)
        · simp [hchange] at hfail
        · simp [hrender] at hrefused

/-! ## 2. Many files -/

/-- The tree behind some files of a job. -/
def Job.writeAll (j : Job) (t : FileTree) (sources : List Source) : FileTree :=
  sources.foldl j.writeOne t

/-- **The course of a job**: it gets past all files, or it breaks off at one of them, which may have
been written before. -/
theorem Job.carryOut_cases (c : Terminal) (j : Job) (t : FileTree) (sources : List Source) :
    (∃ lines, j.carryOut c t sources = (.ok lines, j.writeAll t sources) ∧ j.Passes c sources ∧
      (lines = [] ↔ ∀ s ∈ sources, ∀ u, ¬ j.Alters s u)) ∨
    ∃ before s after e, sources = before ++ s :: after ∧ j.Passes c before ∧ j.Breaks c s e ∧
      j.carryOut c t sources = (.error e, j.writeAll t (before ++ [s])) := by
  induction sources generalizing t with
  | nil => exact Or.inl ⟨[], rfl, nofun, by simp⟩
  | cons s sources ih =>
    rcases j.carryOut_cons c t s sources with ⟨e, he, hrun⟩ | ⟨hpass, hstep⟩
    · exact Or.inr ⟨[], s, sources, e, rfl, nofun, he, hrun⟩
    rcases ih (j.writeOne t s) with
      ⟨lines, hrest, hpasses, hnil⟩ | ⟨before, s', after, e, rfl, hpasses, he, hrest⟩
    · left
      rcases hstep with ⟨hsame, hrun⟩ | ⟨u, line, hu, hrun⟩
      · refine ⟨lines, hrun.trans hrest, Job.passes_cons.mpr ⟨hpass, hpasses⟩, ?_⟩
        rw [hnil, List.forall_mem_cons, and_iff_right hsame]
      · rw [hrest] at hrun
        refine ⟨line :: lines, hrun, Job.passes_cons.mpr ⟨hpass, hpasses⟩, ?_⟩
        refine iff_of_false (List.cons_ne_nil _ _) fun hall => ?_
        exact hall s List.mem_cons_self u hu
    · refine Or.inr ⟨s :: before, s', after, e, rfl, Job.passes_cons.mpr ⟨hpass, hpasses⟩, he, ?_⟩
      rcases hstep with ⟨-, hrun⟩ | ⟨u, line, -, hrun⟩
      · exact hrun.trans hrest
      · rw [hrest] at hrun
        exact hrun

/-! ## 3. What the files hold in the end -/

/-- What has become of a tree when some of the files that were read have been rewritten. -/
structure Job.Rewritten (j : Job) (sources : List Source) (t t' : FileTree) : Prop where
  /-- The files that get new texts hold them, -/
  written : j.writes = true → ∀ s ∈ sources, ∀ u, j.Alters s u →
    t'.read? s.location = some (encode u)
  /-- and all others what they held. -/
  kept : ∀ l, (∀ s ∈ sources, s.location = l → ∀ u, ¬ j.Alters s u) → t'.read? l = t.read? l
  /-- Where there is nothing to write, all stays as it was. -/
  idle : (j.writes = true → ∀ s ∈ sources, ∀ u, ¬ j.Alters s u) → t' = t
  /-- No file or folder comes or goes. -/
  alike : t.Alike t'

theorem Job.writeAll_eq_self (h : j.writes = true → ∀ s ∈ sources, ∀ u, ¬ j.Alters s u) :
    j.writeAll t sources = t := by
  induction sources with
  | nil => rfl
  | cons s sources ih =>
    have hone : j.writeOne t s = t :=
      Job.writeOne_eq_self fun hwrites => h hwrites s List.mem_cons_self
    rw [Job.writeAll, List.foldl_cons, hone]
    exact ih fun hwrites s' hs' => h hwrites s' (List.mem_cons_of_mem _ hs')

theorem Job.alike_writeAll (j : Job) (t : FileTree) (sources : List Source) :
    t.Alike (j.writeAll t sources) := by
  induction sources generalizing t with
  | nil => exact .refl t
  | cons s sources ih => exact (j.alike_writeOne t s).trans (ih _)

theorem Job.read?_writeAll_of_ne (h : ∀ s ∈ sources, s.location = l → ∀ u, ¬ j.Alters s u) :
    (j.writeAll t sources).read? l = t.read? l := by
  induction sources generalizing t with
  | nil => rfl
  | cons s sources ih =>
    obtain ⟨hs, hsources⟩ := List.forall_mem_cons.mp h
    exact (ih hsources).trans (Job.read?_writeOne_of_ne hs)

/-- A file that is read more than once gets the same text each time, and holds it in the end. -/
theorem Job.read?_writeAll (hwrites : j.writes = true) (hmem : ∃ s ∈ sources, s.location = l)
    (hsame : ∀ s ∈ sources, s.location = l → j.Alters s u) (held : (t.read? l).isSome) :
    (j.writeAll t sources).read? l = some (encode u) := by
  induction sources generalizing t with
  | nil =>
    obtain ⟨s, hs, -⟩ := hmem
    exact absurd hs List.not_mem_nil
  | cons s sources ih =>
    obtain ⟨hs, hsources⟩ := List.forall_mem_cons.mp hsame
    have held' : ((j.writeOne t s).read? l).isSome :=
      ((j.alike_writeOne t s).isSome_read? l).trans held
    by_cases hrest : ∃ s' ∈ sources, s'.location = l
    · exact ih hrest hsources held'
    · -- Nothing is written there any more, so the first text stays.
      obtain ⟨s', hs', hl⟩ := hmem
      rcases List.mem_cons.mp hs' with rfl | hs'
      · calc (j.writeAll (j.writeOne t s') sources).read? l
            = (j.writeOne t s').read? l :=
              Job.read?_writeAll_of_ne fun d hd hdl => absurd ⟨d, hd, hdl⟩ hrest
          _ = some (encode u) := by
              obtain ⟨octets, hoctets⟩ := Option.isSome_iff_exists.mp held
              rw [Job.writeOne_of_alters hwrites (hs hl), FileTree.read?_write, if_pos hl.symm, hl,
                hoctets]
              rfl
      · exact absurd ⟨s', hs', hl⟩ hrest

/-- Some of the files that are selected are rewritten: those at one place all have one text. -/
theorem AreSelected.rewritten (h : AreSelected t folder paths sources) {done : List Source}
    (hdone : ∀ s ∈ done, s ∈ sources) (j : Job) :
    j.Rewritten done t (j.writeAll t done) where
  written hwrites s hs u hu := by
    obtain ⟨-, holds⟩ := (h s).mp (hdone s hs)
    refine Job.read?_writeAll hwrites ⟨s, hs, rfl⟩ (fun s' hs' hl => ?_) ?_
    · obtain ⟨-, holds'⟩ := (h s').mp (hdone s' hs')
      rw [hl] at holds'
      rwa [Job.Alters, holds'.unique holds]
    · obtain ⟨v, hv, -⟩ := holds
      rw [hv]
      rfl
  kept l := Job.read?_writeAll_of_ne
  idle := Job.writeAll_eq_self
  alike := j.alike_writeAll t done

/-! ## 4. Commands -/

/-- The exit code of a job that got past all files. -/
def Job.Ends (j : Job) (sources : List Source) (exitCode : Nat) : Prop :=
  exitCode = 1 ∧ j.isStrict = true ∧ (∃ s ∈ sources, ∃ u, j.Alters s u) ∨
    exitCode = 0 ∧ ¬ (j.isStrict = true ∧ ∃ s ∈ sources, ∃ u, j.Alters s u)

/-- What a command that rewrites files leads to. -/
inductive Rewrites (p : Place) (paths : List Path) (j : Job) : Outcome × FileTree → Prop
  /-- Some file cannot be worked on; the terminal shows why, and no file is touched. -/
  | refused {f : SourceFailure} {line : Text} {o : Outcome}
    (read : readSources p.tree p.folder paths = .error (.failure f))
    (obstacle : Obstructed p.tree p.folder paths (.failure f))
    (shows : shown p.terminal f.message = .ok line) (exitCode : o.exitCode = 2)
    (errors : o.errors = [line]) : Rewrites p paths j (o, p.tree)
  /-- Some file cannot be worked on, and the terminal refuses to show why; no file is touched. -/
  | muted {f : SourceFailure} {e : Crash}
    (read : readSources p.tree p.folder paths = .error (.failure f))
    (obstacle : Obstructed p.tree p.folder paths (.failure f))
    (refuses : shown p.terminal f.message = .error e) : Rewrites p paths j (.crashed e, p.tree)
  /-- Some path cannot be looked up; no file is touched. -/
  | barred {e : Crash} (read : readSources p.tree p.folder paths = .error (.crash e))
    (obstacle : Obstructed p.tree p.folder paths (.crash e)) :
    Rewrites p paths j (.crashed e, p.tree)
  /-- All files have been read, but the job breaks off at one of them: those before it, and it, have
  been rewritten, and those behind it have not. -/
  | broken {before after : List Source} {s : Source} {e : Crash} {t : FileTree}
    (read : readSources p.tree p.folder paths = .ok (before ++ s :: after))
    (passes : j.Passes p.terminal before) (breaks : j.Breaks p.terminal s e)
    (rewritten : j.Rewritten (before ++ [s]) p.tree t) : Rewrites p paths j (.crashed e, t)
  /-- All files have been read and rewritten. -/
  | done {sources : List Source} {o : Outcome} {t : FileTree}
    (read : readSources p.tree p.folder paths = .ok sources)
    (passes : j.Passes p.terminal sources) (rewritten : j.Rewritten sources p.tree t)
    (exitCode : j.Ends sources o.exitCode) : Rewrites p paths j (o, t)

/-- The course of a job, its last line included, which can always be shown. -/
theorem Job.run_cases (hcount : ∀ n, ∃ line, shown c (j.count n) = .ok line) (t : FileTree)
    (sources : List Source) :
    (∃ o, j.run c t sources = (o, j.writeAll t sources) ∧ j.Passes c sources ∧
      j.Ends sources o.exitCode) ∨
    ∃ before s after e, sources = before ++ s :: after ∧ j.Passes c before ∧ j.Breaks c s e ∧
      j.run c t sources = (.crashed e, j.writeAll t (before ++ [s])) := by
  rcases j.carryOut_cases c t sources with
    ⟨lines, hrun, hpasses, hnil⟩ | ⟨before, s, after, e, heq, hpasses, he, hrun⟩
  · left
    obtain ⟨last, hlast⟩ := hcount lines.length
    refine ⟨_, by rw [Job.run, hrun], hpasses, ?_⟩
    have hsome : (∃ s ∈ sources, ∃ u, j.Alters s u) ↔ lines ≠ [] := by
      rw [ne_eq, hnil]
      push Not
      rfl
    rw [hlast, Job.Ends, hsome]
    cases j.isStrict <;> cases lines <;> simp [Outcome.printed, Except.map]
  · exact Or.inr ⟨before, s, after, e, heq, hpasses, he, by rw [Job.run, hrun]⟩

/-- A command that ends at an obstacle does so with what can be shown of it. -/
theorem Rewrites.of_error {p : Place} {o : Obstacle}
    (h : readSources p.tree p.folder paths = .error o) (j : Job) :
    Rewrites p paths j (o.outcome p.terminal, p.tree) := by
  have hobstacle := obstructed_of_readSources h
  cases o with
  | crash e => exact .barred h hobstacle
  | failure f =>
    rw [Obstacle.outcome]
    cases hshown : shown p.terminal f.message with
    | ok line => exact .refused h hobstacle hshown rfl rfl
    | error e => exact .muted h hobstacle hshown

/-- **Work that takes the course of a job on the files that have been read rewrites them.** -/
theorem rewrites_withSources {p : Place} {work : List Source → Outcome × FileTree}
    (hwork : ∀ sources,
      (∃ o, work sources = (o, j.writeAll p.tree sources) ∧ j.Passes p.terminal sources ∧
        j.Ends sources o.exitCode) ∨
      ∃ before s after e, sources = before ++ s :: after ∧ j.Passes p.terminal before ∧
        j.Breaks p.terminal s e ∧
        work sources = (.crashed e, j.writeAll p.tree (before ++ [s]))) :
    Rewrites p paths j (withSources p paths work) := by
  cases hread : readSources p.tree p.folder paths with
  | error o =>
    rw [withSources_of_error p work hread]
    exact .of_error hread j
  | ok sources =>
    obtain ⟨errors, hnone, hrun⟩ := withSources_of_ok p work hread
    obtain ⟨-, hselected⟩ := of_readSources_eq_ok hread
    rcases hwork sources with
      ⟨o, ho, hpasses, hends⟩ | ⟨before, s, after, e, rfl, hpasses, he, ho⟩
    · rw [hrun, ho]
      exact .done hread hpasses (hselected.rewritten (fun _ => id) j) hends
    · obtain rfl := hnone (by simp)
      rw [hrun, ho]
      refine .broken hread hpasses he (hselected.rewritten (fun s' hs' => ?_) j)
      rw [List.append_cons]
      exact List.mem_append_left _ hs'

theorem rewrites_fix (p : Place) (paths : List Path) (dryRun : Bool) :
    Rewrites p paths (fixJob (p.settings.wording none) dryRun) (run p (.fix paths dryRun)) :=
  rewrites_withSources (Job.run_cases (shown_countLine (by decide) dryRun) p.tree)

theorem rewrites_format (p : Place) (paths : List Path) (checkOnly : Bool) (width : Int) :
    Rewrites p paths (formatJob (indented width) checkOnly)
      (run p (.format paths checkOnly false width)) :=
  rewrites_withSources (Job.run_cases (shown_countLine (by decide) checkOnly) p.tree)

theorem laidText_of_hasRoom {dialect : Dialect} (hroom : Layout.hasRoom dialect = true) (u : Text) :
    laidText dialect u = .ok (HypnoScript.format dialect u) := by
  rw [laidText, format?, if_pos hroom]

theorem laidText_of_noRoom {dialect : Dialect} (hroom : Layout.hasRoom dialect = false) (u : Text) :
    laidText dialect u = .error (.noRoom ⟨dialect.indentWidth⟩) := by
  rw [laidText, format?, hroom, if_neg Bool.false_ne_true]

/-- Laying out files to show them: nothing is printed about a file, and none is written. -/
def showJob (dialect : Dialect) : Job where
  change := laidText dialect
  line _ := []
  count _ := []
  writes := false
  isStrict := false

theorem showLaid_cases (c : Terminal) (dialect : Dialect) (t : FileTree) (sources : List Source) :
    (∃ o, (showLaid dialect sources, t) = (o, (showJob dialect).writeAll t sources) ∧
      (showJob dialect).Passes c sources ∧ (showJob dialect).Ends sources o.exitCode) ∨
    ∃ before s after e, sources = before ++ s :: after ∧ (showJob dialect).Passes c before ∧
      (showJob dialect).Breaks c s e ∧ (showLaid dialect sources, t) =
        (.crashed e, (showJob dialect).writeAll t (before ++ [s])) := by
  have htree (sources : List Source) : (showJob dialect).writeAll t sources = t :=
    Job.writeAll_eq_self nofun
  simp only [htree]
  cases hroom : Layout.hasRoom dialect with
  | true =>
    obtain ⟨texts, htexts⟩ : ∃ texts, sources.mapM (fun s => laidText dialect s.text) = .ok texts :=
      exists_mapM_eq_ok fun s _ => ⟨_, laidText_of_hasRoom hroom s.text⟩
    refine Or.inl ⟨_, by rw [showLaid, htexts], ?_, Or.inr ⟨rfl, by simp [showJob]⟩⟩
    rintro s - e (hfail | ⟨-, hrefused⟩)
    · simp [showJob, laidText_of_hasRoom hroom] at hfail
    · have hempty := c.render_source [] rfl
      simp [showJob, hempty] at hrefused
  | false =>
    cases sources with
    | nil => exact Or.inl ⟨_, rfl, nofun, Or.inr ⟨rfl, by simp [showJob]⟩⟩
    | cons s sources =>
      have hfail := laidText_of_noRoom hroom s.text
      have hcrash : showLaid dialect (s :: sources) =
          .crashed (.noRoom ⟨dialect.indentWidth⟩) := by
        rw [showLaid, List.mapM_cons, hfail]
        rfl
      exact Or.inr ⟨[], s, sources, _, rfl, nofun, .change hfail, by rw [hcrash]⟩

/-- What is shown apart from the errors does not matter where a file cannot be worked on. -/
theorem Rewrites.with_output {p : Place} {r : Outcome × FileTree} (h : Rewrites p paths j r)
    (output : Output) :
    Rewrites p paths j (if r.1.exitCode = 2 then { r.1 with output } else r.1, r.2) := by
  cases h with
  | refused read obstacle shows exitCode errors =>
    rw [if_pos exitCode]
    exact .refused read obstacle shows exitCode errors
  | muted read obstacle refuses => exact .muted read obstacle refuses
  | barred read obstacle => exact .barred read obstacle
  | broken read passes breaks rewritten => exact .broken read passes breaks rewritten
  | done read passes rewritten exitCode =>
    rw [if_neg]
    · exact .done read passes rewritten exitCode
    · rcases exitCode with ⟨hone, -⟩ | ⟨hzero, -⟩ <;> simp [*]

theorem rewrites_show (p : Place) (paths : List Path) (checkOnly : Bool) (width : Int) :
    Rewrites p paths (showJob (indented width)) (run p (.format paths checkOnly true width)) := by
  have hshow : Rewrites p paths (showJob (indented width)) (withSources p paths fun sources =>
      (showLaid (indented width) sources, p.tree)) :=
    rewrites_withSources (showLaid_cases p.terminal (indented width) p.tree)
  exact hshow.with_output (.verbatim [])

/-! ## 5. All or nothing -/

/-- Nothing hinders a job: all paths can be looked up, the terminal shows why a file cannot be
worked on, and the job gets past every file that is selected. -/
structure Unhindered (p : Place) (paths : List Path) (j : Job) : Prop where
  lookups : ∀ e, ¬ Obstructed p.tree p.folder paths (.crash e)
  failures : ∀ f, Obstructed p.tree p.folder paths (.failure f) →
    ∃ line, shown p.terminal f.message = .ok line
  files : ∀ s : Source, Selected p.tree p.folder paths s.path s.location →
    Holds p.tree s.location s.text → ∀ e, ¬ j.Breaks p.terminal s e

/-- A file is selected, and a job makes its text different, into a new text. -/
def Changes (p : Place) (paths : List Path) (j : Job) (l : Location) (v : Text) : Prop :=
  ∃ q u, Selected p.tree p.folder paths q l ∧ Holds p.tree l u ∧ j.change u = .ok v ∧ v ≠ u

/-- Either some file cannot be worked on and no file is touched, or all files that are selected are
rewritten. -/
structure AllOrNothing (p : Place) (paths : List Path) (j : Job) (r : Outcome × FileTree) :
    Prop where
  /-- The exit code is two just when some file cannot be worked on, -/
  refused : r.1.exitCode = 2 ↔ ∃ f, Obstructed p.tree p.folder paths (.failure f)
  /-- and then no file is touched. -/
  untouched : r.1.exitCode = 2 → r.2 = p.tree
  /-- Otherwise every file that is selected is read and changed. -/
  processed : r.1.exitCode ≠ 2 → ∀ q l, Selected p.tree p.folder paths q l →
    ∃ u v, Holds p.tree l u ∧ j.change u = .ok v
  /-- The files whose texts are made different hold their new texts, -/
  written : r.1.exitCode ≠ 2 → j.writes = true → ∀ l v, Changes p paths j l v →
    r.2.read? l = some (encode v)
  /-- and all others what they held. -/
  kept : ∀ l, (∀ v, ¬ Changes p paths j l v) → r.2.read? l = p.tree.read? l
  /-- A job that does not write leaves all files as they are. -/
  idle : j.writes = false → r.2 = p.tree
  /-- The exit code is one just when there are such files and that is a failure. -/
  strict : r.1.exitCode = 1 ↔
    r.1.exitCode ≠ 2 ∧ j.isStrict = true ∧ ∃ l v, Changes p paths j l v
  /-- No file or folder comes or goes. -/
  alike : p.tree.Alike r.2

section AllOrNothing

variable {p : Place} {r : Outcome × FileTree}

/-- Where all files have been read and the job gets past them, nothing hinders it. -/
theorem unhindered_of_read (hread : readSources p.tree p.folder paths = .ok sources)
    (hpasses : j.Passes p.terminal sources) : Unhindered p paths j := by
  obtain ⟨hreadable, hselected⟩ := of_readSources_eq_ok hread
  exact ⟨fun e he => absurd he (hreadable _), fun f hf => absurd hf (hreadable _),
    fun s hs holds => hpasses s ((hselected s).mpr ⟨hs, holds⟩)⟩

theorem AreSelected.changes_iff (h : AreSelected p.tree p.folder paths sources) :
    Changes p paths j l v ↔ ∃ s ∈ sources, s.location = l ∧ j.Alters s v := by
  constructor
  · rintro ⟨q, u, hq, hu, hv⟩
    exact ⟨⟨q, l, u⟩, (h _).mpr ⟨hq, hu⟩, rfl, hv⟩
  · rintro ⟨s, hs, rfl, hv⟩
    obtain ⟨hq, hu⟩ := (h s).mp hs
    exact ⟨s.path, s.text, hq, hu, hv⟩

theorem Rewrites.allOrNothing (h : Rewrites p paths j r) (hfree : Unhindered p paths j) :
    AllOrNothing p paths j r := by
  cases h with
  | muted read obstacle refuses =>
    obtain ⟨line, hline⟩ := hfree.failures _ obstacle
    rw [hline] at refuses
    cases refuses
  | barred read obstacle => exact absurd obstacle (hfree.lookups _)
  | broken read passes breaks rewritten =>
    obtain ⟨selected, holds⟩ := ((of_readSources_eq_ok read).2 _).mp
      (List.mem_append_right _ List.mem_cons_self)
    exact absurd breaks (hfree.files _ selected holds _)
  | @refused f line o read obstacle shows exitCode errors =>
    exact
      { refused := iff_of_true exitCode ⟨f, obstacle⟩
        untouched := fun _ => rfl
        processed := fun hne => absurd exitCode hne
        written := fun hne => absurd exitCode hne
        kept := fun _ _ => rfl
        idle := fun _ => rfl
        strict := iff_of_false (by simp [exitCode]) fun hone => hone.1 exitCode
        alike := .refl p.tree }
  | @done sources o t read passes rewritten exitCode =>
    obtain ⟨hreadable, hselected⟩ := of_readSources_eq_ok read
    have hne : o.exitCode ≠ 2 := by
      rcases exitCode with ⟨hone, -⟩ | ⟨hzero, -⟩ <;> omega
    have hchanges : (∃ l v, Changes p paths j l v) ↔ ∃ s ∈ sources, ∃ u, j.Alters s u := by
      simp only [hselected.changes_iff]
      constructor
      · rintro ⟨l, v, s, hs, -, hv⟩
        exact ⟨s, hs, v, hv⟩
      · rintro ⟨s, hs, v, hv⟩
        exact ⟨s.location, v, s, hs, rfl, hv⟩
    exact
      { refused := iff_of_false hne fun hf => hf.elim fun f hf => hreadable _ hf
        untouched := fun htwo => absurd htwo hne
        processed := by
          intro _ q l hq
          obtain ⟨u, hu⟩ := hq.exists_holds hreadable
          have hmem := (hselected ⟨q, l, u⟩).mpr ⟨hq, hu⟩
          cases hchange : j.change u with
          | error e => exact absurd (.change hchange) (passes _ hmem e)
          | ok v => exact ⟨u, v, hu, hchange⟩
        written := by
          intro _ hwrites l v hv
          obtain ⟨s, hs, rfl, halters⟩ := hselected.changes_iff.mp hv
          exact rewritten.written hwrites s hs v halters
        kept := fun l hl => rewritten.kept l fun s hs hloc v hv =>
          hl v (hselected.changes_iff.mpr ⟨s, hs, hloc, hv⟩)
        idle := fun hidle => rewritten.idle fun hwrites => by simp [hidle] at hwrites
        strict := by
          rw [hchanges, and_iff_right hne]
          rcases exitCode with ⟨hone, hstrict⟩ | ⟨hzero, hnot⟩
          · exact iff_of_true hone hstrict
          · exact iff_of_false (by simp [hzero]) hnot
        alike := rewritten.alike }

end AllOrNothing

/-! ## 6. Command lines -/

/-- What a command that rewrites files does with each of them. -/
def jobOf? (settings : Settings) : Command → Option Job
  | .fix _ dryRun => some (fixJob (settings.wording none) dryRun)
  | .format _ checkOnly false width => some (formatJob (indented width) checkOnly)
  | .format _ _ true width => some (showJob (indented width))
  | _ => none

theorem rewrites_run {p : Place} {command : Command} (hj : jobOf? p.settings command = some j) :
    Rewrites p command.paths j (run p command) := by
  cases command with
  | check | outline | serve => cases hj
  | fix paths dryRun =>
    obtain rfl := Option.some.inj hj
    exact rewrites_fix p paths dryRun
  | format paths checkOnly toOutput width =>
    cases toOutput with
    | false =>
      obtain rfl := Option.some.inj hj
      exact rewrites_format p paths checkOnly width
    | true =>
      obtain rfl := Option.some.inj hj
      exact rewrites_show p paths checkOnly width

/-- **What rewriting files leads to**, on every command line that asks for it, in every tree of
files and on every terminal.  It is all or nothing where nothing hinders it.  What makes it break
off between two files is the print of a path behind each write; and as it is not known what a
terminal makes of a path, the five outcomes of `Rewrites` are all that can be said of any of them.

All files are read before the first one is written.  So a file that cannot be worked on is known in
time, and what can go wrong later is only what comes of printing, and of an indentation that is too
wide. -/
theorem runWords_rewrites {p : Place} {words : List String} {command : Command} {j : Job}
    (h : Asks p words command) (hj : jobOf? p.settings command = some j) :
    Rewrites p command.paths j (runWords p words) ∧
      (Unhindered p command.paths j → AllOrNothing p command.paths j (runWords p words)) := by
  rw [runWords_of_asks h]
  exact ⟨rewrites_run hj, (rewrites_run hj).allOrNothing⟩

/-- A file is laid out. -/
theorem runWords_rewrites_line :
    let p : Place := ⟨{}, .standard, { files := [(["a.hyp"], encode "x=1;".toList)] }, []⟩
    let command : Command := .format [⟨"", ["a.hyp"]⟩] false false 4
    let job := formatJob (indented 4) false
    Asks p ["format", "a.hyp"] command ∧ jobOf? p.settings command = some job ∧
      Rewrites p command.paths job (runWords p ["format", "a.hyp"]) ∧
      Unhindered p command.paths job ∧
      (runWords p ["format", "a.hyp"]).2.read? ["a.hyp"] = some (encode "x = 1;".toList) := by
  intro p command job
  have hasks : Asks p ["format", "a.hyp"] command :=
    ⟨⟨false, rfl, Or.inr checkLogLevel_default⟩, by decide⟩
  have hread : readSources p.tree p.folder command.paths =
      .ok [⟨⟨"", ["a.hyp"]⟩, ["a.hyp"], "x=1;".toList⟩] :=
    readSources_singleton rfl (by decide) rfl ⟨"x=1;".toList, rfl, by decide⟩
  have hroom : Layout.hasRoom (indented 4) = true := by decide +kernel
  have hchange : job.change "x=1;".toList = .ok "x = 1;".toList :=
    (laidText_of_hasRoom hroom _).trans (congrArg Except.ok (by decide +kernel))
  have hline : p.terminal.render (job.line ⟨"", ["a.hyp"]⟩).source =
      .ok "Reformatted a.hyp".toList := rfl
  have hfree : Unhindered p command.paths job := by
    refine unhindered_of_read hread fun s hs e he => ?_
    obtain rfl := List.mem_singleton.mp hs
    cases he with
    | change failure => cases hchange.symm.trans failure
    | line halters refused => cases hline.symm.trans refused
  obtain ⟨hrewrites, hall⟩ := runWords_rewrites hasks (j := job) rfl
  refine ⟨hasks, rfl, hrewrites, hfree, ?_⟩
  have hselected := (of_readSources_eq_ok hread).2
  have hne : (runWords p ["format", "a.hyp"]).1.exitCode ≠ 2 := by decide +kernel
  exact (hall hfree).written hne rfl _ _
    (hselected.changes_iff.mpr ⟨_, List.mem_cons_self, rfl, hchange, by decide⟩)

/-- The path of the first file holds what looks like a closing mark.  The terminal refuses it when
that file has been written, so the second file is left as it was, and the exit code is one. -/
theorem runWords_breaksOff :
    let p : Place := ⟨{}, .standard,
      { folders := [["a["]]
        files := [(["a[", "b].hyp"], encode "x=1;".toList), (["z.hyp"], encode "x=1;".toList)] },
      []⟩
    let words := ["format", "a[/b].hyp", "z.hyp"]
    let command : Command := .format [⟨"", ["a[", "b].hyp"]⟩, ⟨"", ["z.hyp"]⟩] false false 4
    let job := formatJob (indented 4) false
    let r := runWords p words
    Asks p words command ∧ jobOf? p.settings command = some job ∧
      (r.1.exitCode = 1 ∧ r.2.read? ["a[", "b].hyp"] = some (encode "x = 1;".toList) ∧
        r.2.read? ["z.hyp"] = some (encode "x=1;".toList)) ∧
      ¬ AllOrNothing p command.paths job r := by
  intro p words command job r
  have hasks : Asks p words command :=
    ⟨⟨false, rfl, Or.inr checkLogLevel_default⟩, by decide⟩
  have hrun : r.1.exitCode = 1 ∧ r.2.read? ["a[", "b].hyp"] = some (encode "x = 1;".toList) ∧
      r.2.read? ["z.hyp"] = some (encode "x=1;".toList) := by decide +kernel
  refine ⟨hasks, rfl, hrun, fun h => ?_⟩
  have hroom : Layout.hasRoom (indented 4) = true := by decide +kernel
  have hchange : job.change "x=1;".toList = .ok "x = 1;".toList :=
    (laidText_of_hasRoom hroom _).trans (congrArg Except.ok (by decide +kernel))
  have hselected : Selected p.tree p.folder command.paths ⟨"", ["z.hyp"]⟩ ["z.hyp"] :=
    .named (List.mem_cons_of_mem _ List.mem_cons_self) rfl (by decide) rfl
  have hholds : Holds p.tree ["z.hyp"] "x=1;".toList := ⟨"x=1;".toList, rfl, by decide⟩
  have hwritten := h.written (by omega) rfl _ _ ⟨_, _, hselected, hholds, hchange, by decide⟩
  rw [hrun.2.2] at hwritten
  exact absurd hwritten (by decide)

/-- A path that cannot be looked up is no missing file: the exit code is one, not two. -/
example :
    let barred (q : Path) := if q.names = ["b.hyp"] then some SystemFailure.nameTooLong else none
    let p : Place := ⟨{}, .standard, { barred }, []⟩
    (runWords p ["fix", "b.hyp"]).1.exitCode = 1 ∧
      (runWords p ["fix", "c.hyp"]).1.exitCode = 2 := by decide +kernel

end Command
end HypnoScript
