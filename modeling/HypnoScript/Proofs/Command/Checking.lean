/-
# The verdict of a check

A check of files keeps the diagnostics of each under the word that its path is written as.  Files
that are selected differ in this word (`Selected.eq_of_toString`), so none takes the place of
another one, and the exit code tells whether some file is not well formed (`runWords_verdict`).
Warnings and hints have no part in it, and neither has the language of the messages.

The form of the output has: a report for people starts with the path of the file, and what a
terminal makes of a path is not known (`heading`).  All else in the report is plain, so the heading
alone decides whether the report is shown (`exists_shown_reportOf_iff`), and a heading that is
refused ends the command with an exit code of one even if nothing is wrong with the file
(`runWords_check_refused`).
-/
import HypnoScript.Proofs.Analysis.Verdict
import HypnoScript.Proofs.Collection.History
import HypnoScript.Proofs.Command.Printing
import HypnoScript.Proofs.Command.Request
import HypnoScript.Proofs.Command.Sources
import HypnoScript.Proofs.FileTree.Paths

namespace HypnoScript
namespace Command

open Text.Utf8 (encode)

variable {t : FileTree} {folder l : Location} {paths : List Path} {q : Path}

/-! ## 1. Files and the words they are shown with -/

/-- A file that is selected lies where its path leads, and its path is written as it is read. -/
theorem Selected.place (hnamed : t.Named) (hpaths : ReadFromWords paths)
    (h : Selected t folder paths q l) : q.Proper ∧ l = q.place folder := by
  obtain ⟨args, rfl⟩ := hpaths
  cases h with
  | named mem leads file held =>
    obtain ⟨word, -, rfl⟩ := List.mem_map.mp mem
    exact ⟨Path.proper_ofString word, Path.eq_place_of_resolve leads⟩
  | @below p l names mem leads isFolder held isSource =>
    obtain ⟨word, -, rfl⟩ := List.mem_map.mp mem
    have hnames : ∀ n ∈ names, Path.IsName n := fun n hn =>
      hnamed _ (FileTree.isSome_read?_iff.mp held) n (List.mem_append_right _ hn)
    refine ⟨(Path.proper_ofString word).below hnames, ?_⟩
    rw [Path.place_below hnames, ← Path.eq_place_of_resolve leads]

/-- **Files that are shown with the same word are the same.**  The word tells the path, and the path
tells the place; this is so because all paths come from words, and are carried out in one folder. -/
theorem Selected.eq_of_toString (hnamed : t.Named) (hpaths : ReadFromWords paths) {q' : Path}
    {l' : Location} (h : Selected t folder paths q l) (h' : Selected t folder paths q' l')
    (heq : q.toString = q'.toString) : l = l' := by
  obtain ⟨hq, rfl⟩ := h.place hnamed hpaths
  obtain ⟨hq', rfl⟩ := h'.place hnamed hpaths
  rw [Path.toString_injective hq hq' heq]

theorem AreSelected.text_eq (hnamed : t.Named) (hpaths : ReadFromWords paths)
    {sources : List Source} (h : AreSelected t folder paths sources) :
    ∀ s ∈ sources, ∀ s' ∈ sources, s.path.toString = s'.path.toString → s.text = s'.text := by
  intro s hs s' hs' heq
  obtain ⟨hq, hu⟩ := (h s).mp hs
  obtain ⟨hq', hu'⟩ := (h s').mp hs'
  have hl := hq.eq_of_toString hnamed hpaths hq' heq
  exact hu.unique (hl ▸ hu')

/-! ## 2. What is collected -/

section Collect

variable (w : Wording) (sources : List Source)

/-- The operation that keeps what is found in a file. -/
def publication (s : Source) : Collection.Operation :=
  .publish s.path.toString Dialect.standard w (.string (String.ofList s.text))

/-- Files are collected one operation after the other. -/
theorem collect_eq_after :
    collect w sources = Collection.empty.after (sources.map (publication w)) := by
  rw [collect, Collection.after, List.foldl_map]
  refine congrArg (fun f => List.foldl f Collection.empty sources) ?_
  funext c s
  simp only [publication, Collection.perform, textOfValue, String.toList_ofList]

theorem mem_uris_collect {uri : String} :
    uri ∈ (collect w sources).uris ↔ ∃ s ∈ sources, s.path.toString = uri := by
  rw [Collection.mem_uris, collect_eq_after, Collection.isSome_lookup_after_iff]
  constructor
  · rintro ⟨before, op, later, hops, ⟨gs, hwrites⟩, -⟩
    have hop : op ∈ sources.map (publication w) := by
      rw [hops]
      simp
    obtain ⟨s, hs, rfl⟩ := List.mem_map.mp hop
    exact ⟨s, hs, (Collection.writes_publish_iff.mp hwrites).1.symm⟩
  · rintro ⟨s, hs, rfl⟩
    obtain ⟨before, later, rfl⟩ := List.append_of_mem hs
    refine ⟨before.map (publication w), publication w s, later.map (publication w), by simp,
      ⟨_, .publish _ _ _⟩, ?_⟩
    intro op hop
    obtain ⟨s', -, rfl⟩ := List.mem_map.mp hop
    exact nofun

/-- Of each file that is collected the diagnostics of a file with the same word are kept. -/
theorem exists_get_collect {uri : String} (h : uri ∈ (collect w sources).uris) :
    ∃ s ∈ sources, s.path.toString = uri ∧
      (collect w sources).get uri = analyze Dialect.standard w s.text := by
  rw [Collection.mem_uris, collect_eq_after, Collection.isSome_lookup_after_iff] at h
  obtain ⟨before, op, later, hops, hwrites, -⟩ := Collection.get_after_of_live h
  have hop : op ∈ sources.map (publication w) := by
    rw [hops]
    simp
  obtain ⟨s, hs, rfl⟩ := List.mem_map.mp hop
  obtain ⟨huri, t, ht, hgs⟩ := Collection.writes_publish_iff.mp hwrites
  obtain rfl := Except.ok.inj ht
  refine ⟨s, hs, huri.symm, ?_⟩
  rw [collect_eq_after, ← hgs, String.toList_ofList]

end Collect

/-! ## 3. What is printed -/

section Report

variable {c : Terminal} {language : Language} {uri : String} {u : Text}

/-- The text with which the report on a document starts: the only one in it that is not plain. -/
def heading (uri : String) (gs : List Diagnostic) : Markup :=
  if gs.isEmpty then noProblems uri else .plain uri

/-- The rows about a text can always be shown. -/
theorem exists_shown_rows {gs : List Diagnostic}
    (h : ∀ g ∈ gs, g ∈ analyze Dialect.standard language.wording u) :
    ∃ rows, (gs.map row).mapM (fun cells => cells.mapM (shown c)) = .ok rows := by
  refine exists_mapM_eq_ok fun cells hcells => exists_mapM_eq_ok fun m hm => ?_
  obtain ⟨g, hg, rfl⟩ := List.mem_map.mp hcells
  exact ⟨_, shown_of_isPlain (isPlain_of_mem_row (h g hg) hm)⟩

/-- **The report on a text is shown just when its heading is.**  Names of variables get into its
messages, and these consist of word characters; nothing else in it comes from the text or the path.
-/
theorem exists_shown_reportOf_iff :
    (∃ l, (reportOf uri (analyze Dialect.standard language.wording u)).shown c = .ok l) ↔
      ∃ t, shown c (heading uri (analyze Dialect.standard language.wording u)) = .ok t := by
  obtain ⟨rows, hrows⟩ : ∃ rows, ((analyze Dialect.standard language.wording u).map row).mapM
      (fun cells => cells.mapM (shown c)) = .ok rows := exists_shown_rows fun g hg => hg
  rw [reportOf, heading]
  split
  · cases hshown : shown c (noProblems uri) <;> simp [Line.shown, Except.map, hshown]
  · cases hshown : shown c (.plain uri) <;>
      simp [Line.shown, hrows, hshown, bind, Except.bind, pure, Except.pure]

/-- A check breaks off when it prints a report with a heading that the terminal refuses; otherwise
its exit code tells whether there is an error. -/
theorem checkSources_cases (c : Terminal) (w : Wording) (asJson : Bool) (sources : List Source) :
    (asJson = false ∧ (∃ uri ∈ (collect w sources).uris,
        ∀ l, (reportOf uri ((collect w sources).get uri)).shown c ≠ .ok l) ∧
      ∃ e, checkSources c w asJson sources = .crashed e) ∨
    ((asJson = false → ∀ uri ∈ (collect w sources).uris,
        ∃ l, (reportOf uri ((collect w sources).get uri)).shown c = .ok l) ∧
      (∀ e, (checkSources c w asJson sources).output ≠ .crash e) ∧
      (checkSources c w asJson sources).exitCode =
        if ∃ uri ∈ (collect w sources).uris, ∃ g ∈ (collect w sources).get uri, g.severity = .error
          then 1 else 0) := by
  have hcode : ((entriesOf (collect w sources)).flatMap (·.2)).any (·.severity == .error) = true ↔
      ∃ uri ∈ (collect w sources).uris, ∃ g ∈ (collect w sources).get uri,
        g.severity = .error := by
    simp [entriesOf, List.any_flatMap, List.any_map]
  cases asJson with
  | true =>
    refine Or.inr ⟨nofun, fun e => nofun, ?_⟩
    simp only [checkSources, if_true, hcode]
  | false =>
    have hcheck : checkSources c w false sources = .printed
        (if ∃ uri ∈ (collect w sources).uris, ∃ g ∈ (collect w sources).get uri,
          g.severity = .error then 1 else 0)
        ((reportLines (entriesOf (collect w sources))).mapM (Line.shown c)) := by
      simp only [checkSources, hcode, Bool.false_eq_true, if_false]
    rw [hcheck]
    cases hlines : (reportLines (entriesOf (collect w sources))).mapM (Line.shown c) with
    | ok ls =>
      refine Or.inr ⟨fun _ uri huri => ?_, fun e => nofun, rfl⟩
      obtain ⟨l, -, hl⟩ := (exists_of_mapM_eq_ok hlines).1 (reportOf uri _)
        (List.mem_append_left _ (List.mem_map.mpr ⟨_, List.mem_map.mpr ⟨uri, huri, rfl⟩, rfl⟩))
      exact ⟨l, hl⟩
    | error e =>
      refine Or.inl ⟨rfl, ?_, e, rfl⟩
      obtain ⟨line, hline, hl⟩ := exists_of_mapM_eq_error hlines
      rcases List.mem_append.mp hline with hline | hline
      · obtain ⟨entry, hentry, rfl⟩ := List.mem_map.mp hline
        obtain ⟨uri, huri, rfl⟩ := List.mem_map.mp hentry
        exact ⟨uri, huri, fun l hok => by cases hl.symm.trans hok⟩
      · obtain rfl := List.mem_singleton.mp hline
        obtain ⟨t, ht⟩ := shown_summary (c := c) ((entriesOf (collect w sources)).flatMap (·.2))
        simp [Line.shown, ht, Except.map] at hl

end Report

/-! ## 4. The verdict -/

/-- Among the diagnostics of files that differ in their words is an error just when one of the files
is not well formed. -/
theorem exists_error_collect_iff (w : Wording) {sources : List Source}
    (hsame : ∀ s ∈ sources, ∀ s' ∈ sources, s.path.toString = s'.path.toString →
      s.text = s'.text) :
    (∃ uri ∈ (collect w sources).uris, ∃ g ∈ (collect w sources).get uri, g.severity = .error) ↔
      ∃ s ∈ sources, ¬ WellFormed s.text := by
  constructor
  · rintro ⟨uri, huri, herror⟩
    obtain ⟨s, hs, -, hget⟩ := exists_get_collect w sources huri
    rw [hget, exists_error_iff] at herror
    exact ⟨s, hs, herror⟩
  · rintro ⟨s, hs, hbad⟩
    have huri := (mem_uris_collect w sources).mpr ⟨s, hs, rfl⟩
    obtain ⟨s', hs', hpath, hget⟩ := exists_get_collect w sources huri
    refine ⟨_, huri, ?_⟩
    rwa [hget, exists_error_iff, hsame s' hs' s hs hpath]

/-- The reports on files that differ in their words are all shown just when the heading of each file
is. -/
theorem forall_shown_collect_iff (c : Terminal) (language : Language) {sources : List Source}
    (hsame : ∀ s ∈ sources, ∀ s' ∈ sources, s.path.toString = s'.path.toString →
      s.text = s'.text) :
    (∀ uri ∈ (collect language.wording sources).uris,
        ∃ l, (reportOf uri ((collect language.wording sources).get uri)).shown c = .ok l) ↔
      ∀ s ∈ sources, ∃ t, shown c (heading s.path.toString
        (analyze Dialect.standard language.wording s.text)) = .ok t := by
  constructor
  · intro h s hs
    have huri := (mem_uris_collect language.wording sources).mpr ⟨s, hs, rfl⟩
    obtain ⟨s', hs', hpath, hget⟩ := exists_get_collect language.wording sources huri
    rw [← hsame s' hs' s hs hpath]
    exact exists_shown_reportOf_iff.mp (hget ▸ h _ huri)
  · intro h uri huri
    obtain ⟨s, hs, rfl, hget⟩ := exists_get_collect language.wording sources huri
    rw [hget]
    exact exists_shown_reportOf_iff.mpr (h s hs)

/-- Some file that is selected is not well formed. -/
def HasFaults (p : Place) (paths : List Path) : Prop :=
  ∃ q l u, Selected p.tree p.folder paths q l ∧ Holds p.tree l u ∧ ¬ WellFormed u

/-- The terminal shows the heading of the report on every file that is selected. -/
def ShowsHeadings (p : Place) (w : Wording) (paths : List Path) : Prop :=
  ∀ q l u, Selected p.tree p.folder paths q l → Holds p.tree l u →
    ∃ t, shown p.terminal (heading q.toString (analyze Dialect.standard w u)) = .ok t

/-- What a check of files that can be read ends with. -/
theorem run_check (p : Place) {paths : List Path} (hpaths : ReadFromWords paths)
    (hnamed : p.tree.Named) (hread : Readable p.tree p.folder paths) (locale : Option String)
    (asJson : Bool) :
    ((∃ e, (run p (.check paths locale asJson)).1 = .crashed e) ↔
        asJson = false ∧ ¬ ShowsHeadings p (p.settings.wording locale) paths) ∧
      ((run p (.check paths locale asJson)).1.exitCode = 1 ↔ HasFaults p paths ∨
        asJson = false ∧ ¬ ShowsHeadings p (p.settings.wording locale) paths) ∧
      ((run p (.check paths locale asJson)).1.exitCode = 0 ↔ ¬ HasFaults p paths ∧
        (asJson = false → ShowsHeadings p (p.settings.wording locale) paths)) := by
  obtain ⟨language, hlanguage⟩ : ∃ language : Language,
      p.settings.wording locale = language.wording := ⟨_, rfl⟩
  rw [hlanguage]
  obtain ⟨sources, hsources, hselected⟩ := exists_readSources hread
  have hsame := hselected.text_eq hnamed hpaths
  have hfaults : HasFaults p paths ↔ ∃ uri ∈ (collect language.wording sources).uris,
      ∃ g ∈ (collect language.wording sources).get uri, g.severity = .error := by
    rw [exists_error_collect_iff _ hsame]
    exact hselected.exists_iff fun _ u => ¬ WellFormed u
  have hheadings : ShowsHeadings p language.wording paths ↔
      ∀ uri ∈ (collect language.wording sources).uris, ∃ l,
        (reportOf uri ((collect language.wording sources).get uri)).shown p.terminal = .ok l := by
    rw [forall_shown_collect_iff _ _ hsame]
    constructor
    · intro hall s hs
      obtain ⟨hq, hu⟩ := (hselected s).mp hs
      exact hall _ _ _ hq hu
    · intro hall q l u hq hu
      exact hall ⟨q, l, u⟩ ((hselected _).mpr ⟨hq, hu⟩)
  obtain ⟨errors, hnone, hrun⟩ := withSources_of_ok p
    (fun sources => (checkSources p.terminal language.wording asJson sources, p.tree)) hsources
  have hrun : (run p (.check paths locale asJson)).1 =
      { checkSources p.terminal language.wording asJson sources with
        errors := errors ++ (checkSources p.terminal language.wording asJson sources).errors } := by
    rw [run, hlanguage, hrun]
  rw [hrun, hfaults, hheadings]
  rcases checkSources_cases p.terminal language.wording asJson sources with
    ⟨rfl, ⟨uri, huri, hrefused⟩, e, hcrash⟩ | ⟨hshown, houtput, hcode⟩
  · obtain ⟨s, hs, -⟩ := (mem_uris_collect _ _).mp huri
    obtain rfl := hnone (List.ne_nil_of_mem hs)
    have hnot : ¬ ∀ uri ∈ (collect language.wording sources).uris, ∃ l,
        (reportOf uri ((collect language.wording sources).get uri)).shown p.terminal = .ok l := by
      intro hall
      obtain ⟨l, hl⟩ := hall uri huri
      exact hrefused l hl
    rw [hcrash]
    exact ⟨iff_of_true ⟨e, rfl⟩ ⟨rfl, hnot⟩, iff_of_true rfl (Or.inr ⟨rfl, hnot⟩),
      iff_of_false Nat.one_ne_zero fun hall => hnot (hall.2 rfl)⟩
  · have hnot : ¬ (asJson = false ∧ ¬ ∀ uri ∈ (collect language.wording sources).uris, ∃ l,
        (reportOf uri ((collect language.wording sources).get uri)).shown p.terminal = .ok l) :=
      fun hbad => hbad.2 (hshown hbad.1)
    refine ⟨iff_of_false ?_ hnot, ?_, ?_⟩
    · rintro ⟨e, he⟩
      exact houtput e (congrArg Outcome.output he)
    · dsimp only
      rw [hcode, or_iff_left hnot]
      split <;> simp [*]
    · dsimp only
      rw [hcode, and_iff_left hshown]
      split <;> simp [*]

/-- **The exit code of a check is a verdict on the files, as long as their paths can be printed.**
All files that are selected can be read here.  A report for a program does not pass through the
terminal; one for people does, and its headings are paths, which a terminal may refuse: then the
command breaks off, with an exit code of one, whatever has been found.  Otherwise the exit code is
one if some file is not well formed, and zero if all are.

The diagnostics of a file are kept under the word of its path, and a second file with the same word
would take its place, errors and all.  There is no such file (`Selected.eq_of_toString`). -/
theorem runWords_verdict {p : Place} {words : List String} {paths : List Path}
    {locale : Option String} {asJson : Bool} (h : Asks p words (.check paths locale asJson))
    (hnamed : p.tree.Named) (hread : Readable p.tree p.folder paths) :
    ((∃ e, (runWords p words).1 = .crashed e) ↔
        asJson = false ∧ ¬ ShowsHeadings p (p.settings.wording locale) paths) ∧
      ((runWords p words).1.exitCode = 1 ↔ HasFaults p paths ∨
        asJson = false ∧ ¬ ShowsHeadings p (p.settings.wording locale) paths) ∧
      ((runWords p words).1.exitCode = 0 ↔ ¬ HasFaults p paths ∧
        (asJson = false → ShowsHeadings p (p.settings.wording locale) paths)) := by
  have hpaths : ReadFromWords paths := by
    obtain ⟨verbose, hwords, -⟩ := h.words
    have hread := readFromWords_pathsOf words
    rwa [hwords] at hread
  rw [runWords_of_asks h]
  exact run_check p hpaths hnamed hread locale asJson

/-- A file with a missing terminator and an unused variable is fine, one with a bracket too many is
not. -/
theorem runWords_verdict_files :
    let fine := "Focus \x7b\ninduce x = 1\n\x7d Relax".toList
    let p : Place := ⟨{}, .standard,
      { files := [(["a.hyp"], encode fine), (["b.hyp"], encode [')'])] }, []⟩
    (Asks p ["check", "a.hyp"] (.check [⟨"", ["a.hyp"]⟩] none false) ∧
        Asks p ["check", "b.hyp"] (.check [⟨"", ["b.hyp"]⟩] none false)) ∧
      p.tree.Named ∧
      (Readable p.tree p.folder [⟨"", ["a.hyp"]⟩] ∧
        (runWords p ["check", "a.hyp"]).1.exitCode = 0) ∧
      Readable p.tree p.folder [⟨"", ["b.hyp"]⟩] ∧
        (runWords p ["check", "b.hyp"]).1.exitCode = 1 := by
  intro fine p
  have ha : Asks p ["check", "a.hyp"] (.check [⟨"", ["a.hyp"]⟩] none false) :=
    ⟨⟨false, rfl, Or.inr checkLogLevel_default⟩, by decide⟩
  have hb : Asks p ["check", "b.hyp"] (.check [⟨"", ["b.hyp"]⟩] none false) :=
    ⟨⟨false, rfl, Or.inr checkLogLevel_default⟩, by decide⟩
  have hnamed : p.tree.Named := by
    intro l hl n hn
    have hname : n = "a.hyp" ∨ n = "b.hyp" := by
      rcases List.mem_cons.mp hl with rfl | hl
      · exact Or.inl (List.mem_singleton.mp hn)
      · obtain rfl := List.mem_singleton.mp hl
        exact Or.inr (List.mem_singleton.mp hn)
    rcases hname with rfl | rfl <;> exact ⟨by decide, by decide, by decide, by decide⟩
  have hreadA : readSources p.tree p.folder [⟨"", ["a.hyp"]⟩] =
      .ok [⟨⟨"", ["a.hyp"]⟩, ["a.hyp"], fine⟩] :=
    readSources_singleton rfl (by decide +kernel) rfl ⟨fine, rfl, by decide +kernel⟩
  have hreadB : readSources p.tree p.folder [⟨"", ["b.hyp"]⟩] =
      .ok [⟨⟨"", ["b.hyp"]⟩, ["b.hyp"], [')']⟩] :=
    readSources_singleton rfl (by decide +kernel) rfl ⟨[')'], rfl, by decide +kernel⟩
  obtain ⟨hokA, hsourcesA⟩ := of_readSources_eq_ok hreadA
  obtain ⟨hokB, hsourcesB⟩ := of_readSources_eq_ok hreadB
  have hfine : WellFormed fine :=
    ⟨(Wrapper.check_eq_nil_iff_wrapped .standard fine).mp (by decide +kernel),
      (Bracket.check_eq_nil_iff_nested .standard fine).mp (by decide +kernel)⟩
  have hbad : ¬ WellFormed [')'] := by
    intro h
    have hcheck := (Bracket.check_eq_nil_iff_nested .standard [')']).mpr h.nested
    exact absurd hcheck (by decide +kernel)
  refine ⟨⟨ha, hb⟩, hnamed, ⟨hokA, ?_⟩, hokB, ?_⟩
  · refine (runWords_verdict ha hnamed hokA).2.2.mpr ⟨?_, fun _ q l u hq hu => ?_⟩
    · rintro ⟨q, l, u, hq, hu, hbad⟩
      have hmem := (hsourcesA ⟨q, l, u⟩).mpr ⟨hq, hu⟩
      obtain rfl := congrArg Source.text (List.mem_singleton.mp hmem)
      exact hbad hfine
    · -- Whatever is found in the file, its path can be printed.
      have hmem := (hsourcesA ⟨q, l, u⟩).mpr ⟨hq, hu⟩
      obtain rfl := congrArg Source.path (List.mem_singleton.mp hmem)
      have hpath : (⟨"", ["a.hyp"]⟩ : Path).toString = "a.hyp" := by decide
      rw [heading, hpath]
      split
      · exact ⟨"a.hyp: no problems".toList, shown_eq_ok_iff.mpr (by decide +kernel)⟩
      · exact ⟨"a.hyp".toList, shown_eq_ok_iff.mpr (by decide +kernel)⟩
  · obtain ⟨hq, hu⟩ := (hsourcesB _).mp (List.mem_singleton.mpr rfl)
    exact (runWords_verdict hb hnamed hokB).2.1.mpr (Or.inl ⟨_, _, _, hq, hu, hbad⟩)

/-- The only file is well formed, but its path holds what looks like a closing mark: the exit code
is one. -/
theorem runWords_check_refused :
    let fine := "Focus \x7b\n\x7d Relax".toList
    let p : Place := ⟨{}, .standard,
      { folders := [["a["]], files := [(["a[", "b].hyp"], encode fine)] }, []⟩
    let paths : List Path := [⟨"", ["a[", "b].hyp"]⟩]
    Asks p ["check", "a[/b].hyp"] (.check paths none false) ∧ Readable p.tree p.folder paths ∧
      (∀ q l u, Selected p.tree p.folder paths q l → Holds p.tree l u → WellFormed u) ∧
      (runWords p ["check", "a[/b].hyp"]).1.exitCode = 1 := by
  intro fine p paths
  have hasks : Asks p ["check", "a[/b].hyp"] (.check paths none false) :=
    ⟨⟨false, rfl, Or.inr checkLogLevel_default⟩, by decide⟩
  have hnamed : p.tree.Named := by
    intro l hl n hn
    obtain rfl := List.mem_singleton.mp hl
    rcases List.mem_cons.mp hn with rfl | hn
    · exact ⟨by decide, by decide, by decide, by decide⟩
    · obtain rfl := List.mem_singleton.mp hn
      exact ⟨by decide, by decide, by decide, by decide⟩
  have hread : readSources p.tree p.folder paths =
      .ok [⟨⟨"", ["a[", "b].hyp"]⟩, ["a[", "b].hyp"], fine⟩] :=
    readSources_singleton rfl (by decide +kernel) rfl ⟨fine, rfl, by decide +kernel⟩
  obtain ⟨hok, hsources⟩ := of_readSources_eq_ok hread
  have hfine : WellFormed fine :=
    ⟨(Wrapper.check_eq_nil_iff_wrapped .standard fine).mp (by decide +kernel),
      (Bracket.check_eq_nil_iff_nested .standard fine).mp (by decide +kernel)⟩
  refine ⟨hasks, hok, fun q l u hq hu => ?_, ?_⟩
  · have hmem := (hsources ⟨q, l, u⟩).mpr ⟨hq, hu⟩
    obtain rfl := congrArg Source.text (List.mem_singleton.mp hmem)
    exact hfine
  · rw [runWords_of_asks hasks]
    have hpaths : ReadFromWords paths := ⟨["a[/b].hyp"], by decide +kernel⟩
    refine (run_check p hpaths hnamed hok none false).2.1.mpr (Or.inr ⟨rfl, ?_⟩)
    intro hall
    obtain ⟨hq, hu⟩ := (hsources _).mp (List.mem_singleton.mpr rfl)
    obtain ⟨t, ht⟩ := hall _ _ _ hq hu
    -- Both headings that the report can have are refused.
    have hpath : (⟨"", ["a[", "b].hyp"]⟩ : Path).toString = "a[/b].hyp" := by decide +kernel
    have hrefused : (p.terminal.render (noProblems "a[/b].hyp").source).isOk = false ∧
        (p.terminal.render (Markup.plain "a[/b].hyp").source).isOk = false := by decide +kernel
    rw [hpath, heading, shown_eq_ok_iff] at ht
    split at ht
    · simp [ht, Except.isOk, Except.toBool] at hrefused
    · simp [ht, Except.isOk, Except.toBool] at hrefused

end Command
end HypnoScript
