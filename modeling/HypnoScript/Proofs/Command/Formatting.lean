/-
# Laying out files a second time

Once files have been laid out there is nothing left to lay out.  The same files are selected, since
no file has come or gone; each holds the text that layout made of the one before, because that text
has no carriage returns that reading would take for line endings; and layout is idempotent.
-/
import HypnoScript.Proofs.Command.Rewriting
import HypnoScript.Proofs.Layout.Characters
import HypnoScript.Proofs.Layout.Text

namespace HypnoScript
namespace Command

open Text.Utf8 (encode)

variable {p : Place} {paths : List Path} {width : Int} {u v : Text}

/-! ## 1. Texts that are laid out -/

theorem of_laidText_eq_ok (h : laidText (indented width) u = .ok v) :
    Layout.hasRoom (indented width) = true ∧ v = HypnoScript.format (indented width) u := by
  cases hroom : Layout.hasRoom (indented width) with
  | true => exact ⟨rfl, Except.ok.inj (h.symm.trans (laidText_of_hasRoom hroom u))⟩
  | false => cases h.symm.trans (laidText_of_noRoom hroom u)

/-- A text that is laid out has no carriage returns if it had none before. -/
theorem return_not_mem_of_laidText (hu : '\r' ∉ u) (h : laidText (indented width) u = .ok v) :
    '\r' ∉ v := by
  obtain ⟨-, rfl⟩ := of_laidText_eq_ok h
  intro hmem
  rcases mem_of_mem_format hmem with hmem | hmem | hmem
  · exact hu hmem
  · exact absurd hmem (by decide)
  · exact absurd hmem (by decide)

theorem laidText_laidText (h : laidText (indented width) u = .ok v) :
    laidText (indented width) v = .ok v := by
  have hwords : LineShape.AreWords (indented width).dedentKeywords :=
    show LineShape.AreWords Dialect.standard.dedentKeywords by decide
  obtain ⟨hroom, rfl⟩ := of_laidText_eq_ok h
  rw [laidText_of_hasRoom hroom, Layout.format_of_lines (Layout.layLines_layLines hwords 0
    (Text.no_newline_of_mem_lines u) (by decide) (Layout.lines_format _ u))]

/-! ## 2. Files that are laid out -/

/-- **Every file that is selected is laid out** when its text is written where it differs. -/
theorem exists_holds_laid {sources : List Source} {t : FileTree}
    (hread : readSources p.tree p.folder paths = .ok sources)
    (hpasses : (formatJob (indented width) false).Passes p.terminal sources)
    (hrewritten : (formatJob (indented width) false).Rewritten sources p.tree t) {q : Path}
    {l : Location} (hq : Selected p.tree p.folder paths q l) :
    ∃ v, Holds t l v ∧ laidText (indented width) v = .ok v := by
  obtain ⟨hreadable, hselected⟩ := of_readSources_eq_ok hread
  obtain ⟨u, hu⟩ := hq.exists_holds hreadable
  have hmem := (hselected ⟨q, l, u⟩).mpr ⟨hq, hu⟩
  cases hlaid : laidText (indented width) u with
  | error e => exact absurd (.change hlaid) (hpasses _ hmem e)
  | ok v =>
    refine ⟨v, ?_, laidText_laidText hlaid⟩
    by_cases hvu : v = u
    · -- The file is not written, whichever way it is selected.
      subst hvu
      have hkept : t.read? l = p.tree.read? l := by
        refine hrewritten.kept l ?_
        rintro s hs rfl w ⟨hw, hne⟩
        rw [((hselected s).mp hs).2.unique hu] at hw hne
        exact hne (Except.ok.inj (hw.symm.trans hlaid))
      obtain ⟨w, hw, hvw⟩ := hu
      exact ⟨w, hkept.trans hw, hvw⟩
    · have hwritten := hrewritten.written rfl _ hmem v ⟨hlaid, hvu⟩
      exact holds_of_read? hwritten (return_not_mem_of_laidText hu.return_not_mem hlaid)

/-- What could be read can be read again after some writing, if what is selected holds texts. -/
theorem Readable.of_alike {t t' : FileTree} {folder : Location} (h : t.Alike t')
    (hread : Readable t folder paths)
    (hholds : ∀ q l, Selected t folder paths q l → ∃ v, Holds t' l v) :
    Readable t' folder paths := by
  intro o ho
  cases ho with
  | missing mem leads =>
    refine hread _ (.missing mem fun l hl => ?_)
    obtain ⟨hfile, hnone⟩ := leads l ((h.resolve _ _).trans hl)
    refine ⟨(h.isFolder l).symm.trans hfile, ?_⟩
    rw [← Option.not_isSome_iff_eq_none, ← h.isSome_read?, hnone]
    exact Bool.false_ne_true
  | notSource selected suffix => exact hread _ (.notSource (selected.of_alike h.symm) suffix)
  | locked selected failure =>
    exact hread _ (.locked (selected.of_alike h.symm) (h.locked ▸ failure))
  | notText selected held failure =>
    obtain ⟨v, w, hw, -⟩ := hholds _ _ (selected.of_alike h.symm)
    obtain rfl := Option.some.inj (held.symm.trans hw)
    simp [Text.Utf8.decode_encode] at failure
  | barred mem failure => exact hread _ (.barred mem (h.barred ▸ failure))
  | barredBelow mem leads isFolder listed failure =>
    refine hread _ (.barredBelow mem ((h.resolve _ _).symm.trans leads)
      ((h.isFolder _).symm.trans isFolder) ?_ (h.barred ▸ failure))
    rwa [← h.folders, ← h.places]

/-! ## 3. The second time -/

/-- Where everything is laid out, laying out ends with zero and leaves all files as they are, and so
does a check. -/
theorem run_format_of_laid (p : Place) (paths : List Path) (width : Int) (checkOnly : Bool)
    (hread : Readable p.tree p.folder paths)
    (hlaid : ∀ q l u, Selected p.tree p.folder paths q l → Holds p.tree l u →
      laidText (indented width) u = .ok u) :
    (run p (.format paths checkOnly false width)).1.exitCode = 0 ∧
      (run p (.format paths checkOnly false width)).2 = p.tree := by
  have hsame {sources : List Source} (h : readSources p.tree p.folder paths = .ok sources)
      {s : Source} (hs : s ∈ sources) :
      (formatJob (indented width) checkOnly).change s.text = .ok s.text := by
    obtain ⟨selected, holds⟩ := ((of_readSources_eq_ok h).2 s).mp hs
    exact hlaid _ _ _ selected holds
  have hrewrites := rewrites_format p paths checkOnly width
  generalize run p (.format paths checkOnly false width) = r at hrewrites
  cases hrewrites with
  | refused _ obstacle | muted _ obstacle | barred _ obstacle => exact absurd obstacle (hread _)
  | broken read passes breaks rewritten =>
    have hs := hsame read (List.mem_append_right _ List.mem_cons_self)
    rcases breaks with hfail | ⟨⟨hu, hne⟩, -⟩
    · cases hs.symm.trans hfail
    · exact absurd (Except.ok.inj (hu.symm.trans hs)) hne
  | @done sources _ _ read passes rewritten exitCode =>
    have hnone : ∀ s ∈ sources, ∀ u, ¬ (formatJob (indented width) checkOnly).Alters s u := by
      rintro s hs u ⟨hu, hne⟩
      exact hne (Except.ok.inj (hu.symm.trans (hsame read hs)))
    refine ⟨?_, rewritten.idle fun _ => hnone⟩
    rcases exitCode with ⟨-, -, s, hs, u, hu⟩ | ⟨hzero, -⟩
    · exact absurd hu (hnone s hs u)
    · exact hzero

/-- **Layout and its check agree.**  When files have been laid out, with exit code zero, a check of
the same paths with the same width of indentation ends with zero, and laying them out once more
leaves all files as they are.

The check reads the files anew.  What it reads of a file is what layout has made of the text that
was read before, since that has no carriage returns left and is written in octets that can be read;
from there on it is a matter of layout being idempotent (`format_idempotent`). -/
theorem runWords_format_settles (p : Place) {words words' : List String} {verbose : Bool}
    {paths : List Path} {width : Int}
    (hwords : Invocation.ofWords words = .named verbose (.run (.format paths false false width)))
    (hwords' : Invocation.ofWords words' = .named verbose (.run (.format paths true false width)))
    (hzero : (runWords p words).1.exitCode = 0) :
    let after : Place := { p with tree := (runWords p words).2 }
    (runWords after words').1.exitCode = 0 ∧ (runWords after words).2 = after.tree := by
  intro after
  have hasks := asks_of_exitCode_eq_zero hwords hzero
  have hrewrites := rewrites_format p paths false width
  rw [← runWords_of_asks hasks] at hrewrites
  -- Only a run that has got past all files ends with zero.
  obtain ⟨sources, hread, hpasses, hrewritten⟩ : ∃ sources,
      readSources p.tree p.folder paths = .ok sources ∧
        (formatJob (indented width) false).Passes p.terminal sources ∧
        (formatJob (indented width) false).Rewritten sources p.tree after.tree := by
    generalize hr : runWords p words = r at hrewrites hzero
    have htree : after.tree = r.2 := congrArg Prod.snd hr
    rw [htree]
    cases hrewrites with
    | refused _ _ _ exitCode => simp [exitCode] at hzero
    | muted | barred | broken => simp [Outcome.crashed] at hzero
    | done read passes rewritten => exact ⟨_, read, passes, rewritten⟩
  have hreadable := (of_readSources_eq_ok hread).1
  have hafter {command : Command} (hpaths : command.paths = paths) {ws : List String}
      (hws : Invocation.ofWords ws = .named verbose (.run command)) : Asks after ws command := by
    refine ⟨⟨verbose, hws, ?_⟩, fun q hq => ?_⟩
    · obtain ⟨⟨v, hv, hlevel⟩, -⟩ := hasks
      cases hv.symm.trans hwords
      exact hlevel
    · rw [hrewritten.alike.turnsAway]
      exact hasks.paths q (hpaths ▸ hq)
  have hlaid {q : Path} {l : Location} (hq : Selected p.tree p.folder paths q l) :=
    exists_holds_laid hread hpasses hrewritten hq
  have hreadable' : Readable after.tree p.folder paths :=
    hreadable.of_alike hrewritten.alike fun q l hq => (hlaid hq).imp fun _ h => h.1
  have hsettled (checkOnly : Bool) := run_format_of_laid after paths width checkOnly hreadable'
    fun q l u hq hu => by
      obtain ⟨v, hv, hvlaid⟩ := hlaid (hq.of_alike hrewritten.alike.symm)
      obtain rfl := hu.unique hv
      exact hvlaid
  rw [runWords_of_asks (hafter rfl hwords), runWords_of_asks (hafter rfl hwords')]
  exact ⟨(hsettled true).1, (hsettled false).2⟩

/-- A file of two lines, with line endings that reading unifies. -/
theorem runWords_format_settles_lines :
    let p : Place := ⟨{}, .standard, { files := [(["a.hyp"], encode "x=1;\r\ny".toList)] }, []⟩
    let after : Place := { p with tree := (runWords p ["format", "a.hyp"]).2 }
    (runWords p ["format", "a.hyp"]).1.exitCode = 0 ∧
      after.tree.read? ["a.hyp"] = some (encode "x = 1;\ny".toList) ∧
      (runWords after ["format", "--check", "a.hyp"]).1.exitCode = 0 ∧
      (runWords after ["format", "a.hyp"]).2 = after.tree := by
  intro p after
  have hwords : Invocation.ofWords ["format", "a.hyp"] =
      .named false (.run (.format [⟨"", ["a.hyp"]⟩] false false 4)) := rfl
  have hzero : (runWords p ["format", "a.hyp"]).1.exitCode = 0 := by decide +kernel
  have hread : after.tree.read? ["a.hyp"] = some (encode "x = 1;\ny".toList) := by decide +kernel
  exact ⟨hzero, hread, runWords_format_settles p hwords (ofWords_check hwords) hzero⟩

end Command
end HypnoScript
