/-
# Which files a command works on

A path on a command line stands for a file, or for the source files below a folder (`Selected`).
What its octets say as a text, line endings unified, is said by `Holds`.  What can end a command
before it works on anything is said by `Obstructed`: a path that leads nowhere, a file that is no
source file, cannot be opened or holds no text, and a path that the operating system does not look
up.

`readSources` reads just the files that are selected, with just the texts that they hold, unless
there is an obstacle, and then it is one of these that it names (`exists_readSources`,
`obstructed_of_readSources`).  Paths are read one after the other, so each fact is shown for one
path first, and carried over to many by what a traversal does (`mapM_eq_ok_iff`,
`exists_of_mapM_eq_error`).
-/
import HypnoScript.Command.Run
import HypnoScript.Proofs.FileTree.Contents
import HypnoScript.Proofs.Text.Utf8
import Mathlib.Data.List.Forall2

namespace HypnoScript
namespace Command

open Text.Utf8 (encode decode_eq_ok_iff encode_injective)

variable {t : FileTree} {folder l : Location} {paths : List Path} {p q : Path} {u : Text}

/-! ## 1. Files, texts and obstacles -/

/-- A file that some paths stand for, by the path that it is shown with and by its location. -/
inductive Selected (t : FileTree) (folder : Location) (paths : List Path) : Path → Location → Prop
  /-- The path of a file. -/
  | named {p : Path} {l : Location} (mem : p ∈ paths) (leads : t.resolve folder p = some l)
    (file : t.isFolder l = false) (held : (t.read? l).isSome) : Selected t folder paths p l
  /-- A source file below the folder that a path leads to. -/
  | below {p : Path} {l : Location} {names : List String} (mem : p ∈ paths)
    (leads : t.resolve folder p = some l) (isFolder : t.isFolder l = true)
    (held : (t.read? (l ++ names)).isSome) (isSource : (p.below names).isSource = true) :
    Selected t folder paths (p.below names) (l ++ names)

/-- The file at a location holds a text, with its line endings unified. -/
def Holds (t : FileTree) (l : Location) (u : Text) : Prop :=
  ∃ v, t.read? l = some (encode v) ∧ u = v.unifyNewlines

/-- The sources are the files that are selected, with the texts that they hold. -/
def AreSelected (t : FileTree) (folder : Location) (paths : List Path) (sources : List Source) :
    Prop :=
  ∀ s, s ∈ sources ↔ Selected t folder paths s.path s.location ∧ Holds t s.location s.text

/-- What can end a command before it works on the files of some paths. -/
inductive Obstructed (t : FileTree) (folder : Location) (paths : List Path) : Obstacle → Prop
  /-- A path leads neither to a folder nor to a file. -/
  | missing {p : Path} (mem : p ∈ paths)
    (leads : ∀ l, t.resolve folder p = some l → t.isFolder l = false ∧ t.read? l = none) :
    Obstructed t folder paths (.failure (.noSuchFile p))
  /-- A file is no source file. -/
  | notSource {p : Path} {l : Location} (selected : Selected t folder paths p l)
    (suffix : p.isSource = false) : Obstructed t folder paths (.failure (.notSource p))
  /-- A file cannot be opened. -/
  | locked {p : Path} {l : Location} {e : SystemFailure} (selected : Selected t folder paths p l)
    (failure : t.locked p = some e) :
    Obstructed t folder paths (.failure (.unreadable p (e.message p)))
  /-- The octets of a file are not those of any text. -/
  | notText {p : Path} {l : Location} {octets : List UInt8} {e : Text.Utf8.Failure}
    (selected : Selected t folder paths p l) (held : t.read? l = some octets)
    (failure : Text.Utf8.decode octets = .error e) :
    Obstructed t folder paths (.failure (.unreadable p e.message))
  /-- A path cannot be looked up. -/
  | barred {p : Path} {e : SystemFailure} (mem : p ∈ paths) (failure : t.barred p = some e) :
    Obstructed t folder paths (.crash (.lookup p e))
  /-- Something below a folder cannot be looked up. -/
  | barredBelow {p : Path} {l : Location} {names : List String} {e : SystemFailure}
    (mem : p ∈ paths) (leads : t.resolve folder p = some l) (isFolder : t.isFolder l = true)
    (listed : l ++ names ∈ t.folders ++ t.places) (failure : t.barred (p.below names) = some e) :
    Obstructed t folder paths (.crash (.lookup (p.below names) e))

/-- All that some paths stand for can be read. -/
def Readable (t : FileTree) (folder : Location) (paths : List Path) : Prop :=
  ∀ o, ¬ Obstructed t folder paths o

theorem Holds.unique {u' : Text} (h : Holds t l u) (h' : Holds t l u') : u = u' := by
  obtain ⟨v, hv, rfl⟩ := h
  obtain ⟨v', hv', rfl⟩ := h'
  rw [hv, Option.some.injEq] at hv'
  rw [encode_injective hv']

/-- The text that a file holds has no carriage returns. -/
theorem Holds.return_not_mem (h : Holds t l u) : '\r' ∉ u := by
  obtain ⟨v, -, rfl⟩ := h
  exact Text.return_not_mem_unifyNewlines v

/-- A text without carriage returns is held once it is written. -/
theorem holds_of_read? (h : t.read? l = some (encode u)) (hu : '\r' ∉ u) : Holds t l u :=
  ⟨u, h, (Text.unifyNewlines_eq_self hu).symm⟩

theorem textOf_eq_ok_iff {octets : List UInt8} :
    textOf octets = .ok u ↔ ∃ v, octets = encode v ∧ u = v.unifyNewlines := by
  rw [textOf]
  cases h : Text.Utf8.decode octets with
  | ok v =>
    constructor
    · intro hu
      exact ⟨v, decode_eq_ok_iff.mp h, (Except.ok.inj hu).symm⟩
    · rintro ⟨v', rfl, rfl⟩
      rw [decode_eq_ok_iff] at h
      rw [encode_injective h]
  | error e =>
    constructor
    · intro hu
      cases hu
    · rintro ⟨v, rfl, -⟩
      rw [Text.Utf8.decode_encode] at h
      cases h

/-- Where all can be read, every file that is selected holds a text. -/
theorem Selected.exists_holds (h : Selected t folder paths q l) (hread : Readable t folder paths) :
    ∃ u, Holds t l u := by
  have held : (t.read? l).isSome := by cases h <;> assumption
  obtain ⟨octets, hoctets⟩ := Option.isSome_iff_exists.mp held
  cases hdecode : Text.Utf8.decode octets with
  | ok v => exact ⟨v.unifyNewlines, v, by rw [hoctets, decode_eq_ok_iff.mp hdecode], rfl⟩
  | error e => exact absurd (.notText h hoctets hdecode) (hread _)

/-- Reading the octets of a file as a text fails as decoding them does. -/
theorem textOf_eq_error {octets : List UInt8} {e : Text.Utf8.Failure} :
    textOf octets = .error e ↔ Text.Utf8.decode octets = .error e := by
  rw [textOf]
  cases Text.Utf8.decode octets <;> simp

/-! ## 2. One path among many -/

theorem selected_iff : Selected t folder paths q l ↔ ∃ p ∈ paths, Selected t folder [p] q l := by
  constructor
  · rintro (⟨mem, leads, file, held⟩ | ⟨mem, leads, isFolder, held, isSource⟩)
    · exact ⟨_, mem, .named List.mem_cons_self leads file held⟩
    · exact ⟨_, mem, .below List.mem_cons_self leads isFolder held isSource⟩
  · rintro ⟨p, hp, h⟩
    cases h with
    | named mem leads file held =>
      rw [List.mem_singleton.mp mem] at leads ⊢
      exact .named hp leads file held
    | below mem leads isFolder held isSource =>
      obtain rfl := List.mem_singleton.mp mem
      exact .below hp leads isFolder held isSource

theorem obstructed_iff {o : Obstacle} :
    Obstructed t folder paths o ↔ ∃ p ∈ paths, Obstructed t folder [p] o := by
  constructor
  · intro h
    cases h with
    | missing mem leads => exact ⟨_, mem, .missing List.mem_cons_self leads⟩
    | notSource selected suffix =>
      obtain ⟨p, hp, h⟩ := selected_iff.mp selected
      exact ⟨p, hp, .notSource h suffix⟩
    | locked selected failure =>
      obtain ⟨p, hp, h⟩ := selected_iff.mp selected
      exact ⟨p, hp, .locked h failure⟩
    | notText selected held failure =>
      obtain ⟨p, hp, h⟩ := selected_iff.mp selected
      exact ⟨p, hp, .notText h held failure⟩
    | barred mem failure => exact ⟨_, mem, .barred List.mem_cons_self failure⟩
    | barredBelow mem leads isFolder listed failure =>
      exact ⟨_, mem, .barredBelow List.mem_cons_self leads isFolder listed failure⟩
  · rintro ⟨p, hp, h⟩
    cases h with
    | missing mem leads =>
      obtain rfl := List.mem_singleton.mp mem
      exact .missing hp leads
    | notSource selected suffix => exact .notSource (selected_iff.mpr ⟨p, hp, selected⟩) suffix
    | locked selected failure => exact .locked (selected_iff.mpr ⟨p, hp, selected⟩) failure
    | notText selected held failure =>
      exact .notText (selected_iff.mpr ⟨p, hp, selected⟩) held failure
    | barred mem failure =>
      obtain rfl := List.mem_singleton.mp mem
      exact .barred hp failure
    | barredBelow mem leads isFolder listed failure =>
      obtain rfl := List.mem_singleton.mp mem
      exact .barredBelow hp leads isFolder listed failure

/-- The same files are selected in trees that are alike. -/
theorem Selected.of_alike {t' : FileTree} (h : t.Alike t') (hq : Selected t folder paths q l) :
    Selected t' folder paths q l := by
  cases hq with
  | named mem leads file held =>
    exact .named mem ((h.resolve _ _).trans leads) ((h.isFolder _).trans file)
      ((h.isSome_read? _).trans held)
  | below mem leads isFolder held isSource =>
    exact .below mem ((h.resolve _ _).trans leads) ((h.isFolder _).trans isFolder)
      ((h.isSome_read? _).trans held) isSource

/-! ## 3. What a path stands for -/

/-- What the search for the files of a path comes to. -/
inductive Expansion (t : FileTree) (folder : Location) (p : Path) :
    Except Crash (List (Path × Option Location)) → Prop
  | barred {e : SystemFailure} (failure : t.barred p = some e) :
    Expansion t folder p (.error (.lookup p e))
  /-- The path leads nowhere. -/
  | nothing (free : t.barred p = none) (leads : t.resolve folder p = none) :
    Expansion t folder p (.ok [(p, none)])
  /-- The path leads to something that is no folder. -/
  | single {l : Location} (free : t.barred p = none) (leads : t.resolve folder p = some l)
    (file : t.isFolder l = false) : Expansion t folder p (.ok [(p, some l)])
  | barredBelow {l : Location} {names : List String} {e : SystemFailure}
    (leads : t.resolve folder p = some l) (isFolder : t.isFolder l = true)
    (listed : l ++ names ∈ t.folders ++ t.places) (failure : t.barred (p.below names) = some e) :
    Expansion t folder p (.error (.lookup (p.below names) e))
  /-- The path leads to a folder. -/
  | below {l : Location} {entries : List (Path × Option Location)} (free : t.barred p = none)
    (leads : t.resolve folder p = some l) (isFolder : t.isFolder l = true)
    (freeBelow : ∀ names, l ++ names ∈ t.folders ++ t.places → t.barred (p.below names) = none)
    (mem_iff : ∀ e, e ∈ entries ↔ ∃ names, (t.read? (l ++ names)).isSome ∧
      (p.below names).isSource = true ∧ e = (p.below names, some (l ++ names))) :
    Expansion t folder p (.ok entries)

theorem barredBelow?_eq_none (h : barredBelow? t p l = none) {names : List String}
    (listed : l ++ names ∈ t.folders ++ t.places) : t.barred (p.below names) = none := by
  rw [barredBelow?, List.findSome?_eq_none_iff] at h
  have hnames := h names (FileTree.mem_listed.mpr listed)
  simpa using hnames

theorem exists_of_barredBelow? {c : Crash} (h : barredBelow? t p l = some c) :
    ∃ names e, l ++ names ∈ t.folders ++ t.places ∧ t.barred (p.below names) = some e ∧
      c = .lookup (p.below names) e := by
  obtain ⟨names, hnames, hsome⟩ := List.exists_of_findSome?_eq_some h
  obtain ⟨e, he, rfl⟩ := Option.map_eq_some_iff.mp hsome
  exact ⟨names, e, FileTree.mem_listed.mp hnames, he, rfl⟩

theorem expansion (t : FileTree) (folder : Location) (p : Path) :
    Expansion t folder p (expand t folder p) := by
  rw [expand]
  cases hbarred : t.barred p with
  | some e => exact .barred hbarred
  | none =>
    cases hleads : t.resolve folder p with
    | none => exact .nothing hbarred hleads
    | some l =>
      dsimp only
      cases hfolder : t.isFolder l with
      | false => exact .single hbarred hleads hfolder
      | true =>
        rw [if_pos rfl]
        cases hbelow : barredBelow? t p l with
        | some c =>
          obtain ⟨names, e, hlisted, he, rfl⟩ := exists_of_barredBelow? hbelow
          exact .barredBelow hleads hfolder hlisted he
        | none =>
          refine .below hbarred hleads hfolder (fun _ => barredBelow?_eq_none hbelow) fun e => ?_
          simp only [List.mem_filter, List.mem_map, FileTree.mem_below,
            ← FileTree.isSome_read?_iff]
          constructor
          · rintro ⟨⟨names, hnames, rfl⟩, hsource⟩
            exact ⟨names, hnames, hsource, rfl⟩
          · rintro ⟨names, hnames, hsource, rfl⟩
            exact ⟨⟨names, hnames, rfl⟩, hsource⟩

/-- **The files that a path stands for are selected**, if there are such files.  A path that leads
nowhere stands for itself, and selects nothing. -/
theorem selected_singleton_iff {entries : List (Path × Option Location)}
    (h : expand t folder p = .ok entries) :
    Selected t folder [p] q l ↔ (q, some l) ∈ entries ∧ (t.read? l).isSome := by
  have hexpansion := expansion t folder p
  rw [h] at hexpansion
  constructor
  · rintro (⟨mem, leads', file', held⟩ | ⟨mem, leads', isFolder', held, isSource⟩)
    · obtain rfl := List.mem_singleton.mp mem
      cases hexpansion with
      | nothing free leads => simp [leads] at leads'
      | single free leads file =>
        obtain rfl := Option.some.inj (leads.symm.trans leads')
        exact ⟨List.mem_cons_self, held⟩
      | below free leads isFolder =>
        obtain rfl := Option.some.inj (leads.symm.trans leads')
        simp [isFolder] at file'
    · obtain rfl := List.mem_singleton.mp mem
      cases hexpansion with
      | nothing free leads => simp [leads] at leads'
      | single free leads file =>
        obtain rfl := Option.some.inj (leads.symm.trans leads')
        simp [file] at isFolder'
      | below free leads isFolder freeBelow mem_iff =>
        obtain rfl := Option.some.inj (leads.symm.trans leads')
        exact ⟨(mem_iff _).mpr ⟨_, held, isSource, rfl⟩, held⟩
  · rintro ⟨mem, held⟩
    cases hexpansion with
    | nothing free leads => simp at mem
    | single free leads file =>
      cases List.mem_singleton.mp mem
      exact .named List.mem_cons_self leads file held
    | below free leads isFolder freeBelow mem_iff =>
      obtain ⟨names, -, isSource, heq⟩ := (mem_iff _).mp mem
      cases heq
      exact .below List.mem_cons_self leads isFolder held isSource

/-! ## 4. Reading one file -/

theorem readSource_eq_ok_iff {s : Source} : readSource t (p, some l) = .ok s ↔
    s.path = p ∧ s.location = l ∧ p.isSource = true ∧ t.locked p = none ∧ Holds t l s.text := by
  obtain ⟨path, location, text⟩ := s
  dsimp only [readSource]
  cases hread : t.read? l with
  | none =>
    constructor
    · intro h
      cases h
    · rintro ⟨-, -, -, -, v, hv, -⟩
      rw [hread] at hv
      cases hv
  | some octets =>
    have hholds : Holds t l text ↔ textOf octets = .ok text := by
      rw [textOf_eq_ok_iff, Holds, hread]
      simp only [Option.some.injEq]
    rw [hholds]
    dsimp only
    cases hsource : p.isSource with
    | false => simp
    | true =>
      cases hlocked : t.locked p with
      | some e => simp
      | none =>
        cases textOf octets with
        | ok v => simp [Source.mk.injEq, eq_comm]
        | error e => simp

theorem readSource_none_ne_ok (p : Path) (s : Source) : readSource t (p, none) ≠ .ok s :=
  fun h => by cases h

/-- **A file of a path that cannot be worked on is an obstacle.** -/
theorem obstructed_of_readSource {entries : List (Path × Option Location)}
    (h : expand t folder p = .ok entries) {e : Path × Option Location} (he : e ∈ entries)
    {f : SourceFailure} (hread : readSource t e = .error f) :
    Obstructed t folder [p] (.failure f) := by
  have hexpansion := expansion t folder p
  rw [h] at hexpansion
  obtain ⟨q, l?⟩ := e
  -- A path that leads to no file is missing; otherwise its file is selected, and is at fault.
  cases l? with
  | none =>
    obtain rfl : SourceFailure.noSuchFile q = f := by simpa [readSource] using hread
    cases hexpansion with
    | nothing free leads =>
      cases List.mem_singleton.mp he
      exact .missing List.mem_cons_self fun l hl => by simp [leads] at hl
    | single free leads file => simp at he
    | below free leads isFolder freeBelow mem_iff =>
      obtain ⟨names, -, -, heq⟩ := (mem_iff _).mp he
      cases heq
  | some l =>
    cases hheld : t.read? l with
    | none =>
      obtain rfl : SourceFailure.noSuchFile q = f := by simpa [readSource, hheld] using hread
      cases hexpansion with
      | nothing free leads => simp at he
      | single free leads file =>
        cases List.mem_singleton.mp he
        refine .missing List.mem_cons_self fun m hm => ?_
        obtain rfl := Option.some.inj (leads.symm.trans hm)
        exact ⟨file, hheld⟩
      | below free leads isFolder freeBelow mem_iff =>
        obtain ⟨names, held, -, heq⟩ := (mem_iff _).mp he
        cases heq
        simp [hheld] at held
    | some octets =>
      have selected : Selected t folder [p] q l :=
        (selected_singleton_iff h).mpr ⟨he, by rw [hheld]; rfl⟩
      rw [readSource, hheld] at hread
      dsimp only at hread
      cases hsource : q.isSource with
      | false =>
        obtain rfl : SourceFailure.notSource q = f := by simpa [hsource] using hread
        exact .notSource selected hsource
      | true =>
        rw [hsource, if_pos rfl] at hread
        cases hlocked : t.locked q with
        | some e =>
          rw [hlocked] at hread
          cases hread
          exact .locked selected hlocked
        | none =>
          rw [hlocked] at hread
          cases htext : textOf octets with
          | ok v => simp [htext] at hread
          | error e =>
            obtain rfl : SourceFailure.unreadable q e.message = f := by simpa [htext] using hread
            exact .notText selected hheld (textOf_eq_error.mp htext)

/-! ## 5. Reading all files -/

section Traverse

variable {α β ε : Type} {f : α → Except ε β}

/-- A traversal that succeeds does so on each item. -/
theorem mapM_eq_ok_iff {xs : List α} {ys : List β} :
    xs.mapM f = .ok ys ↔ List.Forall₂ (fun x y => f x = .ok y) xs ys := by
  induction xs generalizing ys with
  | nil => cases ys <;> simp [pure, Except.pure]
  | cons x xs ih =>
    rw [List.mapM_cons]
    cases hx : f x with
    | error e => cases ys <;> simp [bind, Except.bind, hx]
    | ok y =>
      cases hxs : xs.mapM f with
      | error e => cases ys <;> simp [bind, Except.bind, hx, ← ih, hxs]
      | ok zs => cases ys <;> simp [bind, Except.bind, pure, Except.pure, hx, ← ih, hxs]

/-- A traversal succeeds when it does on each item. -/
theorem exists_mapM_eq_ok {xs : List α} (h : ∀ x ∈ xs, ∃ y, f x = .ok y) :
    ∃ ys, xs.mapM f = .ok ys := by
  induction xs with
  | nil => exact ⟨[], rfl⟩
  | cons x xs ih =>
    obtain ⟨hx, hxs⟩ := List.forall_mem_cons.mp h
    obtain ⟨y, hy⟩ := hx
    obtain ⟨ys, hys⟩ := ih hxs
    exact ⟨y :: ys, mapM_eq_ok_iff.mpr (.cons hy (mapM_eq_ok_iff.mp hys))⟩

/-- A traversal that succeeds does so on every item, and its results are those on the items. -/
theorem exists_of_mapM_eq_ok {xs : List α} {ys : List β} (h : xs.mapM f = .ok ys) :
    (∀ x ∈ xs, ∃ y ∈ ys, f x = .ok y) ∧ ∀ y ∈ ys, ∃ x ∈ xs, f x = .ok y := by
  have hall := mapM_eq_ok_iff.mp h
  clear h
  induction hall with
  | nil => simp
  | @cons x y xs ys hx _ ih =>
    constructor
    · intro z hz
      rcases List.mem_cons.mp hz with rfl | hz
      · exact ⟨y, List.mem_cons_self, hx⟩
      · obtain ⟨w, hw, hf⟩ := ih.1 z hz
        exact ⟨w, List.mem_cons_of_mem _ hw, hf⟩
    · intro w hw
      rcases List.mem_cons.mp hw with rfl | hw
      · exact ⟨x, List.mem_cons_self, hx⟩
      · obtain ⟨z, hz, hf⟩ := ih.2 w hw
        exact ⟨z, List.mem_cons_of_mem _ hz, hf⟩

/-- A traversal that fails does so on some item. -/
theorem exists_of_mapM_eq_error {xs : List α} {e : ε} (h : xs.mapM f = .error e) :
    ∃ x ∈ xs, f x = .error e := by
  induction xs with
  | nil => cases h
  | cons x xs ih =>
    rw [List.mapM_cons] at h
    cases hx : f x with
    | error e' =>
      obtain rfl : e' = e := by simpa [bind, Except.bind, hx] using h
      exact ⟨x, List.mem_cons_self, hx⟩
    | ok y =>
      cases hxs : xs.mapM f with
      | error e' =>
        obtain rfl : e' = e := by simpa [bind, Except.bind, hx, hxs] using h
        obtain ⟨z, hz, hf⟩ := ih hxs
        exact ⟨z, List.mem_cons_of_mem _ hz, hf⟩
      | ok zs => simp [bind, Except.bind, pure, Except.pure, hx, hxs] at h

end Traverse

/-- What ends the reading of the files of a path is an obstacle of this path. -/
theorem obstructed_of_readPath {o : Obstacle} (h : readPath t folder p = .error o) :
    Obstructed t folder [p] o := by
  rw [readPath] at h
  cases hexpand : expand t folder p with
  | error c =>
    rw [hexpand] at h
    cases h
    have hexpansion := expansion t folder p
    rw [hexpand] at hexpansion
    cases hexpansion with
    | barred failure => exact .barred List.mem_cons_self failure
    | barredBelow leads isFolder listed failure =>
      exact .barredBelow List.mem_cons_self leads isFolder listed failure
  | ok entries =>
    rw [hexpand] at h
    dsimp only at h
    cases hread : entries.mapM (readSource t) with
    | error f =>
      rw [hread] at h
      cases h
      obtain ⟨e, he, hf⟩ := exists_of_mapM_eq_error hread
      exact obstructed_of_readSource hexpand he hf
    | ok sources =>
      rw [hread] at h
      cases h

theorem readPath_eq_ok_iff {sources : List Source} : readPath t folder p = .ok sources ↔
    ∃ entries, expand t folder p = .ok entries ∧ entries.mapM (readSource t) = .ok sources := by
  rw [readPath]
  cases expand t folder p with
  | error c => simp
  | ok entries =>
    dsimp only
    cases hread : entries.mapM (readSource t) <;> simp [hread]

section ReadPath

variable {entries : List (Path × Option Location)} {sources : List Source}

/-- Each file that a path selects has been read, and nothing was wrong with it. -/
theorem exists_source_of_selected (hexpand : expand t folder p = .ok entries)
    (hread : entries.mapM (readSource t) = .ok sources) (h : Selected t folder [p] q l) :
    ∃ s ∈ sources, s.path = q ∧ s.location = l ∧ q.isSource = true ∧ t.locked q = none ∧
      Holds t l s.text := by
  obtain ⟨s, hs, hok⟩ :=
    (exists_of_mapM_eq_ok hread).1 _ ((selected_singleton_iff hexpand).mp h).1
  exact ⟨s, hs, readSource_eq_ok_iff.mp hok⟩

/-- A path leads somewhere if its files have been read. -/
theorem exists_resolve_of_expand (hexpand : expand t folder p = .ok entries)
    (hread : entries.mapM (readSource t) = .ok sources) :
    ∃ l, t.resolve folder p = some l ∧ (t.isFolder l = true ∨ (t.read? l).isSome) := by
  have hentries := (exists_of_mapM_eq_ok hread).1
  have hexpansion := expansion t folder p
  rw [hexpand] at hexpansion
  cases hexpansion with
  | nothing free leads =>
    obtain ⟨s, -, hs⟩ := hentries _ List.mem_cons_self
    exact absurd hs (readSource_none_ne_ok _ _)
  | @single l free leads file =>
    obtain ⟨s, -, hs⟩ := hentries _ List.mem_cons_self
    obtain ⟨-, -, -, -, v, hv, -⟩ := readSource_eq_ok_iff.mp hs
    exact ⟨l, leads, Or.inr (by rw [hv]; rfl)⟩
  | @below l _ free leads isFolder => exact ⟨l, leads, Or.inl isFolder⟩

/-- A path is looked up when it is expanded, and so is all that lies below it. -/
theorem barred_eq_none_of_expand (hexpand : expand t folder p = .ok entries) :
    t.barred p = none ∧ ∀ l names, t.resolve folder p = some l → t.isFolder l = true →
      l ++ names ∈ t.folders ++ t.places → t.barred (p.below names) = none := by
  have hexpansion := expansion t folder p
  rw [hexpand] at hexpansion
  cases hexpansion with
  | nothing free leads =>
    refine ⟨free, fun l names hl _ _ => ?_⟩
    rw [leads] at hl
    cases hl
  | single free leads file =>
    refine ⟨free, fun l names hl hfolder _ => ?_⟩
    obtain rfl := Option.some.inj (leads.symm.trans hl)
    rw [file] at hfolder
    cases hfolder
  | below free leads isFolder freeBelow =>
    refine ⟨free, fun l names hl _ hlisted => ?_⟩
    obtain rfl := Option.some.inj (leads.symm.trans hl)
    exact freeBelow names hlisted

/-- A path whose files have been read has no obstacle. -/
theorem readable_of_expand (hexpand : expand t folder p = .ok entries)
    (hread : entries.mapM (readSource t) = .ok sources) : Readable t folder [p] := by
  have hselected {q : Path} {l : Location} (h : Selected t folder [p] q l) :=
    exists_source_of_selected hexpand hread h
  obtain ⟨hfree, hfreeBelow⟩ := barred_eq_none_of_expand hexpand
  intro o ho
  cases ho with
  | missing mem leads =>
    obtain rfl := List.mem_singleton.mp mem
    obtain ⟨l, hl, hfolder | hheld⟩ := exists_resolve_of_expand hexpand hread
    · simp [(leads l hl).1] at hfolder
    · simp [(leads l hl).2] at hheld
  | notSource selected suffix =>
    obtain ⟨s, -, -, -, hsource, -⟩ := hselected selected
    simp [suffix] at hsource
  | locked selected failure =>
    obtain ⟨s, -, -, -, -, hlocked, -⟩ := hselected selected
    simp [failure] at hlocked
  | notText selected held failure =>
    obtain ⟨s, -, -, -, -, -, v, hv, -⟩ := hselected selected
    obtain rfl := Option.some.inj (held.symm.trans hv)
    simp [Text.Utf8.decode_encode] at failure
  | barred mem failure =>
    obtain rfl := List.mem_singleton.mp mem
    simp [hfree] at failure
  | barredBelow mem leads isFolder listed failure =>
    obtain rfl := List.mem_singleton.mp mem
    simp [hfreeBelow _ _ leads isFolder listed] at failure

/-- The files of a path that have been read are those that it selects. -/
theorem areSelected_of_expand (hexpand : expand t folder p = .ok entries)
    (hread : entries.mapM (readSource t) = .ok sources) : AreSelected t folder [p] sources := by
  rintro ⟨path, location, text⟩
  constructor
  · intro hs
    obtain ⟨⟨q, l?⟩, he, hok⟩ := (exists_of_mapM_eq_ok hread).2 _ hs
    cases l? with
    | none => exact absurd hok (readSource_none_ne_ok q _)
    | some l =>
      obtain ⟨rfl, rfl, -, -, holds⟩ := readSource_eq_ok_iff.mp hok
      obtain ⟨v, hv, -⟩ := id holds
      exact ⟨(selected_singleton_iff hexpand).mpr ⟨he, by rw [hv]; rfl⟩, holds⟩
  · rintro ⟨selected, holds⟩
    obtain ⟨⟨path', location', text'⟩, hs', hpath, hlocation, -, -, holds'⟩ :=
      exists_source_of_selected hexpand hread selected
    obtain rfl : path' = path := hpath
    obtain rfl : location' = location := hlocation
    obtain rfl : text' = text := holds'.unique holds
    exact hs'

end ReadPath

/-- A path whose files are read has no obstacle, and the files are those that are selected. -/
theorem of_readPath_eq_ok {sources : List Source} (h : readPath t folder p = .ok sources) :
    Readable t folder [p] ∧ AreSelected t folder [p] sources := by
  obtain ⟨entries, hexpand, hread⟩ := readPath_eq_ok_iff.mp h
  exact ⟨readable_of_expand hexpand hread, areSelected_of_expand hexpand hread⟩

/-- **What ends the reading of files is an obstacle.**  The first path that cannot be read ends it,
and what is wrong with that one path is an obstacle for all of them. -/
theorem obstructed_of_readSources {o : Obstacle} (h : readSources t folder paths = .error o) :
    Obstructed t folder paths o := by
  rw [readSources] at h
  cases hread : paths.mapM (readPath t folder) with
  | ok sourcess => simp [hread, Except.map] at h
  | error o' =>
    obtain rfl : o' = o := by simpa [hread, Except.map] using h
    obtain ⟨p, hp, hf⟩ := exists_of_mapM_eq_error hread
    exact obstructed_iff.mpr ⟨p, hp, obstructed_of_readPath hf⟩

/-- **Files that have been read are those that are selected**, and there was no obstacle.  A
traversal succeeds only if it succeeds with each of the paths, so what is known of one path carries
over to all of them. -/
theorem of_readSources_eq_ok {sources : List Source}
    (h : readSources t folder paths = .ok sources) :
    Readable t folder paths ∧ AreSelected t folder paths sources := by
  rw [readSources] at h
  cases hread : paths.mapM (readPath t folder) with
  | error o => simp [hread, Except.map] at h
  | ok sourcess =>
    obtain rfl : sourcess.flatten = sources := by simpa [hread, Except.map] using h
    obtain ⟨hpaths, hresults⟩ := exists_of_mapM_eq_ok hread
    constructor
    · intro o ho
      obtain ⟨p, hp, ho⟩ := obstructed_iff.mp ho
      obtain ⟨sources, -, hok⟩ := hpaths p hp
      exact (of_readPath_eq_ok hok).1 o ho
    · intro s
      rw [List.mem_flatten, selected_iff]
      constructor
      · rintro ⟨sources, hsources, hs⟩
        obtain ⟨p, hp, hok⟩ := hresults sources hsources
        obtain ⟨selected, holds⟩ := ((of_readPath_eq_ok hok).2 s).mp hs
        exact ⟨⟨p, hp, selected⟩, holds⟩
      · rintro ⟨⟨p, hp, selected⟩, holds⟩
        obtain ⟨sources, hsources, hok⟩ := hpaths p hp
        exact ⟨sources, hsources, ((of_readPath_eq_ok hok).2 s).mpr ⟨selected, holds⟩⟩

/-- Files are read when all that the paths stand for can be. -/
theorem exists_readSources (h : Readable t folder paths) :
    ∃ sources, readSources t folder paths = .ok sources ∧
      AreSelected t folder paths sources := by
  cases hread : readSources t folder paths with
  | error o => exact absurd (obstructed_of_readSources hread) (h o)
  | ok sources => exact ⟨sources, rfl, (of_readSources_eq_ok hread).2⟩

/-- A path that stands for one file reads it. -/
theorem readSources_singleton (hexpand : expand t folder q = .ok [(q, some l)])
    (hq : q.isSource = true) (hlocked : t.locked q = none) (hu : Holds t l u) :
    readSources t folder [q] = .ok [⟨q, l, u⟩] := by
  have hread : readSource t (q, some l) = .ok ⟨q, l, u⟩ :=
    readSource_eq_ok_iff.mpr ⟨rfl, rfl, hq, hlocked, hu⟩
  have hall : [(q, some l)].mapM (readSource t) = .ok [⟨q, l, u⟩] :=
    mapM_eq_ok_iff.mpr (.cons hread .nil)
  have hpath : readPath t folder q = .ok [⟨q, l, u⟩] := by simp only [readPath, hexpand, hall]
  have hpaths : [q].mapM (readPath t folder) = .ok [[⟨q, l, u⟩]] :=
    mapM_eq_ok_iff.mpr (.cons hpath .nil)
  rw [readSources, hpaths]
  rfl

/-- What some file that is selected holds is what some source has. -/
theorem AreSelected.exists_iff {sources : List Source}
    (h : AreSelected t folder paths sources) (such : Path → Text → Prop) :
    (∃ q l u, Selected t folder paths q l ∧ Holds t l u ∧ such q u) ↔
      ∃ s ∈ sources, such s.path s.text := by
  constructor
  · rintro ⟨q, l, u, hq, hu, hsuch⟩
    exact ⟨⟨q, l, u⟩, (h _).mpr ⟨hq, hu⟩, hsuch⟩
  · rintro ⟨s, hs, hsuch⟩
    obtain ⟨hq, hu⟩ := (h s).mp hs
    exact ⟨s.path, s.location, s.text, hq, hu, hsuch⟩

/-! ## 6. Working on all files -/

theorem shown_noSources (c : Terminal) :
    shown c noSources = .ok "No HypnoScript files found.".toList := by
  rw [shown, c.render_source _ (by decide)]
  rfl

/-- At an obstacle nothing is done. -/
theorem withSources_of_error (p : Place) (work : List Source → Outcome × FileTree) {o : Obstacle}
    (h : readSources p.tree p.folder paths = .error o) :
    withSources p paths work = (o.outcome p.terminal, p.tree) := by rw [withSources, h]

/-- Otherwise the work is done with the files that have been read; if there are none, a line for the
error stream comes before it. -/
theorem withSources_of_ok (p : Place) (work : List Source → Outcome × FileTree)
    {sources : List Source} (h : readSources p.tree p.folder paths = .ok sources) :
    ∃ errors, (sources ≠ [] → errors = []) ∧ withSources p paths work =
      ({ (work sources).1 with errors := errors ++ (work sources).1.errors },
        (work sources).2) := by
  rw [withSources, h]
  cases sources with
  | nil =>
    dsimp only
    rw [shown_noSources]
    exact ⟨["No HypnoScript files found.".toList], fun h => absurd rfl h, rfl⟩
  | cons s sources => exact ⟨[], fun _ => rfl, rfl⟩

end Command
end HypnoScript
