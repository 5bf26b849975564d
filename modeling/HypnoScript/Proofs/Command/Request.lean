/-
# What the words of a command line lead to

A command is carried out when the words ask for it, the log level is known and no path is turned
away (`Asks`); then nothing else about the words counts (`runWords_of_asks`).  Whatever is asked
for, its paths are read from words (`readFromWords_pathsOf`), and words that ask to lay out files
ask to check their layout with one word more (`ofWords_check`).
-/
import HypnoScript.Main

namespace HypnoScript
namespace Command

variable {p : Place} {words : List String} {c : Command}

/-! ## 1. Commands that are carried out -/

/-- The words ask for a command, the log level that is set exists unless everything is to be logged,
and no path of the command is turned away. -/
structure Asks (p : Place) (words : List String) (c : Command) : Prop where
  words : ∃ verbose, Invocation.ofWords words = .named verbose (.run c) ∧
    (verbose = true ∨ ∃ level, p.settings.checkLogLevel = .ok level)
  paths : ∀ q ∈ c.paths, p.tree.turnsAway p.folder q = false

/-- Without settings the log level is known. -/
theorem checkLogLevel_default : ∃ level, Settings.checkLogLevel {} = .ok level :=
  ⟨_, if_pos (by decide +kernel)⟩

/-- **What is asked for is carried out.**  The words may name other options too, and in any order;
once they have been read, only the command and its paths are left. -/
theorem runWords_of_asks (h : Asks p words c) : runWords p words = run p c := by
  obtain ⟨⟨verbose, hwords, hlevel⟩, hpaths⟩ := h
  have hpaths : c.paths.any (p.tree.turnsAway p.folder) = false := by simpa using hpaths
  rw [runWords, hwords]
  cases verbose with
  | true => simp [hpaths]
  | false =>
    rcases hlevel with hlevel | ⟨level, hlevel⟩
    · cases hlevel
    · simp [hlevel, hpaths]

/-- A command that is named has been carried out if the exit code is zero. -/
theorem asks_of_exitCode_eq_zero {verbose : Bool}
    (hwords : Invocation.ofWords words = .named verbose (.run c))
    (h : (runWords p words).1.exitCode = 0) : Asks p words c := by
  rw [runWords, hwords] at h
  have hlevel : verbose = true ∨ ∃ level, p.settings.checkLogLevel = .ok level := by
    cases verbose with
    | true => exact Or.inl rfl
    | false =>
      cases hlevel : p.settings.checkLogLevel with
      | ok level => exact Or.inr ⟨level, rfl⟩
      | error e => simp [hlevel, Outcome.crashed] at h
  refine ⟨⟨verbose, hwords, hlevel⟩, ?_⟩
  cases hpaths : c.paths.any (p.tree.turnsAway p.folder) with
  | false => simpa using hpaths
  | true =>
    rcases hlevel with rfl | ⟨level, hlevel⟩
    · simp [hpaths] at h
    · cases verbose <;> simp [hlevel, hpaths] at h

theorem Request.ofWords_eq_run_iff {w? : Option Words} {command : Words → Option Command} :
    Request.ofWords w? command = .run c ↔
      ∃ w, w? = some w ∧ w.has "--help" = false ∧ command w = some c := by
  cases w? with
  | none => simp [Request.ofWords]
  | some w =>
    dsimp only [Request.ofWords]
    cases hhelp : w.has "--help" with
    | true => simp [hhelp]
    | false => cases hcommand : command w <;> simp [hhelp, hcommand]

/-! ## 2. Where paths come from -/

/-- The paths are read from words. -/
def ReadFromWords (paths : List Path) : Prop := ∃ args : List String, paths = args.map Path.ofString

theorem readFromWords_nil : ReadFromWords [] := ⟨[], rfl⟩

theorem readFromWords_of_pathsOf {w : Words} {paths : List Path} (h : pathsOf w = some paths) :
    ReadFromWords paths := by
  unfold pathsOf at h
  split at h
  · cases h
  · exact ⟨w.arguments, (Option.some.inj h).symm⟩

/-- What a request is for has its paths read from words. -/
def Request.FromWords (r : Request) : Prop :=
  ∀ verbose, ReadFromWords (Console.pathsOf (.named verbose r))

theorem Request.fromWords_ofWords {w? : Option Words} {command : Words → Option Command}
    (h : ∀ w c, command w = some c → (Request.run c).FromWords) :
    (Request.ofWords w? command).FromWords := by
  intro verbose
  cases w? with
  | none => exact readFromWords_nil
  | some w =>
    dsimp only [Request.ofWords]
    split
    · exact readFromWords_nil
    · split
      · rename_i c hc
        exact h w c hc verbose
      · exact readFromWords_nil

theorem fromWords_checkRequest (words : List String) : (checkRequest words).FromWords := by
  refine Request.fromWords_ofWords fun w c hc _ => ?_
  obtain ⟨paths, hpaths, rfl⟩ : ∃ paths, pathsOf w = some paths ∧ _ = c := by
    simpa [Option.bind_eq_some_iff] using hc
  exact readFromWords_of_pathsOf hpaths

theorem fromWords_fixRequest (words : List String) : (fixRequest words).FromWords := by
  refine Request.fromWords_ofWords fun w c hc _ => ?_
  obtain ⟨paths, hpaths, rfl⟩ : ∃ paths, pathsOf w = some paths ∧ _ = c := by
    simpa [Option.bind_eq_some_iff] using hc
  exact readFromWords_of_pathsOf hpaths

theorem fromWords_formatRequest (words : List String) : (formatRequest words).FromWords := by
  refine Request.fromWords_ofWords fun w c hc _ => ?_
  simp only [Option.bind_eq_bind, Option.bind_eq_some_iff] at hc
  obtain ⟨paths, hpaths, width, -, hc⟩ := hc
  split at hc
  · cases hc
  · obtain rfl := Option.some.inj hc
    exact readFromWords_of_pathsOf hpaths

theorem fromWords_outlineRequest (words : List String) : (outlineRequest words).FromWords := by
  refine Request.fromWords_ofWords fun w c hc _ => ?_
  split at hc
  · rename_i q _
    obtain rfl := Option.some.inj hc
    exact ⟨[q], rfl⟩
  · cases hc

/-- A server has no paths. -/
theorem fromWords_serve (server : Server) : (Request.run (.serve server)).FromWords :=
  fun _ => readFromWords_nil

theorem fromWords_serverRequest (name : String) (words : List String) :
    (serverRequest name words).FromWords := by
  unfold serverRequest
  split
  · refine Request.fromWords_ofWords fun w c hc => ?_
    simp only [Option.bind_eq_bind, Option.bind_eq_some_iff] at hc
    obtain ⟨port, -, hc⟩ := hc
    split at hc
    · obtain rfl := Option.some.inj hc
      exact fromWords_serve .api
    · cases hc
  · split
    · refine Request.fromWords_ofWords fun w c hc => ?_
      split at hc
      · obtain rfl := Option.some.inj hc
        exact fromWords_serve .tools
      · cases hc
    · exact fun _ => readFromWords_nil

theorem fromWords_serveRequest (words : List String) : (serveRequest words).FromWords := by
  intro verbose
  unfold serveRequest
  split
  · exact readFromWords_nil
  · split
    · exact readFromWords_nil
    · split
      · exact fromWords_serverRequest _ _ verbose
      · exact readFromWords_nil

/-- The five commands. -/
theorem fromWords_of_named? {name : String} {request : List String → Request}
    (h : named? name = some request) : (request words).FromWords := by
  obtain ⟨_, _, htable, -⟩ := List.lookup_eq_some_iff.mp h
  have hmem : (name, request) ∈ [("check", checkRequest), ("fix", fixRequest),
      ("format", formatRequest), ("outline", outlineRequest), ("serve", serveRequest)] := by
    rw [htable]
    simp
  simp only [List.mem_cons, Prod.mk.injEq, List.not_mem_nil, or_false] at hmem
  rcases hmem with ⟨-, rfl⟩ | ⟨-, rfl⟩ | ⟨-, rfl⟩ | ⟨-, rfl⟩ | ⟨-, rfl⟩
  · exact fromWords_checkRequest words
  · exact fromWords_fixRequest words
  · exact fromWords_formatRequest words
  · exact fromWords_outlineRequest words
  · exact fromWords_serveRequest words

/-- **The paths of a command line are read from words**, whichever command they belong to: all of
them take their paths from the words that are no options. -/
theorem readFromWords_pathsOf (words : List String) :
    ReadFromWords (Console.pathsOf (Invocation.ofWords words)) := by
  dsimp only [Invocation.ofWords]
  split
  · exact readFromWords_nil
  · split
    · exact readFromWords_nil
    · split
      · exact readFromWords_nil
      · split
        · rename_i request hrequest
          exact fromWords_of_named? hrequest _
        · exact readFromWords_nil

/-! ## 3. Asking for a check only -/

theorem Words.has_addOption (w : Words) (name value other : String) :
    (w.addOption name value).has other = (name == other || w.has other) := by
  simp [Words.has, Words.addOption]

theorem Words.value?_addOption_of_ne (w : Words) {name other : String} (value : String)
    (h : name ≠ other) : (w.addOption name value).value? other = w.value? other := by
  simp [Words.value?, Words.addOption, List.find?_append, h]

theorem sortWords_check {table : OptionTable} (h : table.flags.contains "--check" = true)
    (mixed : Bool) (args : List String) :
    sortWords table mixed ("--check" :: args) =
      (sortWords table mixed args).map (·.addOption "--check" "") := by
  have hlist : "--check".toList = ['-', '-', 'c', 'h', 'e', 'c', 'k'] := by decide
  have hsplit : splitValue ['-', '-', 'c', 'h', 'e', 'c', 'k'] = ("--check", none) := by decide
  rw [sortWords, hlist]
  simp only [hsplit, h, if_true]
  rfl

/-- **One word more** makes a request to lay out files one to check their layout only. -/
theorem formatRequest_check {args : List String} {checkOnly toOutput : Bool} {paths : List Path}
    {width : Int} (h : formatRequest args = .run (.format paths checkOnly toOutput width)) :
    formatRequest ("--check" :: args) = .run (.format paths true toOutput width) := by
  unfold formatRequest at h ⊢
  rw [Request.ofWords_eq_run_iff] at h ⊢
  obtain ⟨w, hw, hhelp, hcommand⟩ := h
  refine ⟨w.addOption "--check" "", ?_, ?_, ?_⟩
  · rw [sortWords_check (by decide), hw]
    rfl
  · rw [Words.has_addOption, hhelp]
    decide
  · have hwidth : intOption (w.addOption "--check" "") "--indent-width" 4 =
        intOption w "--indent-width" 4 := by
      rw [intOption, intOption, Words.value?_addOption_of_ne w "" (by decide)]
    have hstdout : (w.addOption "--check" "").has "--stdout" = w.has "--stdout" := by
      rw [Words.has_addOption]
      rfl
    simp only [Option.bind_eq_bind, Option.bind_eq_some_iff] at hcommand ⊢
    obtain ⟨ps, hps, n, hn, hcommand⟩ := hcommand
    refine ⟨ps, hps, n, hwidth.trans hn, ?_⟩
    split at hcommand
    · cases hcommand
    · rename_i hroom
      cases hcommand
      rw [if_neg hroom, hstdout, Words.has_addOption]
      rfl

theorem ofWords_check {args : List String} {verbose checkOnly toOutput : Bool} {paths : List Path}
    {width : Int} (h : Invocation.ofWords ("format" :: args) =
      .named verbose (.run (.format paths checkOnly toOutput width))) :
    Invocation.ofWords ("format" :: "--check" :: args) =
      .named verbose (.run (.format paths true toOutput width)) := by
  have hwords (args : List String) :
      Invocation.ofWords ("format" :: args) = .named false (formatRequest args) := rfl
  rw [hwords, Invocation.named.injEq] at h ⊢
  exact ⟨h.1, formatRequest_check h.2⟩

end Command
end HypnoScript
