/-
# Paths and the words they are written as

A path that comes from a word of a command line, or leads from there to a file below a folder, is
read again as it is written (`ofString_toString`).  So a path is told by its word, and with it the
place that it leads to (`place`): no two files of a tree are shown with the same word by a command
that is carried out in one folder.
-/
import HypnoScript.Proofs.FileTree.Contents

namespace HypnoScript

/-! ## 1. Pieces between separators -/

namespace Text

theorem split_of_not_mem {separator : Char} {t : Text} (h : separator ∉ t) :
    split separator t = [t] := by
  induction t with
  | nil => rfl
  | cons c t ih =>
    rw [List.mem_cons, not_or] at h
    rw [split, if_neg (Ne.symm h.1), ih h.2]
    rfl

/-- **Pieces are found again when they have been put together**, if none of them has the separator
in it. -/
theorem split_intercalate {separator : Char} {ls : List Text} (hne : ls ≠ [])
    (h : ∀ l ∈ ls, separator ∉ l) : split separator ([separator].intercalate ls) = ls := by
  induction ls with
  | nil => exact absurd rfl hne
  | cons l ls ih =>
    obtain ⟨hl, hls⟩ := List.forall_mem_cons.mp h
    cases ls with
    | nil => rw [List.intercalate_singleton, split_of_not_mem hl]
    | cons m ls =>
      rw [List.intercalate_cons_cons, List.append_assoc, List.singleton_append,
        split_append_cons, split_of_not_mem hl, ih (List.cons_ne_nil m ls) hls]
      rfl

theorem no_separator_of_mem_split {separator : Char} {t : Text} :
    ∀ l ∈ split separator t, separator ∉ l := by
  induction t with
  | nil => simp [split]
  | cons c t ih =>
    intro l hl
    rw [split] at hl
    split at hl
    · rcases List.mem_cons.mp hl with rfl | hl
      · exact List.not_mem_nil
      · exact ih l hl
    · rename_i hc
      obtain ⟨m, ms, hm⟩ := List.exists_cons_of_ne_nil (split_ne_nil separator t)
      rw [hm] at hl ih
      rcases List.mem_cons.mp hl with rfl | hl
      · rw [List.mem_cons, not_or]
        exact ⟨Ne.symm hc, ih m List.mem_cons_self⟩
      · exact ih l (List.mem_cons_of_mem _ hl)

end Text

namespace Path

/-! ## 2. Reading a path that has been written -/

/-- A name of a file or folder: it is not empty, has no slash in it, and does not consist of one or
two points. -/
structure IsName (n : String) : Prop where
  ne_empty : n ≠ ""
  ne_point : n ≠ "."
  ne_points : n ≠ ".."
  no_slash : '/' ∉ n.toList

/-- A path as it comes from a word: the names are names, or lead back by two points. -/
structure Proper (p : Path) : Prop where
  anchor : p.anchor = "" ∨ p.anchor = "/" ∨ p.anchor = "//"
  names : ∀ n ∈ p.names, n ≠ "" ∧ n ≠ "." ∧ '/' ∉ n.toList

theorem proper_ofString (s : String) : (ofString s).Proper := by
  constructor
  · simp only [ofString, anchorOf]
    split
    · exact Or.inl rfl
    · split
      · exact Or.inr (Or.inr rfl)
      · exact Or.inr (Or.inl rfl)
  · intro n hn
    obtain ⟨hmem, hn⟩ := List.mem_filter.mp hn
    obtain ⟨l, hl, rfl⟩ := List.mem_map.mp hmem
    rw [Bool.and_eq_true, bne_iff_ne, bne_iff_ne] at hn
    rw [String.toList_ofList]
    exact ⟨hn.1, hn.2, Text.no_separator_of_mem_split l hl⟩

theorem Proper.below {p : Path} (h : p.Proper) {names : List String}
    (hnames : ∀ n ∈ names, IsName n) : (p.below names).Proper := by
  refine ⟨h.anchor, fun n hn => ?_⟩
  rcases List.mem_append.mp hn with hn | hn
  · exact h.names n hn
  · exact ⟨(hnames n hn).ne_empty, (hnames n hn).ne_point, (hnames n hn).no_slash⟩

/-- The names of a path between slashes, as they are written. -/
theorem filter_split_intercalate {names : List String}
    (h : ∀ n ∈ names, n ≠ "" ∧ n ≠ "." ∧ '/' ∉ n.toList) :
    ((Text.split '/' (['/'].intercalate (names.map String.toList))).map String.ofList).filter
      (fun n => n != "" && n != ".") = names := by
  cases names with
  | nil => decide
  | cons n names =>
    rw [Text.split_intercalate (by simp), List.map_map]
    · have hid : (String.ofList ∘ String.toList) = id := funext fun s => String.ofList_toList
      rw [hid, List.map_id, List.filter_eq_self]
      intro m hm
      have := h m hm
      simp [this.1, this.2.1]
    · intro l hl
      obtain ⟨m, hm, rfl⟩ := List.mem_map.mp hl
      exact (h m hm).2.2

/-- What is written behind the anchor of a path starts with no slash. -/
theorem head?_intercalate_ne {names : List String}
    (h : ∀ n ∈ names, n ≠ "" ∧ n ≠ "." ∧ '/' ∉ n.toList) :
    (['/'].intercalate (names.map String.toList)).head? ≠ some '/' := by
  cases names with
  | nil => decide
  | cons n names =>
    obtain ⟨hne, -, hslash⟩ := h n List.mem_cons_self
    obtain ⟨c, cs, hn⟩ : ∃ c cs, n.toList = c :: cs :=
      List.exists_cons_of_ne_nil fun hnil => hne (String.toList_eq_nil_iff.mp hnil)
    have hc : c ≠ '/' := by
      rintro rfl
      exact hslash (hn ▸ List.mem_cons_self)
    cases names with
    | nil => simpa [hn] using hc
    | cons m names => simpa [hn] using hc

/-- **A path is read as it was written.**  Reading drops the names that stand for nothing, and a
proper path has none of them, so nothing is dropped. -/
theorem ofString_toString {p : Path} (h : p.Proper) : ofString p.toString = p := by
  obtain ⟨anchor, names⟩ := p
  obtain ⟨hanchor, hnames⟩ := h
  dsimp only at hanchor hnames
  by_cases hempty : anchor = "" ∧ names = []
  · obtain ⟨rfl, rfl⟩ := hempty
    rfl
  have htext : (toString ⟨anchor, names⟩).toList =
      anchor.toList ++ ['/'].intercalate (names.map String.toList) := by
    have hwritten : ¬ (anchor.isEmpty && names.isEmpty) = true := by simpa using hempty
    rw [toString, if_neg hwritten, String.toList_append, String.toList_intercalate]
    rfl
  have htake : (['/'].intercalate (names.map String.toList)).takeWhile (· == '/') = [] := by
    have hhead := head?_intercalate_ne hnames
    cases hrest : ['/'].intercalate (names.map String.toList) with
    | nil => rfl
    | cons c cs =>
      rw [hrest] at hhead
      exact List.takeWhile_cons_of_neg (by simpa using hhead)
  have hfilter := filter_split_intercalate hnames
  simp only [ofString, htext]
  rcases hanchor with rfl | rfl | rfl
  · simp only [String.toList_empty, List.nil_append, htake, hfilter]
    rfl
  · have hslash : "/".toList = ['/'] := rfl
    simp [hslash, Text.split, htake, hfilter, anchorOf]
  · have hslashes : "//".toList = ['/', '/'] := rfl
    simp [hslashes, Text.split, htake, hfilter, anchorOf]

/-- A path is told by its word. -/
theorem toString_injective {p q : Path} (hp : p.Proper) (hq : q.Proper)
    (h : p.toString = q.toString) : p = q := by
  rw [← ofString_toString hp, h, ofString_toString hq]

/-! ## 3. Where a path leads -/

/-- The location that a path leads to, if all that it leads through are folders. -/
def place (folder : Location) (p : Path) : Location :=
  p.names.foldl FileTree.enter (if p.anchor.isEmpty then folder else [])

theorem eq_foldl_of_follow {t : FileTree} {names : List String} : ∀ {l m : Location},
    t.follow l names = some m → m = names.foldl FileTree.enter l := by
  induction names with
  | nil =>
    intro l m h
    exact (Option.some.inj h).symm
  | cons n names ih =>
    intro l m h
    rw [FileTree.follow] at h
    split at h
    · exact ih h
    · cases h

theorem eq_place_of_resolve {t : FileTree} {folder l : Location} {p : Path}
    (h : t.resolve folder p = some l) : l = p.place folder := eq_foldl_of_follow h

/-- Names that are names lead further down. -/
theorem place_below {names : List String} (h : ∀ n ∈ names, IsName n) (folder : Location)
    (p : Path) : (p.below names).place folder = p.place folder ++ names := by
  have hfoldl : ∀ (names : List String) (l : Location), (∀ n ∈ names, IsName n) →
      names.foldl FileTree.enter l = l ++ names := by
    intro names
    induction names with
    | nil => exact fun l _ => (List.append_nil l).symm
    | cons n names ih =>
      intro l h
      obtain ⟨hn, hnames⟩ := List.forall_mem_cons.mp h
      rw [List.foldl_cons, FileTree.enter, if_neg hn.ne_points, ih _ hnames, List.append_assoc]
      rfl
  rw [place, below, List.foldl_append]
  exact hfoldl names _ h

end Path

/-- A tree whose files are found by names. -/
def FileTree.Named (t : FileTree) : Prop := ∀ l ∈ t.places, ∀ n ∈ l, Path.IsName n

end HypnoScript
