/-
# What a file tree holds

A tree is seen through `read?`.  Writing changes what one file holds and no other
(`read?_write`), and it leaves the folders, the places of the files and what the operating system
refuses as they were (`Alike`).  Which files a path stands for depends on these alone, so it is the
same before and after.
-/
import HypnoScript.FileTree.Basic

namespace HypnoScript
namespace FileTree

/-- The locations of the files. -/
def places (t : FileTree) : List Location := t.files.map Prod.fst

/-! ## 1. Files and their places -/

theorem isSome_read?_iff {t : FileTree} {l : Location} : (t.read? l).isSome ↔ l ∈ t.places := by
  rw [read?, List.lookup_isSome_iff, places, List.mem_map]
  simp only [beq_iff_eq]
  exact exists_congr fun f => and_congr_right fun _ => eq_comm

theorem relative?_eq_some_iff {base l : Location} {names : List String} :
    relative? base l = some names ↔ l = base ++ names := by
  induction base generalizing l with
  | nil => simp [relative?, eq_comm]
  | cons b base ih =>
    cases l with
    | nil => simp [relative?]
    | cons n l =>
      rw [relative?]
      split
      · rename_i h
        simp [ih, h]
      · rename_i h
        simp [Ne.symm h]

/-- Below a folder lies what has a place that starts with it. -/
theorem mem_listed {t : FileTree} {l : Location} {names : List String} :
    names ∈ t.listed l ↔ l ++ names ∈ t.folders ++ t.places := by
  rw [listed, List.mem_filterMap, places]
  constructor
  · rintro ⟨m, hm, h⟩
    rwa [← relative?_eq_some_iff.mp h]
  · intro h
    exact ⟨_, h, relative?_eq_some_iff.mpr rfl⟩

/-- **Below a folder are the files whose places start with it.** -/
theorem mem_below {t : FileTree} {l : Location} {names : List String} :
    names ∈ t.below l ↔ l ++ names ∈ t.places := by
  rw [below, List.mem_mergeSort, List.mem_filterMap, places, List.mem_map]
  constructor
  · rintro ⟨f, hf, h⟩
    exact ⟨f, hf, relative?_eq_some_iff.mp h⟩
  · rintro ⟨f, hf, h⟩
    exact ⟨f, hf, relative?_eq_some_iff.mpr h⟩

/-! ## 2. Writing -/

/-- **A file that is written holds what was written**, and every other file what it held.  Where
there is no file, writing makes none. -/
theorem read?_write (t : FileTree) (l m : Location) (octets : List UInt8) :
    (t.write l octets).read? m = if m = l then (t.read? l).map fun _ => octets else t.read? m := by
  obtain ⟨folders, files⟩ := t
  simp only [read?, write]
  induction files with
  | nil => simp
  | cons f files ih =>
    obtain ⟨k, held⟩ := f
    rw [List.map_cons]
    by_cases hk : k = l
    · subst hk
      by_cases hm : m = k
      · simp [hm]
      · simp [List.lookup_cons, beq_eq_false_iff_ne.mpr hm, ih, hm]
    · by_cases hm : m = l
      · subst hm
        simp [hk, List.lookup_cons, beq_eq_false_iff_ne.mpr (Ne.symm hk), ih]
      · simp only [hk, if_false, List.lookup_cons, ih, hm]

/-- Trees with the same folders, with files at the same places, and with the same paths refused. -/
structure Alike (t u : FileTree) : Prop where
  folders : u.folders = t.folders
  places : u.places = t.places
  barred : u.barred = t.barred
  locked : u.locked = t.locked

theorem Alike.refl (t : FileTree) : Alike t t := ⟨rfl, rfl, rfl, rfl⟩

theorem Alike.trans {t u v : FileTree} (h : Alike t u) (h' : Alike u v) : Alike t v :=
  ⟨h'.folders.trans h.folders, h'.places.trans h.places, h'.barred.trans h.barred,
    h'.locked.trans h.locked⟩

theorem Alike.symm {t u : FileTree} (h : Alike t u) : Alike u t :=
  ⟨h.folders.symm, h.places.symm, h.barred.symm, h.locked.symm⟩

theorem alike_write (t : FileTree) (l : Location) (octets : List UInt8) :
    Alike t (t.write l octets) := by
  refine ⟨rfl, ?_, rfl, rfl⟩
  rw [places, write, List.map_map, places]
  refine List.map_congr_left fun f _ => ?_
  simp only [Function.comp_apply]
  split
  · rename_i h
    exact h.symm
  · rfl

namespace Alike

variable {t u : FileTree} (h : Alike t u)
include h

theorem isFolder (l : Location) : u.isFolder l = t.isFolder l := by
  rw [FileTree.isFolder, FileTree.isFolder, h.folders]

theorem follow (names : List String) : ∀ l : Location, u.follow l names = t.follow l names := by
  induction names with
  | nil => exact fun _ => rfl
  | cons n names ih =>
    intro l
    rw [FileTree.follow, FileTree.follow, h.isFolder, ih]

theorem resolve (folder : Location) (p : Path) : u.resolve folder p = t.resolve folder p :=
  h.follow p.names _

theorem isSome_read? (l : Location) : (u.read? l).isSome = (t.read? l).isSome := by
  rw [Bool.eq_iff_iff, isSome_read?_iff, isSome_read?_iff, h.places]

theorem listed (l : Location) : u.listed l = t.listed l := by
  have hfiles : u.files.map (·.1) = t.files.map (·.1) := h.places
  rw [FileTree.listed, FileTree.listed, h.folders, hfiles]

theorem turnsAway (folder : Location) (p : Path) :
    u.turnsAway folder p = t.turnsAway folder p := by
  simp only [FileTree.turnsAway, h.barred, h.locked, h.resolve, h.isFolder, h.isSome_read?]

end Alike

end FileTree
end HypnoScript
