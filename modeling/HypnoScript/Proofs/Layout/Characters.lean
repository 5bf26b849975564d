/-
# The characters of a text that is laid out

Layout makes up no characters but the spaces that it puts in and the newlines between the lines:
every other character of a text that is laid out is one of the text (`mem_of_mem_format`).  In
particular there are no carriage returns afterwards where there were none before.
-/
import HypnoScript.Layout

namespace HypnoScript

/-! ## 1. Trimming and joining -/

namespace Text

variable {c : Char} {t : Text}

theorem mem_of_mem_dropTrailing {p : Char → Bool} (h : c ∈ t.dropTrailing p) : c ∈ t := by
  have hrev : c ∈ t.reverse.dropWhile p := List.mem_reverse.mp h
  exact List.mem_reverse.mp ((List.dropWhile_sublist p).mem hrev)

theorem mem_of_mem_trimLeft (h : c ∈ t.trimLeft) : c ∈ t := (List.dropWhile_sublist isBlank).mem h

theorem mem_of_mem_trim (h : c ∈ t.trim) : c ∈ t := mem_of_mem_trimLeft (mem_of_mem_dropTrailing h)

theorem mem_of_mem_joinLines {ls : List Text} (h : c ∈ joinLines ls) :
    c = '\n' ∨ ∃ l ∈ ls, c ∈ l := by
  induction ls with
  | nil => exact absurd h List.not_mem_nil
  | cons l ls ih =>
    cases ls with
    | nil => exact Or.inr ⟨l, List.mem_cons_self, h⟩
    | cons m ls =>
      rw [joinLines, List.mem_append, List.mem_cons] at h
      · rcases h with h | h | h
        · exact Or.inr ⟨l, List.mem_cons_self, h⟩
        · exact Or.inl h
        · rcases ih h with h | ⟨k, hk, h⟩
          · exact Or.inl h
          · exact Or.inr ⟨k, List.mem_cons_of_mem l hk, h⟩
      · simp

theorem mem_joinLines_of_mem {ls : List Text} {l : Text} (hl : l ∈ ls) (hc : c ∈ l) :
    c ∈ joinLines ls := by
  induction ls with
  | nil => exact absurd hl List.not_mem_nil
  | cons m ls ih =>
    rcases List.mem_cons.mp hl with rfl | hl
    · cases ls with
      | nil => exact hc
      | cons k ls => exact List.mem_append_left _ hc
    · rw [joinLines_cons m (List.ne_nil_of_mem hl)]
      exact List.mem_append_right _ (List.mem_cons_of_mem _ (ih hl))

/-- The characters of the lines of a text are characters of the text. -/
theorem mem_of_mem_lines {l : Text} (hl : l ∈ t.lines) (hc : c ∈ l) : c ∈ t := by
  rw [← joinLines_lines t]
  exact mem_joinLines_of_mem hl hc

end Text

/-! ## 2. Spacing -/

namespace Spacing

theorem mem_of_mem_spaceFrom {c : Char} {cs : List Cell} : ∀ {before : List Cell},
    c ∈ spaceFrom before cs → c = ' ' ∨ c ∈ cs.map Cell.raw := by
  induction cs with
  | nil => exact fun h => absurd h List.not_mem_nil
  | cons d cs ih =>
    intro before h
    rw [spaceFrom, List.mem_append, List.mem_append] at h
    rcases h with (h | h) | h
    · split at h
      · exact Or.inl (List.mem_singleton.mp h)
      · exact absurd h List.not_mem_nil
    · split at h
      · exact absurd h List.not_mem_nil
      · exact Or.inr (by simp [List.mem_singleton.mp h])
    · rcases ih h with h | h
      · exact Or.inl h
      · exact Or.inr (List.mem_cons_of_mem _ h)

theorem mem_of_mem_raw_cells {c : Char} {line code : Text}
    (h : c ∈ (cells line code).map Cell.raw) : c ∈ line := by
  obtain ⟨d, hd, rfl⟩ := List.mem_map.mp h
  rw [cells, ← List.map_uncurry_zip_eq_zipWith] at hd
  obtain ⟨⟨raw, code, mark⟩, hmem, rfl⟩ := List.mem_map.mp hd
  exact (List.of_mem_zip hmem).1

end Spacing

theorem mem_of_mem_spaceLine {c : Char} {line code : Text} (h : c ∈ spaceLine line code) :
    c = ' ' ∨ c ∈ line :=
  (Spacing.mem_of_mem_spaceFrom h).imp_right Spacing.mem_of_mem_raw_cells

/-! ## 3. Layout -/

namespace Layout

variable {c : Char} {dialect : Dialect}

theorem mem_of_mem_body {line code : Text} {endsInString : Bool}
    (h : c ∈ body line code endsInString) : c = ' ' ∨ c ∈ line := by
  have hspaced : c ∈ spaceLine line code := by
    unfold body at h
    split at h
    · exact Text.mem_of_mem_trimLeft h
    · exact Text.mem_of_mem_trim h
  exact mem_of_mem_spaceLine hspaced

theorem mem_of_mem_layLine {level : Nat} {s : LineShape} {line code : Text} {r : Region}
    {endsInString : Bool} (h : c ∈ layLine dialect level s line code r endsInString) :
    c = ' ' ∨ c ∈ line := by
  dsimp only [layLine] at h
  split at h
  · exact Or.inr (Text.mem_of_mem_dropTrailing h)
  · split at h
    · exact absurd h List.not_mem_nil
    · rcases List.mem_append.mp h with h | h
      · exact Or.inl (List.eq_of_mem_replicate h)
      · exact (mem_of_mem_body h).imp_right Text.mem_of_mem_dropTrailing

theorem mem_of_mem_layLines {ls codes : List Text} {regions : List Region} : ∀ {level : Nat}
    {out : Text}, out ∈ layLines dialect level ls codes regions → c ∈ out →
      c = ' ' ∨ ∃ l ∈ ls, c ∈ l := by
  induction ls generalizing codes regions with
  | nil =>
    intro level out h
    simp [layLines] at h
  | cons l ls ih =>
    intro level out h hc
    cases codes with
    | nil => simp [layLines] at h
    | cons code codes =>
      cases regions with
      | nil => simp [layLines] at h
      | cons r regions =>
        rcases List.mem_cons.mp h with rfl | h
        · exact (mem_of_mem_layLine hc).imp_right fun h => ⟨l, List.mem_cons_self, h⟩
        · refine (ih h hc).imp_right fun h => ?_
          obtain ⟨k, hk, hc⟩ := h
          exact ⟨k, List.mem_cons_of_mem l hk, hc⟩

end Layout

/-- **Layout makes up spaces and newlines only.**  Each step by which a line is laid out drops
characters, or puts in spaces. -/
theorem mem_of_mem_format {c : Char} {dialect : Dialect} {t : Text} (h : c ∈ format dialect t) :
    c ∈ t ∨ c = ' ' ∨ c = '\n' := by
  rcases Text.mem_of_mem_joinLines h with h | ⟨out, hout, hc⟩
  · exact Or.inr (Or.inr h)
  · rcases Layout.mem_of_mem_layLines hout hc with h | ⟨l, hl, hc⟩
    · exact Or.inr (Or.inl h)
    · exact Or.inl (Text.mem_of_mem_lines hl hc)

end HypnoScript
