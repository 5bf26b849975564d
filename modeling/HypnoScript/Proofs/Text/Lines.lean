/-
# Putting lines together and taking them apart

The lines of a text have no newline in them, and lines without newlines, at least one of them, are
the lines of the text that they are put together to.  So a text can be followed line by line
(`line_induction`).
-/
import HypnoScript.Text.Basic

namespace HypnoScript
namespace Text

/-- A text without newlines has itself as its only line. -/
theorem lines_of_no_newline : ∀ {t : Text}, '\n' ∉ t → lines t = [t]
  | [], _ => rfl
  | c :: cs, h => by
    have hc : c ≠ '\n' := fun e => h (e ▸ List.mem_cons_self)
    have ih : split '\n' cs = [cs] := lines_of_no_newline fun hm => h (List.mem_cons_of_mem _ hm)
    simp [lines, split, hc, ih]

/-- What stands in front of a text without a newline belongs to its first line. -/
theorem lines_append_of_no_newline {l m t : Text} {ms : List Text} (hl : '\n' ∉ l)
    (ht : lines t = m :: ms) : lines (l ++ t) = (l ++ m) :: ms := by
  induction l with
  | nil => exact ht
  | cons c l ih =>
    have hc : c ≠ '\n' := fun e => hl (e ▸ List.mem_cons_self)
    have ih : split '\n' (l ++ t) = (l ++ m) :: ms := ih fun h => hl (List.mem_cons_of_mem _ h)
    simp [lines, split, hc, ih]

/-- Lines without newlines are found again when they have been put together. -/
theorem lines_joinLines : ∀ {ls : List Text}, ls ≠ [] → (∀ l ∈ ls, '\n' ∉ l) →
    lines (joinLines ls) = ls
  | [], h, _ => absurd rfl h
  | [l], _, hl => lines_of_no_newline (hl l (by simp))
  | l :: l' :: ls, _, hl => by
    rw [joinLines_cons l (List.cons_ne_nil _ _), lines_append_newline,
      lines_of_no_newline (hl l (by simp)),
      lines_joinLines (List.cons_ne_nil _ _) fun x hx => hl x (List.mem_cons_of_mem _ hx)]
    rfl

theorem no_newline_of_mem_lines (t : Text) : ∀ l ∈ lines t, '\n' ∉ l := by
  induction t with
  | nil => simp [lines, split]
  | cons c cs ih =>
    obtain ⟨l, ls, h⟩ := List.exists_cons_of_ne_nil (lines_ne_nil cs)
    simp only [lines] at ih h
    rw [lines, split]
    split
    · intro x hx
      rcases List.mem_cons.mp hx with rfl | hx
      · simp
      · exact ih x hx
    · rename_i hc
      rw [h] at ih ⊢
      simp only [List.modifyHead_cons, List.mem_cons, forall_eq_or_imp] at ih ⊢
      exact ⟨fun hm => hm.elim (fun e => hc e.symm) ih.1, ih.2⟩

/-- A line is what stands in front of the next newline, or of the end of the text. -/
theorem takeWhile_line {l rest : Text} (hl : '\n' ∉ l) (hrest : ∀ c ∈ rest.head?, c = '\n') :
    (l ++ rest).takeWhile (· != '\n') = l := by
  have hinside : ∀ c ∈ l, (c != '\n') = true := by
    intro c hc
    rw [bne_iff_ne]
    rintro rfl
    exact hl hc
  rw [List.takeWhile_append_of_pos hinside]
  cases rest with
  | nil => simp
  | cons c rest => simp [hrest c rfl]

/-- To show something of every text, it is enough to put a line in front of one. -/
@[elab_as_elim]
theorem line_induction {motive : Text → Prop} (last : ∀ l, '\n' ∉ l → motive l)
    (line : ∀ l t, '\n' ∉ l → motive t → motive (l ++ '\n' :: t)) (t : Text) : motive t := by
  have key : ∀ ls : List Text, ls ≠ [] → (∀ l ∈ ls, '\n' ∉ l) → motive (joinLines ls) := by
    intro ls hne hls
    induction ls with
    | nil => exact absurd rfl hne
    | cons l ls ih =>
      obtain ⟨hl, hls⟩ := List.forall_mem_cons.mp hls
      by_cases hnil : ls = []
      · subst hnil
        exact last l hl
      · rw [joinLines_cons l hnil]
        exact line l _ hl (ih hnil hls)
  rw [← joinLines_lines t]
  exact key _ (lines_ne_nil t) (no_newline_of_mem_lines t)

theorem joinLines_append {ls ms : List Text} (hl : ls ≠ []) (hm : ms ≠ []) :
    joinLines (ls ++ ms) = joinLines ls ++ '\n' :: joinLines ms := by
  induction ls with
  | nil => exact absurd rfl hl
  | cons l ls ih =>
    by_cases hnil : ls = []
    · subst hnil
      exact joinLines_cons l hm
    · rw [List.cons_append, joinLines_cons l (by simp [hm]), joinLines_cons l hnil, ih hnil,
        List.append_assoc]
      rfl

/-- A text whose last line is empty is empty, or ends with a newline. -/
theorem eq_of_last_line_nil {t : Text} (h : (lines t).getLast? = some []) :
    t = [] ∨ ∃ u, t = u ++ ['\n'] := by
  induction t using line_induction with
  | last l hl =>
    rw [lines_of_no_newline hl] at h
    exact Or.inl (Option.some.inj h)
  | line l t hl ih =>
    have hlast := List.getLast?_eq_some_getLast (lines_ne_nil t)
    rw [lines_append_newline, List.getLast?_append, hlast, Option.some_or, ← hlast] at h
    rcases ih h with rfl | ⟨u, rfl⟩
    · exact Or.inr ⟨l, rfl⟩
    · exact Or.inr ⟨l ++ '\n' :: u, by simp⟩

end Text
end HypnoScript
