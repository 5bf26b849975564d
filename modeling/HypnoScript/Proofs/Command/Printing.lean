/-
# What can be printed

A terminal shows every text that is plain, whatever it makes of others.  Of what the commands print
all is plain but the paths: the numbers, the texts of the messages in every language, with the names
of variables in them, and the kinds and codes of the diagnostics (`isPlain_of_mem_row`).  So a
command can only break off where a path is printed.
-/
import HypnoScript.Command.Run
import HypnoScript.Proofs.Analysis.Ranges

namespace HypnoScript
namespace Command

open Markup (isPlain isPlainChar)

variable {c : Terminal}

/-! ## 1. Plain texts -/

theorem shown_eq_ok_iff {m : Markup} {t : Text} :
    shown c m = .ok t ↔ c.render m.source = .ok t := by
  rw [shown]
  cases c.render m.source <;> simp

/-- A plain text is shown as it is. -/
theorem shown_of_isPlain {m : Markup} (h : m.isPlain = true) : shown c m = .ok m.text := by
  rw [shown, c.render_source m h]

theorem isPlain_plain (s : String) : (Markup.plain s).isPlain = s.toList.all isPlainChar := by
  simp [Markup.plain, isPlain]

/-- Word characters are plain: the characters that are not are none of them. -/
theorem isPlainChar_of_isWord {d : Char} (h : Text.isWord d = true) : isPlainChar d = true := by
  rw [isPlainChar]
  simp only [Bool.and_eq_true, bne_iff_ne]
  refine ⟨⟨?_, ?_⟩, ?_⟩ <;> rintro rfl <;> exact absurd h (by decide)

theorem isPlainChar_of_isDigit {d : Char} (h : d.isDigit = true) : isPlainChar d = true := by
  rw [isPlainChar]
  simp only [Bool.and_eq_true, bne_iff_ne]
  refine ⟨⟨?_, ?_⟩, ?_⟩ <;> rintro rfl <;> exact absurd h (by decide)

/-- A number is written with digits. -/
theorem all_isPlainChar_toString (n : Nat) : (toString n).toList.all isPlainChar = true := by
  have hlist : (toString n).toList = Nat.toDigits 10 n := by
    rw [Nat.toString_eq_repr, Nat.repr, String.toList_ofList]
  rw [hlist, List.all_eq_true]
  intro d hd
  exact isPlainChar_of_isDigit (Nat.isDigit_of_mem_toDigits (by decide) (by decide) hd)

/-- A plain text into which plain texts are put stays plain. -/
theorem all_isPlainChar_replace {pattern new t : Text} (hnew : new.all isPlainChar = true)
    (ht : t.all isPlainChar = true) : (Text.replace pattern new t).all isPlainChar = true := by
  have hfrom : ∀ (t : Text) (skip : Nat), t.all isPlainChar = true →
      (Text.replaceFrom pattern new skip t).all isPlainChar = true := by
    intro t
    induction t with
    | nil => intro skip _; cases skip <;> rfl
    | cons d t ih =>
      intro skip h
      rw [List.all_cons, Bool.and_eq_true] at h
      cases skip with
      | succ skip => exact ih skip h.2
      | zero =>
        rw [Text.replaceFrom]
        split
        · rw [List.all_append, hnew, ih _ h.2]
          rfl
        · rw [List.all_cons, h.1, ih 0 h.2]
          rfl
  exact hfrom t 0 ht

/-! ## 2. Lines of the commands -/

theorem shown_countLine {verb : String} (h : verb.toList.all isPlainChar = true) (dry : Bool)
    (n : Nat) : ∃ line, shown c (countLine verb dry n) = .ok line := by
  refine ⟨_, shown_of_isPlain ?_⟩
  have hfiles : (toString " file(s) ").toList.all isPlainChar = true := by decide
  have hwould : (if dry then "would be " else "").toList.all isPlainChar = true := by
    cases dry <;> decide
  simp only [countLine, isPlain_plain, String.toList_append, List.all_append,
    all_isPlainChar_toString, hfiles, hwould, h, Bool.and_true]

theorem shown_summary (gs : List Diagnostic) : ∃ line, shown c (summary gs) = .ok line := by
  refine ⟨_, shown_of_isPlain ?_⟩
  have herrors : (toString " error(s), ").toList.all isPlainChar = true := by decide
  have hwarnings : (toString " warning(s), ").toList.all isPlainChar = true := by decide
  have hhints : (toString " hint(s)").toList.all isPlainChar = true := by decide
  simp only [summary, isPlain_plain, String.toList_append, List.all_append,
    all_isPlainChar_toString, herrors, hwarnings, hhints, Bool.and_true]

/-! ## 3. Tables of diagnostics -/

variable {dialect : Dialect} {t : Text} {g : Diagnostic}

/-- The texts of the messages are plain in every language. -/
theorem all_isPlainChar_wording (language : Language) (m : Message) :
    (language.wording m).toList.all isPlainChar = true := by
  cases language <;> cases m <;> decide +kernel

/-- A message is one of the texts of a language, or the one about a variable with its name. -/
theorem all_isPlainChar_message {language : Language}
    (hg : g ∈ analyze dialect language.wording t) : g.message.toList.all isPlainChar = true := by
  simp only [analyze, Document.diagnostics, List.mem_append] at hg
  rcases hg with ((hg | hg) | hg) | hg
  · cases Wrapper.reported_of_mem hg <;> exact all_isPlainChar_wording language _
  · obtain ⟨o, -, rfl⟩ := List.mem_map.mp hg
    exact all_isPlainChar_wording language _
  · obtain ⟨n, -, rfl⟩ := List.mem_map.mp hg
    exact all_isPlainChar_wording language _
  · obtain ⟨v, hv, -, o, ho, rfl⟩ := Declaration.mem_check_iff.mp hg
    obtain ⟨-, hname⟩ :=
      Declaration.standsAt_sites (Declaration.mem_sites_of_mem_declarations hv ho)
    rw [Declaration.hintAt, Message.withName, String.toList_ofList]
    refine all_isPlainChar_replace ?_ (all_isPlainChar_wording language _)
    exact List.all_eq_true.mpr fun d hd => isPlainChar_of_isWord (hname d hd)

theorem isPlain_of_mem_row {language : Language} (hg : g ∈ analyze dialect language.wording t)
    {m : Markup} (hm : m ∈ row g) : m.isPlain = true := by
  simp only [row, List.mem_cons, List.not_mem_nil, or_false] at hm
  rcases hm with rfl | rfl | rfl | rfl | rfl
  · rw [isPlain_plain, all_isPlainChar_toString]
  · rw [isPlain_plain, all_isPlainChar_toString]
  · cases g.severity <;> decide
  · rw [isPlain_plain]
    cases g.rule with
    | none => rfl
    | some r => cases r <;> decide
  · rw [isPlain_plain, all_isPlainChar_message hg]

end Command
end HypnoScript
