/-
# Blanks, words and what is left without the blanks

No word character is a blank, and every decimal digit is a word character.  The *ink* of a text is
what is left of it without its blanks.  A text is cut at its ends when it stands between two runs of
blanks and itself neither starts nor ends with one, and that is the only way to cut it
(`trim_between`).
-/
import Mathlib.Data.List.DropRight
import HypnoScript.Text.Basic

namespace HypnoScript
namespace Text

/-! ## 1. Classes of characters -/

/-- The blanks outside ASCII, each of which is far from every range of word characters. -/
def wideBlanks : List Nat :=
  [0x85, 0xA0, 0x1680, 0x2000, 0x2001, 0x2002, 0x2003, 0x2004, 0x2005, 0x2006, 0x2007, 0x2008,
    0x2009, 0x200A, 0x2028, 0x2029, 0x202F, 0x205F, 0x3000]

theorem isBlank_iff {c : Char} :
    isBlank c = true ↔ c.toNat < 0x80 ∧
      (0x09 ≤ c.toNat ∧ c.toNat ≤ 0x0D ∨ 0x1C ≤ c.toNat ∧ c.toNat ≤ 0x20) ∨
        c.toNat ∈ wideBlanks := by
  simp only [isBlank, wideBlanks, Bool.or_eq_true, Bool.and_eq_true, decide_eq_true_eq, beq_iff_eq,
    List.mem_cons, List.not_mem_nil, or_false]
  omega

theorem wideBlanks_not_in_wordRanges : ∀ n ∈ wideBlanks, inRanges wordRanges n = false := by
  decide +kernel

/-- A word character is no blank. -/
theorem isBlank_eq_false_of_isWord {c : Char} (h : isWord c = true) : isBlank c = false := by
  refine Bool.eq_false_iff.mpr fun hb => ?_
  rcases isBlank_iff.mp hb with ⟨hlt, hn⟩ | hmem
  · rw [isWord, if_pos hlt] at h
    change (((decide (c.val ≥ 'A'.val ∧ c.val ≤ 'Z'.val) ||
      decide (c.val ≥ 'a'.val) && decide (c.val ≤ 'z'.val)) ||
        decide (c.val ≥ '0'.val) && decide (c.val ≤ '9'.val)) || c == '_') = true at h
    simp only [Bool.or_eq_true, Bool.and_eq_true, decide_eq_true_eq, beq_iff_eq,
      UInt32.le_iff_toNat_le, ge_iff_le] at h
    change ((((65 ≤ c.toNat ∧ c.toNat ≤ 90) ∨ (97 ≤ c.toNat ∧ c.toNat ≤ 122)) ∨
      (48 ≤ c.toNat ∧ c.toNat ≤ 57)) ∨ c = '_') at h
    rcases h with h | rfl
    · omega
    · simp at hn
  · have hge : ¬ c.toNat < 0x80 := by
      simp only [wideBlanks, List.mem_cons, List.not_mem_nil, or_false] at hmem
      omega
    rw [isWord, if_neg hge, wideBlanks_not_in_wordRanges _ hmem] at h
    exact absurd h Bool.false_ne_true

theorem isWord_eq_false_of_isBlank {c : Char} (h : isBlank c = true) : isWord c = false := by
  refine Bool.eq_false_iff.mpr fun hw => ?_
  rw [isBlank_eq_false_of_isWord hw] at h
  exact absurd h Bool.false_ne_true

/-- Every range of decimal digits lies in a range of word characters. -/
theorem decimalRanges_sub_wordRanges :
    (decimalRanges.all fun r => wordRanges.any fun q => q.1 ≤ r.1 && r.2 ≤ q.2) = true := by
  decide +kernel

/-- A decimal digit is a word character. -/
theorem isWord_of_isDecimal {c : Char} (h : isDecimal c = true) : isWord c = true := by
  unfold isDecimal at h
  unfold isWord
  split at h
  · simp [*, Char.isAlphanum]
  · rw [if_neg ‹_›]
    simp only [inRanges, List.any_eq_true, Bool.and_eq_true, decide_eq_true_eq] at h ⊢
    obtain ⟨r, hr, h1, h2⟩ := h
    have hsub := decimalRanges_sub_wordRanges
    simp only [List.all_eq_true, List.any_eq_true, Bool.and_eq_true, decide_eq_true_eq] at hsub
    obtain ⟨q, hq, h3, h4⟩ := hsub r hr
    exact ⟨q, hq, Nat.le_trans h3 h1, Nat.le_trans h2 h4⟩

theorem blank_ne {c : Char} (h : isBlank c = true) :
    c ≠ '/' ∧ c ≠ '*' ∧ c ≠ '"' ∧ c ≠ '\\' := by
  refine ⟨?_, ?_, ?_, ?_⟩ <;> rintro rfl <;> exact absurd h (by decide)

/-! ## 2. Runs of blanks -/

/-- A run of blanks on one line. -/
def Gap (s : Text) : Prop := ∀ c ∈ s, isBlank c = true ∧ c ≠ '\n'

theorem Gap.tail {c : Char} {s : Text} (h : Gap (c :: s)) : Gap s :=
  fun d hd => h d (List.mem_cons_of_mem _ hd)

theorem gap_nil : Gap [] := fun _ h => absurd h List.not_mem_nil

theorem gap_replicate_space (n : Nat) : Gap (List.replicate n ' ') := by
  intro c hc
  rw [List.eq_of_mem_replicate hc]
  exact ⟨by decide, by decide⟩

theorem gap_of_all_blank {s t : Text} (hn : '\n' ∉ t) (hsub : ∀ c ∈ s, c ∈ t)
    (h : ∀ c ∈ s, isBlank c = true) : Gap s :=
  fun c hc => ⟨h c hc, fun e => hn (e ▸ hsub c hc)⟩

/-! ## 3. Cutting at the ends -/

/-- What is dropped at the end is of the kind that is to be dropped, and what is left ends with no
such character. -/
theorem dropTrailing_spec (p : Char → Bool) (t : Text) :
    ∃ s, t = dropTrailing p t ++ s ∧ (∀ c ∈ s, p c = true) ∧
      ∀ c ∈ (dropTrailing p t).getLast?, p c = false := by
  refine ⟨t.rtakeWhile p, List.rdropWhile_append_rtakeWhile.symm,
    fun c hc => List.mem_rtakeWhile_imp hc, fun c hc => ?_⟩
  have hne : t.rdropWhile p ≠ [] := by
    rintro h
    rw [dropTrailing, ← List.rdropWhile] at hc
    simp [h] at hc
  have hlast : (t.rdropWhile p).getLast hne = c :=
    Option.some.inj ((List.getLast?_eq_some_getLast hne).symm.trans hc)
  exact hlast ▸ Bool.eq_false_iff.mpr (List.rdropWhile_last_not p t hne)

theorem head_trimLeft (t : Text) : ∀ c ∈ (trimLeft t).head?, isBlank c = false := by
  intro c hc
  have h := List.head?_dropWhile_not isBlank t
  rw [Option.mem_def] at hc
  rw [trimLeft] at hc
  rw [hc] at h
  simpa using h

theorem trimLeft_spec {t : Text} (hn : '\n' ∉ t) :
    ∃ s, t = s ++ trimLeft t ∧ Gap s ∧ ∀ c ∈ (trimLeft t).head?, isBlank c = false :=
  ⟨t.takeWhile isBlank, List.takeWhile_append_dropWhile.symm,
    gap_of_all_blank hn (fun _ hc => List.takeWhile_subset _ hc)
      fun _ hc => List.mem_takeWhile_imp hc, head_trimLeft t⟩

theorem trimRight_spec {t : Text} (hn : '\n' ∉ t) :
    ∃ s, t = trimRight t ++ s ∧ Gap s ∧ ∀ c ∈ (trimRight t).getLast?, isBlank c = false := by
  obtain ⟨s, hs, hall, hlast⟩ := dropTrailing_spec isBlank t
  refine ⟨s, hs, gap_of_all_blank hn (fun c hc => ?_) hall, hlast⟩
  rw [hs]
  exact List.mem_append_right _ hc

theorem Gap.all {s : Text} (h : Gap s) : ∀ c ∈ s, isBlank c = true := fun c hc => (h c hc).1

theorem trimLeft_append {s : Text} (h : ∀ c ∈ s, isBlank c = true) (t : Text) :
    trimLeft (s ++ t) = trimLeft t := List.dropWhile_append_of_pos h

theorem trimLeft_of_head {t : Text} (h : ∀ c ∈ t.head?, isBlank c = false) : trimLeft t = t := by
  cases t with
  | nil => rfl
  | cons c cs => exact List.dropWhile_cons_of_neg (by simp [h c rfl])

theorem trimRight_append {s : Text} (h : ∀ c ∈ s, isBlank c = true) (t : Text) :
    trimRight (t ++ s) = trimRight t := by
  have hr : ∀ c ∈ s.reverse, isBlank c = true := fun c hc => h c (List.mem_reverse.mp hc)
  rw [trimRight, dropTrailing, List.reverse_append, List.dropWhile_append_of_pos hr]
  rfl

theorem length_trimRight_le (t : Text) : t.trimRight.length ≤ t.length := by
  obtain ⟨s, hs, -, -⟩ := dropTrailing_spec isBlank t
  have := congrArg List.length hs
  rw [List.length_append] at this
  rw [trimRight]
  omega

theorem dropTrailing_of_last {p : Char → Bool} {t : Text} (h : ∀ c ∈ t.getLast?, p c = false) :
    dropTrailing p t = t := by
  rw [dropTrailing]
  cases hr : t.reverse with
  | nil => rw [List.reverse_eq_nil_iff.mp hr]; rfl
  | cons c cs =>
    have hc : p c = false := h c (by rw [List.getLast?_eq_head?_reverse, hr]; rfl)
    rw [List.dropWhile_cons_of_neg (by simp [hc]), ← hr, List.reverse_reverse]

/-- Blanks around a text are not seen when it is cut at its ends. -/
theorem trim_between {s u : Text} (hs : Gap s) (hu : Gap u) (t : Text) :
    trim (s ++ (t ++ u)) = trim t := by
  have hleft : ∀ t, trimRight (trimLeft (t ++ u)) = trimRight (trimLeft t) := by
    intro t
    induction t with
    | nil =>
      have h := trimLeft_append hu.all []
      rw [List.append_nil] at h
      rw [List.nil_append, h]
    | cons c cs ih =>
      cases hc : isBlank c with
      | true => simpa [trimLeft, hc] using ih
      | false =>
        have h := trimRight_append hu.all (c :: cs)
        simpa [trimLeft, hc] using h
  rw [trim, trimLeft_append hs.all, hleft]
  rfl

/-- A text that starts and ends with no blank is not cut. -/
theorem trim_of_ends {t : Text} (h : ∀ c ∈ t.head?, isBlank c = false)
    (h' : ∀ c ∈ t.getLast?, isBlank c = false) : trim t = t := by
  rw [trim, trimLeft_of_head h, trimRight, dropTrailing_of_last h']

/-- What is cut off at the ends, and what the text that is left looks like there. -/
theorem trim_parts (t : Text) :
    ∃ s u, t = s ++ (trim t ++ u) ∧ (∀ c ∈ s, isBlank c = true) ∧ (∀ c ∈ u, isBlank c = true) ∧
      (∀ c ∈ (trim t).head?, isBlank c = false) ∧ ∀ c ∈ (trim t).getLast?, isBlank c = false := by
  obtain ⟨u, hu, hblank, hlast⟩ := dropTrailing_spec isBlank (trimLeft t)
  refine ⟨t.takeWhile isBlank, u, ?_, fun c hc => List.mem_takeWhile_imp hc, hblank,
    fun c hc => head_trimLeft t c ?_, hlast⟩
  · rw [trim, trimRight, ← hu]
    exact List.takeWhile_append_dropWhile.symm
  · rw [hu, List.head?_append, show (dropTrailing isBlank (trimLeft t)).head? = some c from hc]
    rfl

/-- What is cut off at the ends of a line stands on this line. -/
theorem trim_spec {t : Text} (hn : '\n' ∉ t) :
    ∃ s u, t = s ++ (trim t ++ u) ∧ Gap s ∧ Gap u ∧ (∀ c ∈ (trim t).head?, isBlank c = false) ∧
      ∀ c ∈ (trim t).getLast?, isBlank c = false := by
  obtain ⟨s, u, ht, hs, hu, hends⟩ := trim_parts t
  refine ⟨s, u, ht, gap_of_all_blank hn (fun c hc => ?_) hs,
    gap_of_all_blank hn (fun c hc => ?_) hu, hends⟩
  · rw [ht]
    exact List.mem_append_left _ hc
  · rw [ht]
    exact List.mem_append_right _ (List.mem_append_right _ hc)

/-! ## 4. Ink -/

/-- What is left of a text without its blanks. -/
def ink (t : Text) : Text := t.filter (!isBlank ·)

theorem ink_append (t u : Text) : ink (t ++ u) = ink t ++ ink u := List.filter_append ..

theorem ink_cons {c : Char} (h : isBlank c = false) (t : Text) : ink (c :: t) = c :: ink t :=
  List.filter_cons_of_pos (by simp [h])

theorem ink_gap {s : Text} (h : Gap s) : ink s = [] :=
  List.filter_eq_nil_iff.mpr fun c hc => by simp [(h c hc).1]

/-- A line without ink is a gap. -/
theorem gap_of_ink_nil {s : Text} (hn : '\n' ∉ s) (h : ink s = []) : Gap s := by
  refine fun c hc => ⟨?_, fun e => hn (e ▸ hc)⟩
  have := List.filter_eq_nil_iff.mp h c hc
  simpa using this

theorem ink_between {s u : Text} (hs : Gap s) (hu : Gap u) (t : Text) :
    ink (s ++ (t ++ u)) = ink t := by
  rw [ink_append, ink_append, ink_gap hs, ink_gap hu, List.nil_append, List.append_nil]

/-- A text that is cut at its ends ends with the last character that is no blank. -/
theorem getLast?_trim {t : Text} (hn : '\n' ∉ t) : (trim t).getLast? = (ink t).getLast? := by
  obtain ⟨s, u, ht, hs, hu, -, hlast⟩ := trim_spec hn
  have hink : ink t = ink (trim t) := by
    conv_lhs => rw [ht]
    exact ink_between hs hu _
  rw [hink]
  rcases List.eq_nil_or_concat (trim t) with h | ⟨m, c, h⟩
  · rw [h]; rfl
  · rw [h] at hlast ⊢
    have hc : isBlank c = false := hlast c (by simp)
    rw [List.concat_eq_append, ink_append]
    simp [ink, hc]

theorem trim_eq_nil_iff {t : Text} (hn : '\n' ∉ t) : trim t = [] ↔ ink t = [] := by
  rw [← List.getLast?_eq_none_iff, getLast?_trim hn, List.getLast?_eq_none_iff]

end Text
end HypnoScript
