/-
# Reading a file back

What `encode` writes for one character is a sequence of one to four octets (`Utf8.Sequence`, a case
for each length), and `decode` reads the octets of a file sequence by sequence.  So decoding and
encoding are inverse to each other, and the octets that can be decoded are those that some text is
written with (`decode_eq_ok_iff`).

A file is read with all its line endings as newlines.  No carriage return is left then, and a text
without them is read as it is (`unifyNewlines_eq_self`).
-/
import HypnoScript.Text.Utf8

namespace HypnoScript
namespace Text
namespace Utf8

/-! ## 1. The octets of one character -/

/-- The octets of the character with a number, from the shortest form to the longest. -/
inductive Sequence : Nat → List UInt8 → Prop
  | one {a : UInt8} (ha : a < 0x80) : Sequence a.toNat [a]
  | two {a b : UInt8} (ha : 0xC2 ≤ a ∧ a ≤ 0xDF) (hb : isTail b) :
    Sequence (a.toNat % 32 * 64 + bits b) [a, b]
  | three {a b c : UInt8} (ha : 0xE0 ≤ a ∧ a ≤ 0xEF) (hb : isSecond a b) (hc : isTail c) :
    Sequence ((a.toNat % 16 * 64 + bits b) * 64 + bits c) [a, b, c]
  | four {a b c d : UInt8} (ha : 0xF0 ≤ a ∧ a ≤ 0xF4) (hb : isSecond a b) (hc : isTail c)
    (hd : isTail d) :
    Sequence (((a.toNat % 8 * 64 + bits b) * 64 + bits c) * 64 + bits d) [a, b, c, d]

theorem isTail_iff {b : UInt8} : isTail b = true ↔ 0x80 ≤ b.toNat ∧ b.toNat ≤ 0xBF := by
  simp [isTail, UInt8.le_iff_toNat_le]

/-- Which octets may come second: some first octets leave room for fewer of them. -/
theorem isSecond_iff {a b : UInt8} : isSecond a b = true ↔
    (0x80 ≤ b.toNat ∧ b.toNat ≤ 0xBF) ∧ (a.toNat = 0xE0 → 0xA0 ≤ b.toNat) ∧
      (a.toNat = 0xED → b.toNat ≤ 0x9F) ∧ (a.toNat = 0xF0 → 0x90 ≤ b.toNat) ∧
      (a.toNat = 0xF4 → b.toNat ≤ 0x8F) := by
  have heq (n : UInt8) : a = n ↔ a.toNat = n.toNat := UInt8.toNat_inj.symm
  simp only [isSecond, heq, UInt8.reduceToNat]
  split
  · simp [UInt8.le_iff_toNat_le]; omega
  · split
    · simp [UInt8.le_iff_toNat_le]; omega
    · split
      · simp [UInt8.le_iff_toNat_le]; omega
      · split
        · simp [UInt8.le_iff_toNat_le]; omega
        · rw [isTail_iff]; omega

/-- A sequence at the start is read as its character. -/
theorem Sequence.decodeFrom_append {n : Nat} {s : List UInt8} (h : Sequence n s) (o : Nat)
    (bs : List UInt8) : decodeFrom o (s ++ bs) = push n (decodeFrom (o + s.length) bs) := by
  have hnot {a k m : UInt8} (hm : m ≤ a) (hk : ¬ m ≤ k) : ¬ a ≤ k := by
    intro h
    exact hk (UInt8.le_trans hm h)
  have hone {a m : UInt8} (ha : m ≤ a) (hm : 0x80 ≤ m) : ¬ a < 0x80 :=
    UInt8.not_lt.mpr (UInt8.le_trans hm ha)
  rw [decodeFrom.eq_def]
  cases h with
  | one ha => simp [ha]
  | two ha hb => simp [hone ha.1, ha, hb]
  | three ha hb hc => simp [hone ha.1, hnot (k := 0xDF) ha.1, ha, hb, hc]
  | four ha hb hc hd =>
    simp [hone ha.1, hnot (k := 0xDF) ha.1, hnot (k := 0xEF) ha.1, ha, hb, hc, hd]

/-- **What is read starts with a sequence.** -/
theorem exists_sequence_of_decodeFrom {o : Nat} {bs : List UInt8} {t : Text}
    (h : decodeFrom o bs = .ok t) : bs = [] ∧ t = [] ∨
      ∃ n s cs u, Sequence n s ∧ bs = s ++ cs ∧ decodeFrom (o + s.length) cs = .ok u ∧
        t = Char.ofNat n :: u := by
  have hpush {n : Nat} {r : Except Failure Text} (h : push n r = .ok t) :
      ∃ u, r = .ok u ∧ t = Char.ofNat n :: u := by
    cases r with
    | ok u => exact ⟨u, rfl, (Except.ok.inj h).symm⟩
    | error e => cases h
  unfold decodeFrom at h
  split at h
  · exact Or.inl ⟨rfl, (Except.ok.inj h).symm⟩
  rename_i a bs
  right
  split at h
  · rename_i ha
    obtain ⟨u, hu, rfl⟩ := hpush h
    exact ⟨_, [a], bs, u, .one ha, rfl, hu, rfl⟩
  split at h
  · rename_i ha
    split at h
    · cases h
    split at h
    · rename_i b bs hb
      obtain ⟨u, hu, rfl⟩ := hpush h
      exact ⟨_, [a, b], bs, u, .two ha hb, rfl, hu, rfl⟩
    · cases h
  split at h
  · rename_i ha
    split at h
    · cases h
    · split at h <;> cases h
    split at h
    · cases h
    split at h
    · cases h
    · rename_i b c bs hb hc
      obtain ⟨u, hu, rfl⟩ := hpush h
      exact ⟨_, [a, b, c], bs, u, .three ha (by simpa using hb) (by simpa using hc), rfl, hu, rfl⟩
  split at h
  · rename_i ha
    split at h
    · cases h
    · split at h <;> cases h
    · split at h
      · cases h
      · split at h <;> cases h
    split at h
    · cases h
    split at h
    · cases h
    split at h
    · cases h
    · rename_i b c d bs hb hc hd
      obtain ⟨u, hu, rfl⟩ := hpush h
      exact ⟨_, [a, b, c, d], bs, u, .four ha (by simpa using hb) (by simpa using hc)
        (by simpa using hd), rfl, hu, rfl⟩
  · cases h

theorem toNat_le_of_le {a b : UInt8} (h : a ≤ b) : a.toNat ≤ b.toNat := UInt8.le_iff_toNat_le.mp h

/-- A sequence has the number of a character. -/
theorem Sequence.isValidChar {n : Nat} {s : List UInt8} (h : Sequence n s) : n.isValidChar := by
  cases h with
  | one ha =>
    have := UInt8.lt_iff_toNat_lt.mp ha
    left; simp at this; omega
  | two ha hb =>
    left; simp only [bits]; omega
  | three ha hb hc =>
    have := toNat_le_of_le ha.1
    have := toNat_le_of_le ha.2
    have := isSecond_iff.mp hb
    simp only [UInt8.reduceToNat] at *
    simp only [Nat.isValidChar, bits]
    omega
  | four ha hb hc hd =>
    have := toNat_le_of_le ha.1
    have := toNat_le_of_le ha.2
    have := isSecond_iff.mp hb
    simp only [UInt8.reduceToNat] at *
    simp only [Nat.isValidChar, bits]
    omega

theorem toNat_ofNat {n : Nat} (h : n.isValidChar) : (Char.ofNat n).val.toNat = n := by
  rw [Char.ofNat, dif_pos h]
  rfl

/-- **A sequence is what its character is written with.**  What makes it so are the bounds of the
four lengths: a character that could be written with fewer octets has no longer sequence. -/
theorem Sequence.utf8EncodeChar {n : Nat} {s : List UInt8} (h : Sequence n s) :
    String.utf8EncodeChar (Char.ofNat n) = s := by
  have hn := toNat_ofNat h.isValidChar
  have hoctet {k : Nat} {a : UInt8} (h : k = a.toNat) : UInt8.ofNat k = a := by
    rw [h, UInt8.ofNat_toNat]
  unfold String.utf8EncodeChar
  generalize (Char.ofNat n).val.toNat = v at hn
  dsimp only
  cases h with
  | one ha =>
    have := UInt8.lt_iff_toNat_lt.mp ha
    simp only [UInt8.reduceToNat] at this
    rw [if_pos (by omega), hoctet hn]
  | @two a b ha hb =>
    have := toNat_le_of_le ha.1
    have := toNat_le_of_le ha.2
    have := isTail_iff.mp hb
    simp only [UInt8.reduceToNat, bits] at *
    rw [if_neg (by omega), if_pos (by omega), hoctet (a := a) (by omega),
      hoctet (a := b) (by omega)]
  | @three a b c ha hb hc =>
    have := toNat_le_of_le ha.1
    have := toNat_le_of_le ha.2
    have := isSecond_iff.mp hb
    have := isTail_iff.mp hc
    simp only [UInt8.reduceToNat, bits] at *
    rw [if_neg (by omega), if_neg (by omega), if_pos (by omega), hoctet (a := a) (by omega),
      hoctet (a := b) (by omega), hoctet (a := c) (by omega)]
  | @four a b c d ha hb hc hd =>
    have := toNat_le_of_le ha.1
    have := toNat_le_of_le ha.2
    have := isSecond_iff.mp hb
    have := isTail_iff.mp hc
    have := isTail_iff.mp hd
    simp only [UInt8.reduceToNat, bits] at *
    rw [if_neg (by omega), if_neg (by omega), if_neg (by omega), hoctet (a := a) (by omega),
      hoctet (a := b) (by omega), hoctet (a := c) (by omega), hoctet (a := d) (by omega)]

theorem Sequence.of_eq {n m : Nat} {s : List UInt8} (h : Sequence n s) (hn : n = m) :
    Sequence m s := hn ▸ h

/-- **What a character is written with is a sequence.** -/
theorem sequence_utf8EncodeChar (c : Char) : Sequence c.toNat (String.utf8EncodeChar c) := by
  have hvalid : c.val.toNat.isValidChar := c.valid
  have hoctet {k : Nat} (hk : k < 256) : (UInt8.ofNat k).toNat = k := by
    rw [UInt8.toNat_ofNat', Nat.mod_eq_of_lt hk]
  have hle {k : Nat} {m : UInt8} (hk : k < 256) (h : m.toNat ≤ k) : m ≤ UInt8.ofNat k := by
    rw [UInt8.le_iff_toNat_le, hoctet hk]
    exact h
  have hge {k : Nat} {m : UInt8} (hk : k < 256) (h : k ≤ m.toNat) : UInt8.ofNat k ≤ m := by
    rw [UInt8.le_iff_toNat_le, hoctet hk]
    exact h
  have htail (k : Nat) : isTail (UInt8.ofNat (k % 64 + 128)) = true := by
    rw [isTail_iff, hoctet (by omega)]
    omega
  unfold String.utf8EncodeChar
  change Sequence c.val.toNat _
  generalize c.val.toNat = v at hvalid
  simp only [Nat.isValidChar] at hvalid
  dsimp only
  split
  · have ha : UInt8.ofNat v < 0x80 := by
      rw [UInt8.lt_iff_toNat_lt, hoctet (by omega)]
      simp only [UInt8.reduceToNat]
      omega
    exact (Sequence.one ha).of_eq (hoctet (by omega))
  split
  · have ha : v / 64 % 32 + 192 < 256 := by omega
    refine (Sequence.two ⟨hle ha ?_, hge ha ?_⟩ (htail v)).of_eq ?_
    · simp only [UInt8.reduceToNat]; omega
    · simp only [UInt8.reduceToNat]; omega
    · simp only [bits, UInt8.toNat_ofNat']; omega
  split
  · have ha : v / 4096 % 16 + 224 < 256 := by omega
    refine (Sequence.three ⟨hle ha ?_, hge ha ?_⟩ ?_ (htail v)).of_eq ?_
    · simp only [UInt8.reduceToNat]; omega
    · simp only [UInt8.reduceToNat]; omega
    · rw [isSecond_iff, hoctet ha, hoctet (by omega)]; omega
    · simp only [bits, UInt8.toNat_ofNat']; omega
  · have ha : v / 262144 % 8 + 240 < 256 := by omega
    refine (Sequence.four ⟨hle ha ?_, hge ha ?_⟩ ?_ (htail (v / 64)) (htail v)).of_eq ?_
    · simp only [UInt8.reduceToNat]; omega
    · simp only [UInt8.reduceToNat]; omega
    · rw [isSecond_iff, hoctet ha, hoctet (by omega)]; omega
    · simp only [bits, UInt8.toNat_ofNat']; omega

/-! ## 2. The octets of a text -/

theorem decodeFrom_encode (t : Text) : ∀ o : Nat, decodeFrom o (encode t) = .ok t := by
  induction t with
  | nil => exact fun _ => rfl
  | cons c t ih =>
    intro o
    rw [encode, List.flatMap_cons, (sequence_utf8EncodeChar c).decodeFrom_append, ← encode, ih,
      push, Char.ofNat_toNat]

/-- **A text is read as it was written**, sequence by sequence. -/
theorem decode_encode (t : Text) : decode (encode t) = .ok t := decodeFrom_encode t 0

theorem eq_encode_of_decodeFrom : ∀ {t : Text} {o : Nat} {bs : List UInt8},
    decodeFrom o bs = .ok t → bs = encode t
  | [], o, bs, h => by
    rcases exists_sequence_of_decodeFrom h with ⟨rfl, -⟩ | ⟨n, s, cs, u, -, -, -, ht⟩
    · rfl
    · cases ht
  | c :: t, o, bs, h => by
    rcases exists_sequence_of_decodeFrom h with ⟨-, ht⟩ | ⟨n, s, cs, u, hs, rfl, hcs, ht⟩
    · cases ht
    · obtain ⟨rfl, rfl⟩ := List.cons.inj ht
      rw [eq_encode_of_decodeFrom hcs, encode, encode, List.flatMap_cons, hs.utf8EncodeChar]

/-- **The octets that can be read are those of some text**, and are read as that text.  So a file
holds one text at most, and writing it back leaves the octets as they are. -/
theorem decode_eq_ok_iff {bs : List UInt8} {t : Text} : decode bs = .ok t ↔ bs = encode t := by
  constructor
  · exact eq_encode_of_decodeFrom
  · rintro rfl
    exact decode_encode t

theorem encode_injective {t u : Text} (h : encode t = encode u) : t = u := by
  have ht := decode_encode t
  rw [h, decode_encode] at ht
  exact (Except.ok.inj ht).symm

end Utf8

/-! ## 3. Line endings -/

/-- No carriage return is left. -/
theorem return_not_mem_unifyNewlines (t : Text) : '\r' ∉ unifyNewlines t := by
  fun_induction unifyNewlines t with
  | case1 => simp
  | case2 cs ih => simp [ih]
  | case3 cs _ ih => simp [ih]
  | case4 c cs hcrlf hcr ih =>
    intro h
    rcases List.mem_cons.mp h with h | h
    · exact hcr h.symm
    · exact ih h

/-- A text without carriage returns is read as it is. -/
theorem unifyNewlines_eq_self {t : Text} (h : '\r' ∉ t) : unifyNewlines t = t := by
  fun_induction unifyNewlines t with
  | case1 => rfl
  | case2 cs ih => simp at h
  | case3 cs _ ih => simp at h
  | case4 c cs hcrlf hcr ih => rw [ih fun hm => h (List.mem_cons_of_mem _ hm)]

end Text
end HypnoScript
