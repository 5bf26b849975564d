/-
# The history of a collection

What a collection holds of a document is told by the operations before: the document is there if it
was written after all that removed it (`Live`), and then its diagnostics are those of the last write
(`LastWritten`).  One operation keeps this (`lookup_perform_iff`), so it is true behind any number
of them (`lookup_after_iff`), and everything that a collection answers follows (`answers_after`).
-/
import HypnoScript.Collection
import Mathlib.Data.List.Induction

namespace HypnoScript
namespace Collection

variable {c : Collection} {uri v : String} {gs : List Diagnostic} {op : Operation}
  {ops : List Operation}

/-! ## 1. Entries -/

theorem lookup_erase (c : Collection) (uri v : String) :
    (c.erase uri).entries.lookup v = if v = uri then none else c.entries.lookup v := by
  obtain ⟨entries⟩ := c
  simp only [erase]
  induction entries with
  | nil => simp
  | cons e entries ih =>
    obtain ⟨u, gs⟩ := e
    by_cases hu : u = uri
    · subst hu
      rw [List.filter_cons_of_neg (by simp), ih]
      by_cases hv : v = u
      · simp [hv]
      · simp [hv, List.lookup_cons, beq_eq_false_iff_ne.mpr hv]
    · rw [List.filter_cons_of_pos (by simpa using hu), List.lookup_cons, List.lookup_cons, ih]
      by_cases hv : v = u
      · subst hv
        simp [hu]
      · simp [beq_eq_false_iff_ne.mpr hv]

theorem lookup_set (c : Collection) (uri v : String) (gs : List Diagnostic) :
    (c.set uri gs).entries.lookup v = if v = uri then some gs else c.entries.lookup v := by
  rw [set, List.lookup_cons, lookup_erase]
  by_cases hv : v = uri
  · simp [hv]
  · simp [hv, beq_eq_false_iff_ne.mpr hv]

theorem isSome_lookup_iff : (c.entries.lookup uri).isSome ↔ uri ∈ c.entries.map Prod.fst := by
  rw [List.lookup_isSome_iff, List.mem_map]
  simp only [beq_iff_eq]
  exact exists_congr fun e => and_congr_right fun _ => eq_comm

theorem contains_iff : c.contains uri = true ↔ (c.entries.lookup uri).isSome := by
  rw [isSome_lookup_iff, contains, List.any_eq_true, List.mem_map]
  simp only [beq_iff_eq]

theorem mem_uris : uri ∈ c.uris ↔ (c.entries.lookup uri).isSome := by
  rw [isSome_lookup_iff, uris, List.mem_mergeSort]

/-! ## 2. Every document once -/

/-- No document has two entries. -/
def Distinct (c : Collection) : Prop := (c.entries.map Prod.fst).Nodup

theorem distinct_empty : empty.Distinct := List.nodup_nil

theorem Distinct.erase (h : c.Distinct) (uri : String) : (c.erase uri).Distinct :=
  List.Pairwise.sublist (List.filter_sublist.map Prod.fst) h

theorem Distinct.set (h : c.Distinct) (uri : String) (gs : List Diagnostic) :
    (c.set uri gs).Distinct := by
  refine List.nodup_cons.mpr ⟨?_, h.erase uri⟩
  rw [← isSome_lookup_iff, lookup_erase, if_pos rfl]
  exact Bool.false_ne_true

/-- One operation leaves every document with one entry. -/
theorem Distinct.perform (h : c.Distinct) (op : Operation) : (c.perform op).2.Distinct := by
  cases op with
  | set uri gs => exact h.set uri gs
  | publish uri dialect w text =>
    dsimp only [Collection.perform]
    cases textOfValue text with
    | ok t => exact h.set uri _
    | error e => exact h
  | get uri => exact h
  | delete uri => exact h.erase uri
  | clear => exact distinct_empty
  | uris => exact h

theorem Distinct.after (h : c.Distinct) (ops : List Operation) : (c.after ops).Distinct := by
  induction ops generalizing c with
  | nil => exact h
  | cons op ops ih => exact ih (h.perform op)

/-! ## 3. The names in order -/

/-- Names are compared by the code points of their characters. -/
theorem lt_iff_codePoints (a b : String) :
    a < b ↔ a.toList.map Char.toNat < b.toList.map Char.toNat := by
  rw [String.lt_iff]
  generalize a.toList = s, b.toList = t
  induction s generalizing t with
  | nil => cases t <;> simp
  | cons c s ih =>
    cases t with
    | nil => simp
    | cons d t =>
      have hlt : c < d ↔ c.toNat < d.toNat := UInt32.lt_iff_toNat_lt
      rw [List.map_cons, List.map_cons, List.cons_lt_cons_iff, List.cons_lt_cons_iff, ih, hlt,
        Char.toNat_inj]

/-- **The names of the documents are strictly increasing.**  Sorting puts them in order, and as no
document has two entries, no two neighbours are the same. -/
theorem Distinct.pairwise_uris (h : c.Distinct) :
    c.uris.Pairwise fun a b => a.toList.map Char.toNat < b.toList.map Char.toNat := by
  have hnodup : c.uris.Nodup := (List.mergeSort_perm _ _).nodup_iff.mpr h
  have hsorted : c.uris.Pairwise fun a b => decide (a ≤ b) = true := by
    refine List.pairwise_mergeSort ?_ ?_ _
    · intro a b d hab hbd
      exact decide_eq_true (String.le_trans (of_decide_eq_true hab) (of_decide_eq_true hbd))
    · intro a b
      simpa using String.le_total a b
  refine (hsorted.and hnodup).imp ?_
  rintro a b ⟨hle, hne⟩
  rw [← lt_iff_codePoints]
  by_contra hnot
  exact hne (String.le_antisymm (of_decide_eq_true hle) (String.not_lt.mp hnot))

/-! ## 4. Histories -/

/-- Some operation was such, and since then all were so. -/
def Since (such so : Operation → Prop) (ops : List Operation) : Prop :=
  ∃ before op later, ops = before ++ op :: later ∧ such op ∧ ∀ o ∈ later, so o

/-- The operation writes these diagnostics for a document. -/
inductive Operation.Writes (uri : String) : Operation → List Diagnostic → Prop
  | set (gs : List Diagnostic) : Writes uri (.set uri gs) gs
  | publish (dialect : Dialect) (w : Wording) (s : String) :
    Writes uri (.publish uri dialect w (.string s)) (analyze dialect w s.toList)

/-- The operation removes a document. -/
inductive Operation.Removes (uri : String) : Operation → Prop
  | delete : Removes uri (.delete uri)
  | clear : Removes uri .clear

/-- A document has been written, and not been removed since then. -/
def Live (ops : List Operation) (uri : String) : Prop :=
  Since (fun op => ∃ gs, op.Writes uri gs) (fun op => ¬ op.Removes uri) ops

/-- These are the diagnostics that were written last for a document. -/
def LastWritten (ops : List Operation) (uri : String) (gs : List Diagnostic) : Prop :=
  Since (·.Writes uri gs) (fun op => ∀ gs', ¬ op.Writes uri gs') ops

theorem not_since_nil (such so : Operation → Prop) : ¬ Since such so [] := by
  rintro ⟨before, op, later, h, -⟩
  simp at h

/-- What was such, seen from one operation later. -/
theorem since_snoc {such so : Operation → Prop} :
    Since such so (ops ++ [op]) ↔ such op ∨ (so op ∧ Since such so ops) := by
  constructor
  · rintro ⟨before, o, later, heq, ho, hlater⟩
    rcases List.eq_nil_or_concat later with rfl | ⟨later, x, rfl⟩
    · obtain ⟨-, hop⟩ := List.append_inj' heq rfl
      obtain rfl := (List.cons.inj hop).1
      exact Or.inl ho
    · rw [List.concat_eq_append, ← List.cons_append, ← List.append_assoc] at heq
      obtain ⟨hops, hop⟩ := List.append_inj' heq rfl
      obtain rfl := (List.cons.inj hop).1
      rw [List.concat_eq_append, List.forall_mem_append] at hlater
      exact Or.inr ⟨hlater.2 _ List.mem_cons_self, before, o, later, hops, ho, hlater.1⟩
  · rintro (h | ⟨hso, before, o, later, rfl, ho, hlater⟩)
    · exact ⟨ops, op, [], rfl, h, fun o ho => absurd ho List.not_mem_nil⟩
    · refine ⟨before, o, later ++ [op], by simp, ho, ?_⟩
      rw [List.forall_mem_append]
      exact ⟨hlater, List.forall_mem_singleton.mpr hso⟩

theorem live_snoc : Live (ops ++ [op]) uri ↔
    (∃ gs, op.Writes uri gs) ∨ (¬ op.Removes uri ∧ Live ops uri) := since_snoc

theorem lastWritten_snoc : LastWritten (ops ++ [op]) uri gs ↔
    op.Writes uri gs ∨ ((∀ gs', ¬ op.Writes uri gs') ∧ LastWritten ops uri gs) := since_snoc

/-- A document that is live has been written. -/
theorem Live.exists_lastWritten (h : Live ops uri) : ∃ gs, LastWritten ops uri gs := by
  induction ops using List.reverseRecOn with
  | nil => exact absurd h (not_since_nil _ _)
  | append_singleton ops op ih =>
    by_cases hop : ∃ gs, op.Writes uri gs
    · obtain ⟨gs, hgs⟩ := hop
      exact ⟨gs, lastWritten_snoc.mpr (Or.inl hgs)⟩
    · rcases live_snoc.mp h with hwrites | ⟨-, hlive⟩
      · exact absurd hwrites hop
      · obtain ⟨gs, hgs⟩ := ih hlive
        exact ⟨gs, lastWritten_snoc.mpr (Or.inr ⟨not_exists.mp hop, hgs⟩)⟩

/-! ## 5. What an operation and a history leave behind -/

theorem writes_set_iff {u : String} {g : List Diagnostic} :
    (Operation.set u g).Writes uri gs ↔ uri = u ∧ g = gs := by
  constructor
  · rintro ⟨⟩
    exact ⟨rfl, rfl⟩
  · rintro ⟨rfl, rfl⟩
    exact .set g

theorem writes_publish_iff {u : String} {dialect : Dialect} {w : Wording} {text : Json.Value} :
    (Operation.publish u dialect w text).Writes uri gs ↔
      uri = u ∧ ∃ t, textOfValue text = .ok t ∧ analyze dialect w t = gs := by
  constructor
  · rintro ⟨⟩
    exact ⟨rfl, _, rfl, rfl⟩
  · rintro ⟨rfl, t, ht, rfl⟩
    cases text with
    | string s =>
      obtain rfl := Except.ok.inj ht
      exact .publish dialect w s
    | _ => cases ht

/-- **What one operation leaves behind of a document**: what it writes there, or what was there
before if it neither writes nor removes it.  All operations on other documents, and those that are
refused, are in the second case. -/
theorem lookup_perform_iff (c : Collection) (op : Operation) (uri : String)
    (gs : List Diagnostic) :
    (c.perform op).2.entries.lookup uri = some gs ↔ op.Writes uri gs ∨
      ((∀ gs', ¬ op.Writes uri gs') ∧ ¬ op.Removes uri ∧ c.entries.lookup uri = some gs) := by
  cases op with
  | set u g =>
    have hremoves : ¬ (Operation.set u g).Removes uri := nofun
    simp only [perform, lookup_set, writes_set_iff]
    by_cases hu : uri = u <;> simp [hu, hremoves]
  | publish u dialect w text =>
    have hremoves : ¬ (Operation.publish u dialect w text).Removes uri := nofun
    simp only [perform, writes_publish_iff]
    cases textOfValue text with
    | ok t =>
      simp only [publish, lookup_set]
      by_cases hu : uri = u <;> simp [hu, hremoves]
    | error e => simp [hremoves]
  | get u =>
    have hwrites (gs : List Diagnostic) : ¬ (Operation.get u).Writes uri gs := nofun
    have hremoves : ¬ (Operation.get u).Removes uri := nofun
    simp [perform, hwrites, hremoves]
  | delete u =>
    have hwrites (gs : List Diagnostic) : ¬ (Operation.delete u).Writes uri gs := nofun
    have hremoves : (Operation.delete u).Removes uri ↔ uri = u := by
      constructor
      · rintro ⟨⟩
        rfl
      · rintro rfl
        exact .delete
    simp only [perform, lookup_erase, hremoves, hwrites]
    by_cases hu : uri = u <;> simp [hu]
  | clear =>
    have hwrites (gs : List Diagnostic) : ¬ Operation.clear.Writes uri gs := nofun
    have hremoves : Operation.clear.Removes uri := .clear
    simp [perform, empty, hwrites, hremoves]
  | uris =>
    have hwrites (gs : List Diagnostic) : ¬ Operation.uris.Writes uri gs := nofun
    have hremoves : ¬ Operation.uris.Removes uri := nofun
    simp [perform, hwrites, hremoves]

theorem after_snoc (c : Collection) (ops : List Operation) (op : Operation) :
    c.after (ops ++ [op]) = ((c.after ops).perform op).2 := by
  rw [after, after, List.foldl_append]
  rfl

/-- **What a history leaves behind of a document.**  The induction adds an operation at the end of
the history: the last write is this one or an earlier one, and the document is live if this one does
not remove it, or writes it. -/
theorem lookup_after_iff (ops : List Operation) (uri : String) (gs : List Diagnostic) :
    (empty.after ops).entries.lookup uri = some gs ↔ Live ops uri ∧ LastWritten ops uri gs := by
  induction ops using List.reverseRecOn with
  | nil =>
    refine iff_of_false (by simp [after, empty]) ?_
    rintro ⟨h, -⟩
    exact not_since_nil _ _ h
  | append_singleton ops op ih =>
    rw [after_snoc, lookup_perform_iff, ih, live_snoc, lastWritten_snoc]
    constructor
    · rintro (h | ⟨hwrites, hremoves, hlive, hlast⟩)
      · exact ⟨Or.inl ⟨gs, h⟩, Or.inl h⟩
      · exact ⟨Or.inr ⟨hremoves, hlive⟩, Or.inr ⟨hwrites, hlast⟩⟩
    · rintro ⟨hlive, h | ⟨hwrites, hlast⟩⟩
      · exact Or.inl h
      · rcases hlive with ⟨gs', h⟩ | ⟨hremoves, hlive⟩
        · exact absurd h (hwrites gs')
        · exact Or.inr ⟨hwrites, hremoves, hlive, hlast⟩

theorem isSome_lookup_after_iff (ops : List Operation) (uri : String) :
    ((empty.after ops).entries.lookup uri).isSome ↔ Live ops uri := by
  rw [Option.isSome_iff_exists]
  constructor
  · rintro ⟨gs, h⟩
    exact ((lookup_after_iff ops uri gs).mp h).1
  · intro h
    obtain ⟨gs, hgs⟩ := h.exists_lastWritten
    exact ⟨gs, (lookup_after_iff ops uri gs).mpr ⟨h, hgs⟩⟩

theorem get_after_of_live (h : Live ops uri) : LastWritten ops uri ((empty.after ops).get uri) := by
  obtain ⟨gs, hgs⟩ := h.exists_lastWritten
  rw [get, (lookup_after_iff ops uri gs).mpr ⟨h, hgs⟩]
  exact hgs

theorem get_after_of_not_live (h : ¬ Live ops uri) : (empty.after ops).get uri = [] := by
  rw [← isSome_lookup_after_iff, Option.not_isSome_iff_eq_none] at h
  rw [get, h]
  rfl

/-- A document that is not a text leaves all later answers as they are. -/
theorem answers_notText (c : Collection) (uri : String) (dialect : Dialect) (w : Wording)
    {text : Json.Value} (h : ∀ s, text ≠ .string s) (later : List Operation) :
    c.answers (.publish uri dialect w text :: later) =
      .notText ⟨text.kindName⟩ :: c.answers later := by
  cases text with
  | string s => exact absurd rfl (h s)
  | _ => rfl

/-- **A collection holds of every document what was written last**, if the document was not removed
since then.  So it answers, behind any operations: it shows these diagnostics, or none; it knows a
document that is to be deleted just when the document is live; its names are those of the live
documents, each once, in increasing order of their code points; and a document that is not a text is
refused, with no effect on any later answer.

`Live` and `LastWritten` are about the history and know nothing of a state.  A document with no
diagnostics is where the two are told apart: it is live, and shows the same as one that is not
there. -/
theorem answers_after (ops : List Operation) (uri : String) :
    let c := empty.after ops
    (∃ gs, (c.perform (.get uri)).1 = .diagnostics gs ∧
      (Live ops uri → LastWritten ops uri gs) ∧ (¬ Live ops uri → gs = [])) ∧
    (∃ known, (c.perform (.delete uri)).1 = .deleted known ∧ (known = true ↔ Live ops uri)) ∧
    (∃ us, (c.perform .uris).1 = .uris us ∧ (∀ v, v ∈ us ↔ Live ops v) ∧
      us.Pairwise fun a b => a.toList.map Char.toNat < b.toList.map Char.toNat) ∧
    ∀ dialect w text, (∀ s, text ≠ .string s) → ∀ later,
      c.answers (.publish uri dialect w text :: later) =
        .notText ⟨text.kindName⟩ :: c.answers later := by
  intro c
  refine ⟨⟨c.get uri, rfl, get_after_of_live, get_after_of_not_live⟩, ⟨c.contains uri, rfl, ?_⟩,
    ⟨c.uris, rfl, ?_, ?_⟩, ?_⟩
  · rw [contains_iff, isSome_lookup_after_iff]
  · intro v
    rw [mem_uris, isSome_lookup_after_iff]
  · exact (distinct_empty.after ops).pairwise_uris
  · exact fun dialect w text h later => answers_notText c uri dialect w h later

/-- A document with no diagnostics is live, one that was deleted is not, and null is no text. -/
theorem answers_after_sets :
    let ops : List Operation := [.set "b" [], .set "a" [], .delete "b"]
    (Live ops "a" ∧ ¬ Live ops "b") ∧ (∀ s, Json.Value.null ≠ .string s) ∧
      (empty.after ops).answers [.publish "a" .standard .standard .null, .get "a"] =
        [.notText ⟨"NoneType"⟩, .diagnostics []] := by
  intro ops
  have hlive (uri : String) : (empty.after ops).contains uri = true ↔ Live ops uri := by
    obtain ⟨-, ⟨known, hknown, h⟩, -⟩ := answers_after ops uri
    rw [← h, ← Answer.deleted.inj hknown]
  have hnull : ∀ s, Json.Value.null ≠ .string s := nofun
  refine ⟨⟨?_, ?_⟩, hnull, ?_⟩
  · rw [← hlive]
    decide
  · rw [← hlive]
    decide
  · exact (answers_after ops "a").2.2.2 .standard .standard .null hnull [.get "a"]

end Collection
end HypnoScript
