/-
# A terminal that reads marks

A mark is a bracketed word that starts with a small letter, a slash, a number sign or an at sign; a
bracket that starts no mark is shown as it is.  A mark opens its style, or closes the style behind
its slash, which has to be open then; a slash alone closes the style that was opened last.  Marks
are not shown.  A backslash in front of a mark makes it text, and two of them stand for one.

Of the names of styles the short ones are known.  The pictures that can be named between colons are
left as they are written, and so are the arguments of marks with an at sign.
-/
import HypnoScript.Terminal

namespace HypnoScript
namespace Terminal

/-! ## 1. Marks -/

/-- Whether a mark can start with the character. -/
def startsMark (c : Char) : Bool :=
  ('a'.toNat ≤ c.toNat && c.toNat ≤ 'z'.toNat) || c == '#' || c == '/' || c == '@'

/-- The mark at whose opening bracket the text stands: it goes on to the next closing bracket, with
no opening one on the way. -/
def mark? : Text → Option Text
  | [] => none
  | c :: cs =>
    let rest := cs.takeWhile fun d => d != ']' && d != '['
    if startsMark c && (cs.drop rest.length).head? == some ']' then some (c :: rest) else none

/-- The short names of styles, each with the full one. -/
def shortNames : List (Text × Text) :=
  [(['b'], "bold".toList), (['d'], "dim".toList), (['i'], "italic".toList),
    (['u'], "underline".toList), (['r'], "reverse".toList), (['c'], "conceal".toList),
    (['s'], "strike".toList), (['o'], "overline".toList), (['u', 'u'], "underline2".toList)]

/-- The style that a name stands for.  Case and blanks around the name do not matter. -/
def styleOf (name : Text) : Text :=
  let name := (Text.trim name).map Char.toLower
  (shortNames.lookup name).getD name

/-- The name in a mark: what stands before the first equals sign. -/
def nameOf (mark : Text) : Text := mark.takeWhile (· != '=')

/-- The styles that are open behind a mark that closes the style with this name, or the last one if
there is no name; nothing if that style is not open.  The style opened last comes first. -/
def closed? (opened : List Text) (name : Text) : Option (List Text) :=
  if (Text.trim name).isEmpty then opened.tail?
  else if opened.contains (styleOf name) then some (opened.erase (styleOf name)) else none

/-- What is said of a mark that closes nothing. -/
def refusal (mark : Text) (position : Nat) : String :=
  if (Text.trim ((nameOf mark).drop 1)).isEmpty then
    s!"closing tag '[/]' at position {position} has nothing to close"
  else "closing tag '[" ++ String.ofList mark ++ s!"]' at position {position} " ++
    "doesn't match any open tag"

/-! ## 2. Showing -/

/-- What is shown of the rest of a text from a position on, while some styles are open; `skip`
characters of the last mark are still to be passed over, and so many backslashes stand directly in
front. -/
def renderFrom (opened : List Text) (position skip slashes : Nat) : Text → Except String Text
  | [] => .ok (List.replicate slashes '\\')
  | c :: cs =>
    match skip with
    | skip + 1 => renderFrom opened (position + 1) skip 0 cs
    | 0 =>
      if c = '\\' then renderFrom opened (position + 1) 0 (slashes + 1) cs
      else if c = '[' then
        match mark? cs with
        | none =>
          (renderFrom opened (position + 1) 0 0 cs).map
            (List.replicate (slashes - 1) '\\' ++ '[' :: ·)
        | some mark =>
          if slashes % 2 = 1 then
            (renderFrom opened (position + 1) (mark.length + 1) 0 cs).map
              (List.replicate (slashes / 2) '\\' ++ '[' :: mark ++ ']' :: ·)
          else if mark.head? = some '/' then
            match closed? opened ((nameOf mark).drop 1) with
            | some opened =>
              (renderFrom opened (position + 1) (mark.length + 1) 0 cs).map
                (List.replicate (slashes / 2) '\\' ++ ·)
            | none => .error (refusal mark position)
          else
            (renderFrom (styleOf (nameOf mark) :: opened) (position + 1) (mark.length + 1) 0 cs).map
              (List.replicate (slashes / 2) '\\' ++ ·)
      else
        (renderFrom opened (position + 1) 0 0 cs).map (List.replicate slashes '\\' ++ c :: ·)

/-! ## 3. Plain pieces -/

variable {opened : List Text} {position : Nat} {t u : Text}

/-- What stands in front of all that is shown is shown in front of it. -/
theorem map_append_map (t u : Text) (r : Except String Text) :
    (r.map (u ++ ·)).map (t ++ ·) = r.map (t ++ u ++ ·) := by
  cases r with
  | error e => rfl
  | ok v => exact congrArg Except.ok (List.append_assoc t u v).symm

theorem map_nil_append (r : Except String Text) : r.map ([] ++ ·) = r := by cases r <;> rfl

/-- A plain text is shown, and then what follows it. -/
theorem renderFrom_append (h : t.all Markup.isPlainChar = true) :
    renderFrom opened position 0 0 (t ++ u) =
      (renderFrom opened (position + t.length) 0 0 u).map (t ++ ·) := by
  induction t generalizing position with
  | nil => exact (map_nil_append _).symm
  | cons c t ih =>
    obtain ⟨⟨⟨hbracket, -⟩, hslash⟩, ht⟩ :
        ((c ≠ '[' ∧ c ≠ ':') ∧ c ≠ '\\') ∧ t.all Markup.isPlainChar = true := by
      simpa [Markup.isPlainChar] using h
    rw [List.cons_append, renderFrom, if_neg hslash, if_neg hbracket, ih ht, List.length_cons,
      Nat.add_right_comm position 1]
    exact map_append_map [c] t _

/-- The characters of a mark are passed over. -/
theorem renderFrom_skip (opened : List Text) (t u : Text) (position : Nat) :
    renderFrom opened position t.length 0 (t ++ u) =
      renderFrom opened (position + t.length) 0 0 u := by
  induction t generalizing position with
  | nil => rfl
  | cons c t ih =>
    rw [List.cons_append, List.length_cons, renderFrom, ih, Nat.add_right_comm position 1]
    rfl

theorem mark?_name (s : Style) (u : Text) : mark? (s.name ++ ']' :: u) = some s.name := by
  cases s <;> rfl

theorem mark?_slash_name (s : Style) (u : Text) :
    mark? ('/' :: (s.name ++ ']' :: u)) = some ('/' :: s.name) := by
  cases s <;> rfl

theorem styleOf_name (s : Style) : styleOf (nameOf s.name) = s.name := by cases s <;> decide

theorem closed?_name (s : Style) (opened : List Text) :
    closed? (s.name :: opened) ((nameOf ('/' :: s.name)).drop 1) = some opened := by
  have hname : (nameOf ('/' :: s.name)).drop 1 = s.name := by cases s <;> rfl
  have hstyle : styleOf s.name = s.name := by cases s <;> decide
  have hne : (Text.trim s.name).isEmpty = false := by cases s <;> decide
  rw [hname, closed?, hne, hstyle]
  simp

/-- A mark opens its style, -/
theorem renderFrom_open (s : Style) (u : Text) (position : Nat) :
    renderFrom opened position 0 0 ('[' :: (s.name ++ ']' :: u)) =
      renderFrom (s.name :: opened) (position + (s.name.length + 2)) 0 0 u := by
  have hskip := renderFrom_skip (s.name :: opened) (s.name ++ [']']) u (position + 1)
  rw [List.length_append, List.append_assoc] at hskip
  have hhead : s.name.head? ≠ some '/' := by cases s <;> decide
  rw [renderFrom, if_neg (by decide), if_pos rfl, mark?_name]
  simp only [Nat.zero_mod, Nat.zero_ne_one, if_false, hhead, styleOf_name]
  rw [show position + (s.name.length + 2) = position + 1 + (s.name.length + 1) by omega]
  exact (map_nil_append _).trans hskip

/-- and the mark with its name behind a slash closes it. -/
theorem renderFrom_close (s : Style) (u : Text) (position : Nat) :
    renderFrom (s.name :: opened) position 0 0 ('[' :: '/' :: (s.name ++ ']' :: u)) =
      renderFrom opened (position + (s.name.length + 3)) 0 0 u := by
  have hskip := renderFrom_skip opened ('/' :: s.name ++ [']']) u (position + 1)
  rw [List.length_append, List.append_assoc] at hskip
  rw [renderFrom, if_neg (by decide), if_pos rfl, mark?_slash_name]
  simp only [Nat.zero_mod, Nat.zero_ne_one, if_false, List.head?_cons, if_true, closed?_name]
  rw [show position + (s.name.length + 3) = position + 1 + (s.name.length + 2) by omega]
  exact (map_nil_append _).trans hskip

/-- A plain piece is shown without its marks, and then what follows it: the styles that are open
are the same behind it. -/
theorem exists_renderFrom_pieceSource (opened : List Text) (p : Option Style × Text)
    (h : p.2.all Markup.isPlainChar = true) (u : Text) (position : Nat) :
    ∃ n, renderFrom opened position 0 0 (Markup.pieceSource p ++ u) =
      (renderFrom opened n 0 0 u).map (p.2 ++ ·) := by
  obtain ⟨style, t⟩ := p
  cases style with
  | none => exact ⟨_, renderFrom_append h⟩
  | some s =>
    refine ⟨position + (s.name.length + 2) + t.length + (s.name.length + 3), ?_⟩
    simp only [Markup.pieceSource, List.cons_append, List.append_assoc, List.nil_append]
    rw [renderFrom_open, renderFrom_append h, renderFrom_close]

theorem renderFrom_source {m : Markup} (h : m.isPlain = true) (position : Nat) :
    renderFrom opened position 0 0 m.source = .ok m.text := by
  induction m generalizing position with
  | nil => rfl
  | cons p m ih =>
    rw [Markup.isPlain, List.all_cons, Bool.and_eq_true, ← Markup.isPlain] at h
    obtain ⟨hp, hm⟩ := h
    obtain ⟨n, hn⟩ := exists_renderFrom_pieceSource opened p hp (Markup.source m) position
    rw [Markup.source, List.flatMap_cons, ← Markup.source, hn, ih hm]
    rfl

/-- The terminal that reads marks. -/
def standard : Terminal where
  render := renderFrom [] 0 0 0
  render_source _ plain := renderFrom_source plain 0

end Terminal
end HypnoScript
