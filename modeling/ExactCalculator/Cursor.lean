import ExactCalculator.Lexeme

/-!
Cursors: what is left of a text, and the number of bytes in front of it. A cursor passes spaces,
then one lexeme, and so on to the end; no text stops it, since each character belongs to a lexeme
or is a space. The main statements say that a lexeme and what is left behind it make up the text
(`rest_of_lexeme?`) and that the last cursor stands at the end of the text (`drain_final`).
-/
namespace ExactCalculator

structure Cursor where
  byte : Nat
  rest : Text
  deriving DecidableEq, Repr

namespace Cursor

def start (t : Text) : Cursor := ⟨0, t⟩

def skip (p : Char → Bool) (c : Cursor) : Cursor :=
  ⟨c.byte + Text.byteLength (c.rest.takeWhile p), c.rest.dropWhile p⟩

def skipSpaces (c : Cursor) : Cursor := c.skip (· == ' ')

/-- The lexeme at the cursor and the cursor behind it; there is none at a space or at the end. -/
def lexeme? (c : Cursor) : Option (Item × Cursor) :=
  match c.rest with
  | [] => none
  | x :: rest =>
    if x == ' ' then none
    else if isNumeral x then
      some (⟨.run (c.rest.takeWhile isNumeral), c.byte⟩, c.skip isNumeral)
    else some (⟨.mark x, c.byte⟩, ⟨c.byte + x.utf8Size, rest⟩)

/-- The next lexeme, spaces in front of it passed. -/
def next? (c : Cursor) : Option (Item × Cursor) := c.skipSpaces.lexeme?

/-- The byte position of the end of the text; no step moves it. -/
def stop (c : Cursor) : Nat := c.byte + Text.byteLength c.rest

theorem rest_skip (p : Char → Bool) (c : Cursor) :
    c.rest = c.rest.takeWhile p ++ (c.skip p).rest :=
  List.takeWhile_append_dropWhile.symm

@[simp] theorem stop_skip (p : Char → Bool) (c : Cursor) : (c.skip p).stop = c.stop := by
  have h := congrArg Text.byteLength (rest_skip p c)
  rw [Text.byteLength_append] at h
  simp only [stop, h]
  simp only [skip]
  omega

/-- The cursor behind a lexeme stands at the end of its bytes. -/
theorem byte_of_lexeme? {c after : Cursor} {item : Item} (h : c.lexeme? = some (item, after)) :
    item.offset = c.byte ∧ after.byte = item.span.stop := by
  unfold lexeme? at h
  split at h
  next => simp at h
  next x rest hrest =>
    split at h
    next => simp at h
    next =>
      split at h <;> cases h <;> exact ⟨rfl, rfl⟩

/-- A lexeme and what is left behind it make up the text. -/
theorem rest_of_lexeme? {c after : Cursor} {item : Item} (h : c.lexeme? = some (item, after)) :
    c.rest = item.text ++ after.rest := by
  unfold lexeme? at h
  split at h
  next => simp at h
  next x rest hrest =>
    split at h
    next => simp at h
    next =>
      split at h
      next =>
        cases h
        exact rest_skip isNumeral c
      next =>
        cases h
        exact hrest

theorem stop_of_lexeme? {c after : Cursor} {item : Item} (h : c.lexeme? = some (item, after)) :
    after.stop = c.stop := by
  have hb := byte_of_lexeme? h
  simp only [stop, rest_of_lexeme? h, hb.2, Text.byteLength_append, Item.span, Span.ofText, hb.1]
  omega

/-- No lexeme comes next only when nothing but spaces is left. -/
theorem rest_of_next?_eq_none {c : Cursor} (h : c.next? = none) : c.skipSpaces.rest = [] := by
  cases hrest : c.skipSpaces.rest with
  | nil => rfl
  | cons x rest =>
    have hx := List.head?_dropWhile_not (· == ' ') c.rest
    rw [show c.rest.dropWhile (· == ' ') = x :: rest from hrest] at hx
    have hx : ¬ (x == ' ') = true := by simpa using hx
    simp only [next?, lexeme?, hrest, if_neg hx] at h
    split at h <;> cases h

theorem length_rest_skip_le (p : Char → Bool) (c : Cursor) :
    (c.skip p).rest.length ≤ c.rest.length :=
  (List.dropWhile_suffix p).length_le

/-- A lexeme has at least one character. -/
theorem length_rest_of_lexeme? {c after : Cursor} {item : Item}
    (h : c.lexeme? = some (item, after)) : after.rest.length < c.rest.length := by
  unfold lexeme? at h
  split at h
  next => simp at h
  next x rest hrest =>
    split at h
    · simp at h
    · split at h
      next hx =>
        simp only [Option.some.injEq, Prod.mk.injEq] at h
        have hle := (List.dropWhile_suffix isNumeral : rest.dropWhile isNumeral <:+ _).length_le
        have hafter : after.rest = rest.dropWhile isNumeral := by
          rw [← h.2, skip, hrest, List.dropWhile_cons_of_pos hx]
        rw [hafter, hrest, List.length_cons]
        omega
      next =>
        simp only [Option.some.injEq, Prod.mk.injEq] at h
        simp [← h.2, hrest]

theorem length_rest_of_next? {c after : Cursor} {item : Item}
    (h : c.next? = some (item, after)) : after.rest.length < c.rest.length :=
  Nat.lt_of_lt_of_le (length_rest_of_lexeme? h) (length_rest_skip_le _ c)

/-- All lexemes from the cursor on, and the cursor behind the last of them and the spaces there. -/
def drain (c : Cursor) : List Item × Cursor :=
  match _h : c.next? with
  | none => ([], c.skipSpaces)
  | some (item, after) =>
    let (items, final) := after.drain
    (item :: items, final)
termination_by c.rest.length
decreasing_by exact length_rest_of_next? _h

theorem drain_of_next?_eq_none {c : Cursor} (h : c.next? = none) :
    c.drain = ([], c.skipSpaces) := by
  rw [drain]
  split
  next => rfl
  next h' => simp [h] at h'

theorem drain_of_next?_eq_some {c after : Cursor} {item : Item}
    (h : c.next? = some (item, after)) :
    c.drain = (item :: after.drain.1, after.drain.2) := by
  rw [drain]
  split
  next h' => simp [h] at h'
  next item' after' h' =>
    rw [h] at h'
    cases h'
    rfl

/-- The cursor behind everything stands at the end of the text. -/
theorem drain_final (c : Cursor) : c.drain.2 = ⟨c.stop, []⟩ := by
  fun_induction drain c with
  | case1 c h =>
    have hrest := rest_of_next?_eq_none h
    have hstop := stop_skip (· == ' ') c
    rw [← skipSpaces, stop, hrest, Text.byteLength_nil, Nat.add_zero] at hstop
    rw [← hstop, ← hrest]
  | case2 c item after h items final hd ih =>
    rw [hd] at ih
    rw [ih, stop_of_lexeme? h]
    simp [skipSpaces]

end Cursor

def Text.items (t : Text) : List Item := (Cursor.start t).drain.1

end ExactCalculator
