import ExactCalculator.Token
import ExactCalculator.Cursor

/-!
The items of a text, put together from its beginning. A text begins with a space, with a character
that is an item of its own, or with a longest run of digits and points, and what follows has the
items that it has alone, only further on. So the items of two texts one after the other are those
of the first and then those of the second, moved by the bytes of the first, unless a run reaches
over the seam (`items_append`).
-/
namespace ExactCalculator

/-- The same lexeme in a text with so many more bytes in front. -/
def Item.shift (i : Item) (bytes : Nat) : Item := ⟨i.lexeme, i.offset + bytes⟩

@[simp] theorem Item.text_shift (i : Item) (bytes : Nat) : (i.shift bytes).text = i.text := rfl
@[simp] theorem Item.lexeme_shift (i : Item) (bytes : Nat) :
    (i.shift bytes).lexeme = i.lexeme := rfl

def Token.shift (t : Token) (bytes : Nat) : Token := ⟨t.meaning, t.literal, t.offset + bytes⟩

@[simp] theorem Token.span_shift (t : Token) (bytes : Nat) :
    (t.shift bytes).span = t.span.shift bytes := by
  simp only [span, shift, Span.ofText, Span.shift, Span.mk.injEq, true_and]
  omega

theorem Item.span_shift (i : Item) (bytes : Nat) : (i.shift bytes).span = i.span.shift bytes := by
  simp only [span, text_shift, Span.ofText, Span.shift]
  simp only [shift, Span.mk.injEq, true_and]
  omega

/-- Further on in a text a lexeme is the same token or has the same fault. -/
theorem Item.token_shift_of_ok {i : Item} {t : Token} (h : i.token = .ok t) (bytes : Nat) :
    (i.shift bytes).token = .ok (t.shift bytes) := by
  unfold token at h ⊢
  rw [lexeme_shift]
  split at h
  next m hm =>
    cases h
    rfl
  next => cases h

theorem Item.token_shift_of_error {i : Item} {f : Fault} (h : i.token = .error f) (bytes : Nat) :
    (i.shift bytes).token = .error (f.shift bytes) := by
  unfold token at h ⊢
  rw [lexeme_shift]
  split at h
  next => cases h
  next cause hm =>
    cases h
    simp only [Fault.shift, span_shift]

theorem Cursor.drain_eq_of_skipSpaces_eq {c d : Cursor} (h : c.skipSpaces = d.skipSpaces) :
    c.drain = d.drain := by
  have hnext : c.next? = d.next? := congrArg Cursor.lexeme? h
  cases hd : d.next? with
  | none => rw [drain_of_next?_eq_none hd, drain_of_next?_eq_none (hnext.trans hd), h]
  | some next =>
    rw [drain_of_next?_eq_some hd, drain_of_next?_eq_some (hnext.trans hd)]

theorem Cursor.skipSpaces_of_ne {c : Char} (hc : c ≠ ' ') (offset : Nat) (t : Text) :
    (Cursor.mk offset (c :: t)).skipSpaces = ⟨offset, c :: t⟩ := by
  have hne : ¬ (c == ' ') = true := by simpa using hc
  simp [skipSpaces, skip, hne]

theorem Cursor.skipSpaces_space (offset : Nat) (t : Text) :
    (Cursor.mk offset (' ' :: t)).skipSpaces = (Cursor.mk (offset + 1) t).skipSpaces := by
  have hsize : ' '.utf8Size = 1 := rfl
  simp [skipSpaces, skip, hsize, Nat.add_assoc]

namespace Text

def itemsAt (offset : Nat) (t : Text) : List Item := (Cursor.mk offset t).drain.1

theorem items_eq_itemsAt (t : Text) : t.items = itemsAt 0 t := rfl

@[simp] theorem itemsAt_nil (offset : Nat) : itemsAt offset [] = [] := by
  have : (Cursor.mk offset []).next? = none := rfl
  rw [itemsAt, Cursor.drain_of_next?_eq_none this]

@[simp] theorem itemsAt_space (offset : Nat) (t : Text) :
    itemsAt offset (' ' :: t) = itemsAt (offset + 1) t := by
  rw [itemsAt, Cursor.drain_eq_of_skipSpaces_eq (Cursor.skipSpaces_space offset t), itemsAt]

/-- A character that no number is made of is an item of its own. -/
theorem itemsAt_mark {c : Char} (hc : c ≠ ' ') (hn : isNumeral c = false) (offset : Nat)
    (t : Text) :
    itemsAt offset (c :: t) = ⟨.mark c, offset⟩ :: itemsAt (offset + c.utf8Size) t := by
  have hnext : (Cursor.mk offset (c :: t)).next? =
      some (⟨.mark c, offset⟩, ⟨offset + c.utf8Size, t⟩) := by
    rw [Cursor.next?, Cursor.skipSpaces_of_ne hc]
    simp [Cursor.lexeme?, hc, hn]
  rw [itemsAt, Cursor.drain_of_next?_eq_some hnext, itemsAt]

def NoNumeralFirst (t : Text) : Prop := ∀ c ∈ t.head?, isNumeral c = false

theorem takeWhile_run_append {w t : Text} (hw : ∀ c ∈ w, isNumeral c = true)
    (ht : NoNumeralFirst t) : (w ++ t).takeWhile isNumeral = w := by
  rw [List.takeWhile_append_of_pos hw]
  cases t with
  | nil => simp
  | cons c t =>
    have hc : ¬ isNumeral c = true := by simpa using ht c (by simp)
    rw [List.takeWhile_cons_of_neg hc, List.append_nil]

theorem dropWhile_run_append {w t : Text} (hw : ∀ c ∈ w, isNumeral c = true)
    (ht : NoNumeralFirst t) : (w ++ t).dropWhile isNumeral = t := by
  rw [List.dropWhile_append_of_pos hw]
  cases t with
  | nil => simp
  | cons c t =>
    have hc : ¬ isNumeral c = true := by simpa using ht c (by simp)
    rw [List.dropWhile_cons_of_neg hc]

theorem ne_space_of_isNumeral {c : Char} (h : isNumeral c = true) : c ≠ ' ' := by
  rintro rfl
  exact absurd h (by decide)

/-- A longest run of digits and points is one item. -/
theorem itemsAt_run {w t : Text} (hne : w ≠ []) (hw : ∀ c ∈ w, isNumeral c = true)
    (ht : NoNumeralFirst t) (offset : Nat) :
    itemsAt offset (w ++ t) = ⟨.run w, offset⟩ :: itemsAt (offset + byteLength w) t := by
  obtain ⟨c, r, rfl⟩ := List.exists_cons_of_ne_nil hne
  have hc : isNumeral c = true := hw c (by simp)
  have hspace : c ≠ ' ' := ne_space_of_isNumeral hc
  have hnext : (Cursor.mk offset (c :: r ++ t)).next? =
      some (⟨.run (c :: r), offset⟩, ⟨offset + byteLength (c :: r), t⟩) := by
    rw [Cursor.next?, List.cons_append, Cursor.skipSpaces_of_ne hspace]
    have htake := takeWhile_run_append hw ht
    have hdrop := dropWhile_run_append hw ht
    rw [List.cons_append] at htake hdrop
    simp [Cursor.lexeme?, hspace, hc, Cursor.skip, htake, hdrop]
  rw [itemsAt, Cursor.drain_of_next?_eq_some hnext, itemsAt]

/-- Every text is built from its end by spaces, single characters and longest runs in front. -/
theorem scanInduction {motive : Text → Prop} (nil : motive [])
    (space : ∀ t, motive t → motive (' ' :: t))
    (mark : ∀ c t, c ≠ ' ' → isNumeral c = false → motive t → motive (c :: t))
    (run : ∀ w t, w ≠ [] → (∀ c ∈ w, isNumeral c = true) → NoNumeralFirst t → motive t →
      motive (w ++ t)) (t : Text) : motive t := by
  induction hlength : t.length using Nat.strongRecOn generalizing t with
  | _ n ih =>
    subst hlength
    cases t with
    | nil => exact nil
    | cons c t =>
      by_cases hc : c = ' '
      · subst hc
        exact space t (ih _ (by simp) t rfl)
      · by_cases hn : isNumeral c = true
        · have hsplit : c :: t = (c :: t.takeWhile isNumeral) ++ t.dropWhile isNumeral := by simp
          rw [hsplit]
          refine run _ _ (by simp) ?_ ?_ (ih _ ?_ _ rfl)
          · intro d hd
            obtain rfl | hd := List.mem_cons.mp hd
            · exact hn
            · exact List.all_eq_true.mp List.all_takeWhile d hd
          · intro d hd
            have := List.head?_dropWhile_not isNumeral t
            rw [Option.mem_def.mp hd] at this
            simpa using this
          · have := (List.dropWhile_suffix isNumeral : t.dropWhile isNumeral <:+ t).length_le
            simp only [List.length_cons]
            omega
        · exact mark c t hc (by simpa using hn) (ih _ (by simp) t rfl)

/-- Every text is built from its end by spaces and lexemes in front; a lexeme in front is the first
item. -/
theorem lexemeInduction {motive : Text → Prop} (nil : motive [])
    (space : ∀ t, motive t → motive (' ' :: t))
    (lexeme : ∀ l t, (∀ offset, itemsAt offset (l.text ++ t) =
        ⟨l, offset⟩ :: itemsAt (offset + byteLength l.text) t) →
      (∀ w, l = .run w → ∀ c ∈ w, isNumeral c = true) → motive t → motive (l.text ++ t))
    (t : Text) : motive t := by
  induction t using scanInduction with
  | nil => exact nil
  | space t ih => exact space t ih
  | mark c t hc hn ih =>
    exact lexeme (.mark c) t (itemsAt_mark hc hn · t) (fun w hw => by cases hw) ih
  | run w t hne hw ht ih =>
    refine lexeme (.run w) t (itemsAt_run hne hw ht) (fun v hv => ?_) ih
    cases hv
    exact hw

/-- Text in front of a text only moves its items. -/
theorem itemsAt_add (t : Text) (offset bytes : Nat) :
    itemsAt (offset + bytes) t = (itemsAt offset t).map (Item.shift · bytes) := by
  induction t using scanInduction generalizing offset with
  | nil => simp
  | space t ih =>
    rw [itemsAt_space, itemsAt_space, ← ih]
    congr 1
    omega
  | mark c t hc hn ih =>
    rw [itemsAt_mark hc hn, itemsAt_mark hc hn, List.map_cons, ← ih, Item.shift]
    congr 2
    omega
  | run w t hne hw ht ih =>
    rw [itemsAt_run hne hw ht, itemsAt_run hne hw ht, List.map_cons, ← ih, Item.shift]
    congr 2
    omega

theorem itemsAt_eq_map (t : Text) (offset : Nat) :
    itemsAt offset t = t.items.map (Item.shift · offset) := by
  rw [items_eq_itemsAt, ← itemsAt_add, Nat.zero_add]

/-- No run of digits and points reaches from the end of one text into the other. -/
def Seam (s t : Text) : Prop := (∀ c ∈ s.getLast?, isNumeral c = false) ∨ NoNumeralFirst t

theorem Seam.of_append {r s t : Text} (h : Seam (r ++ s) t) : Seam s t := by
  cases h with
  | inl h =>
    refine .inl fun c hc => h c ?_
    rw [Option.mem_def, List.getLast?_append, Option.mem_def.mp hc]
    rfl
  | inr h => exact .inr h

/-- The items of two texts, one behind the other. -/
theorem itemsAt_append {s t : Text} (h : Seam s t) (offset : Nat) :
    itemsAt offset (s ++ t) = itemsAt offset s ++ itemsAt (offset + byteLength s) t := by
  induction s using scanInduction generalizing offset with
  | nil => simp
  | space s ih =>
    have hseam : Seam s t := Seam.of_append (r := [' ']) h
    rw [List.cons_append, itemsAt_space, itemsAt_space, ih hseam, byteLength_cons,
      Nat.add_assoc]
    rfl
  | mark c s hc hn ih =>
    have hseam : Seam s t := Seam.of_append (r := [c]) h
    rw [List.cons_append, itemsAt_mark hc hn, itemsAt_mark hc hn, ih hseam, byteLength_cons,
      List.cons_append, Nat.add_assoc]
  | run w s hne hw hs ih =>
    rw [List.append_assoc, itemsAt_run hne hw hs, List.cons_append, byteLength_append,
      ← Nat.add_assoc, ← ih h.of_append]
    refine itemsAt_run hne hw ?_ offset
    cases s with
    | nil =>
      -- The run ends the first text, so the second one must not go on with it.
      cases h with
      | inl h =>
        rw [List.append_nil] at h
        have hlast := h _ (List.getLast?_eq_some_getLast hne)
        rw [hw _ (List.getLast_mem hne)] at hlast
        cases hlast
      | inr h => exact h
    | cons c s => exact hs

theorem itemsAt_append_mark {c : Char} (hc : c ≠ ' ') (hn : isNumeral c = false) (s t : Text)
    (offset : Nat) : itemsAt offset (s ++ c :: t) =
      itemsAt offset s ++ ⟨.mark c, offset + byteLength s⟩ ::
        itemsAt (offset + byteLength s + c.utf8Size) t := by
  have hseam : Seam s (c :: t) := .inr (by simpa [NoNumeralFirst] using hn)
  rw [itemsAt_append hseam, itemsAt_mark hc hn]

def group (t : Text) : Text := '(' :: (t ++ [')'])

theorem byteLength_group (t : Text) : byteLength t.group = byteLength t + 2 := by
  have hopening : '('.utf8Size = 1 := rfl
  have hclosing : ')'.utf8Size = 1 := rfl
  simp only [group, byteLength_cons, byteLength_append, byteLength_nil, hopening, hclosing]
  omega

/-- No run of digits and points reaches into a group or out of it. -/
theorem Seam.to_group (s t u : Text) : Seam s (t.group ++ u) := by
  refine .inr ?_
  intro c hc
  cases hc
  decide

theorem Seam.of_group (t s : Text) : Seam t.group s := by
  refine .inl ?_
  intro c hc
  rw [group, ← List.cons_append, List.getLast?_concat] at hc
  cases hc
  decide

theorem itemsAt_group (t : Text) (offset : Nat) :
    itemsAt offset t.group =
      ⟨.mark '(', offset⟩ ::
        (itemsAt (offset + 1) t ++ [⟨.mark ')', offset + 1 + byteLength t⟩]) := by
  rw [group, itemsAt_mark (by decide) (by decide), itemsAt_append_mark (by decide) (by decide),
    itemsAt_nil]
  rfl

theorem itemsAt_symbol (s : Text) (op : Operator) (t : Text) (offset : Nat) :
    itemsAt offset (s ++ op.symbol :: t) =
      itemsAt offset s ++ ⟨.mark op.symbol, offset + byteLength s⟩ ::
        itemsAt (offset + byteLength s + 1) t := by
  have hsize : op.symbol.utf8Size = 1 := by cases op <;> rfl
  rw [itemsAt_append_mark (by cases op <;> decide) (by cases op <;> decide), hsize]

theorem items_append {s t : Text} (h : Seam s t) :
    (s ++ t).items = s.items ++ t.items.map (Item.shift · (byteLength s)) := by
  rw [items_eq_itemsAt, itemsAt_append h, Nat.zero_add, itemsAt_eq_map t]
  rfl

end Text
end ExactCalculator
