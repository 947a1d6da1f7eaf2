import ExactCalculator.Proofs.Decimal.Numeral
import ExactCalculator.Proofs.Places

/-!
The items of a text tile it. Every item is a sign, a number, a malformed literal or a stray
character, and which one follows from its characters alone (`exists_sort`). On the way from item to
item a cursor never loses the text behind it. The main statement (`Text.items_tile`) says this of
every text, whether there are faults among the items or not.
-/
namespace ExactCalculator

/-- The characters that are tokens of their own, with what they mean. -/
def signs : List (Char × Meaning) :=
  [('(', .opening), (')', .closing), ('+', .operator .plus), ('-', .operator .minus),
    ('*', .operator .star), ('/', .operator .slash)]

theorem Meaning.ofMark?_eq_some_iff {c : Char} {m : Meaning} :
    Meaning.ofMark? c = some m ↔ (c, m) ∈ signs := by
  constructor
  · intro h
    unfold ofMark? at h
    split at h
    · cases h
      decide
    · cases h
      decide
    · obtain ⟨op, hop, rfl⟩ := Option.map_eq_some_iff.mp h
      rw [Operator.ofSymbol?_eq_some_iff.mp hop]
      cases op <;> decide
  · intro h
    simp only [signs, List.mem_cons, Prod.mk.injEq, List.not_mem_nil, or_false] at h
    obtain ⟨rfl, rfl⟩ | ⟨rfl, rfl⟩ | ⟨rfl, rfl⟩ | ⟨rfl, rfl⟩ | ⟨rfl, rfl⟩ | ⟨rfl, rfl⟩ := h <;> rfl

inductive ItemSort where
  | sign | number | malformed | stray
  deriving DecidableEq, Repr

/-- What it takes for an item of a text to be of some sort: of which characters it is made, and
which token or fault it is. -/
def Item.IsOf (t : Text) (i : Item) : ItemSort → Prop
  | .sign => ∃ c m, i.lexeme = .mark c ∧ (c, m) ∈ signs ∧ i.span = .single i.offset ∧
    i.token = .ok ⟨m, [c], i.offset⟩
  | .number => ∃ w, i.lexeme = .run w ∧ t.IsLongestRun i.span ∧ w.IsLiteral ∧
    i.token = .ok ⟨.number w.literalDecimal, w, i.offset⟩
  | .malformed => ∃ w reason, i.lexeme = .run w ∧ t.IsLongestRun i.span ∧
    (2 ≤ w.count '.' ∧ reason = .multiplePoints ∨ w = ['.'] ∧ reason = .noDigits) ∧
    i.token = .error ⟨.malformedLiteral w reason, i.span⟩
  | .stray => ∃ c, i.lexeme = .mark c ∧ c ≠ ' ' ∧ isNumeral c = false ∧
    (∀ m, (c, m) ∉ signs) ∧ i.token = .error ⟨.invalidCharacter c, i.span⟩

def Item.sort (i : Item) : ItemSort :=
  match i.lexeme, i.token with
  | .mark _, .ok _ => .sign
  | .mark _, .error _ => .stray
  | .run _, .ok _ => .number
  | .run _, .error _ => .malformed

theorem Item.IsOf.eq_sort {t : Text} {i : Item} {sort : ItemSort} (h : i.IsOf t sort) :
    sort = i.sort := by
  cases sort with
  | sign =>
    obtain ⟨c, m, hlexeme, -, -, htoken⟩ := h
    simp only [Item.sort, hlexeme, htoken]
  | number =>
    obtain ⟨w, hlexeme, -, -, htoken⟩ := h
    simp only [Item.sort, hlexeme, htoken]
  | malformed =>
    obtain ⟨w, reason, hlexeme, -, -, htoken⟩ := h
    simp only [Item.sort, hlexeme, htoken]
  | stray =>
    obtain ⟨c, hlexeme, -, -, -, htoken⟩ := h
    simp only [Item.sort, hlexeme, htoken]

/-- Its characters decide of which sort an item is. -/
theorem Text.exists_sort {t : Text} {i : Item} (h : i ∈ t.items) : ∃ sort, i.IsOf t sort := by
  obtain ⟨before, behind, ht, hspan, hfits⟩ := mem_items h
  obtain ⟨l, offset⟩ := i
  cases l with
  | mark c =>
    cases hc : Meaning.ofMark? c with
    | some m =>
      refine ⟨.sign, c, m, rfl, Meaning.ofMark?_eq_some_iff.mp hc, ?_, ?_⟩
      · have hsize : ∀ sign ∈ signs, sign.1.utf8Size = 1 := by decide
        have hc := hsize (c, m) (Meaning.ofMark?_eq_some_iff.mp hc)
        simp only at hc
        simp only [Item.span, Item.text, Lexeme.text, Span.ofText, byteLength_cons, hc,
          byteLength_nil, Span.single]
      · simp only [Item.token, Lexeme.meaning, hc]
        rfl
    | none =>
      refine ⟨.stray, c, rfl, hfits.1, hfits.2, ?_, ?_⟩
      · intro m hm
        rw [Meaning.ofMark?_eq_some_iff.mpr hm] at hc
        cases hc
      · exact Item.token_of_error (Lexeme.meaning_mark_of_none hc) offset
  | run w =>
    have hrun : t.IsLongestRun (Item.mk (.run w) offset).span :=
      ⟨before, w, behind, ht, hspan, hfits⟩
    obtain hliteral | ⟨hcount, hw⟩ | ⟨hpoint, hw⟩ := Decimal.ofLiteral_run hfits.1 hfits.2.1
    · exact ⟨.number, w, rfl, hrun, hliteral,
        Item.token_run (Decimal.ofLiteral_of_isLiteral hliteral) offset⟩
    · exact ⟨.malformed, w, _, rfl, hrun, .inl ⟨hcount, rfl⟩,
        Item.token_of_error (Lexeme.meaning_run_of_error hw) offset⟩
    · exact ⟨.malformed, w, _, rfl, hrun, .inr ⟨hpoint, rfl⟩,
        Item.token_of_error (Lexeme.meaning_run_of_error hw) offset⟩

/-- The cursors that a cursor comes to: over one space, or over one lexeme, whatever it means. -/
inductive Cursor.Reaches (c : Cursor) : Cursor → Prop
  | here : Reaches c c
  | space {byte : Nat} {rest : Text} (h : Reaches c ⟨byte, ' ' :: rest⟩) :
    Reaches c ⟨byte + 1, rest⟩
  | lexeme {before after : Cursor} {item : Item} (h : Reaches c before)
    (hitem : before.lexeme? = some (item, after)) : Reaches c after

/-- A cursor keeps what is behind its byte, and moves between characters only. -/
theorem Cursor.Reaches.slice? {t : Text} {c : Cursor} (h : (start t).Reaches c) :
    t.slice? ⟨c.byte, Text.byteLength t⟩ = some c.rest := by
  have hsplit : ∃ passed, t = passed ++ c.rest ∧ Text.byteLength passed = c.byte := by
    induction h with
    | here => exact ⟨[], rfl, rfl⟩
    | @space byte rest h ih =>
      obtain ⟨passed, hpassed, hbyte⟩ := ih
      refine ⟨passed ++ [' '], ?_, ?_⟩
      · rw [List.append_assoc]
        exact hpassed
      · rw [Text.byteLength_append, hbyte]
        rfl
    | @lexeme before after item h hitem ih =>
      obtain ⟨passed, hpassed, hbyte⟩ := ih
      refine ⟨passed ++ item.text, ?_, ?_⟩
      · rw [List.append_assoc, ← rest_of_lexeme? hitem]
        exact hpassed
      · obtain ⟨hoffset, hafter⟩ := byte_of_lexeme? hitem
        rw [Text.byteLength_append, hbyte, hafter, Item.span, hoffset]
        rfl
  obtain ⟨passed, hpassed, hbyte⟩ := hsplit
  refine Text.slice?_eq_some_iff.mpr ⟨passed, [], by rw [List.append_nil]; exact hpassed, ?_⟩
  rw [← hbyte, Span.ofText, ← Text.byteLength_append, ← hpassed]

theorem Cursor.Reaches.skipSpaces {c d : Cursor} (h : c.Reaches d) : c.Reaches d.skipSpaces := by
  obtain ⟨byte, rest⟩ := d
  induction rest generalizing byte with
  | nil => exact h
  | cons x rest ih =>
    by_cases hx : x = ' '
    · subst hx
      rw [skipSpaces_space]
      exact ih _ h.space
    · rw [skipSpaces_of_ne hx]
      exact h

/-- Draining is nothing but passing spaces and lexemes. -/
theorem Cursor.Reaches.drain {c d : Cursor} (h : c.Reaches d) : c.Reaches d.drain.2 := by
  fun_induction Cursor.drain d with
  | case1 d hnone => exact h.skipSpaces
  | case2 d item after hsome items final hd ih =>
    rw [hd] at ih
    exact ih (h.skipSpaces.lexeme hsome)

/-- An item that is drained is the lexeme at a cursor on the way. -/
theorem Cursor.Reaches.lexeme_of_mem_drain {c d : Cursor} (h : c.Reaches d) {i : Item}
    (hi : i ∈ d.drain.1) :
    ∃ before after, c.Reaches before ∧ before.lexeme? = some (i, after) := by
  fun_induction Cursor.drain d with
  | case1 d hnone => cases hi
  | case2 d item after hsome items final hd ih =>
    obtain rfl | hi := List.mem_cons.mp hi
    · exact ⟨d.skipSpaces, after, h.skipSpaces, hsome⟩
    · rw [hd] at ih
      exact ih (h.skipSpaces.lexeme hsome) hi

/-- There is no space at a cursor with a lexeme, so that lexeme is the next one. -/
theorem Cursor.next?_of_lexeme? {c after : Cursor} {item : Item}
    (h : c.lexeme? = some (item, after)) : c.next? = some (item, after) := by
  obtain ⟨byte, rest⟩ := c
  cases rest with
  | nil => cases h
  | cons x rest =>
    have hx : x ≠ ' ' := by
      rintro rfl
      cases h
    rw [next?, skipSpaces_of_ne hx, h]

/-- The items from a cursor on the way on are the last of all items. -/
theorem Cursor.Reaches.drain_suffix {c d : Cursor} (h : c.Reaches d) :
    d.drain.1 <:+ c.drain.1 := by
  induction h with
  | here => exact List.suffix_rfl
  | @space byte rest h ih =>
    rw [drain_eq_of_skipSpaces_eq (skipSpaces_space byte rest)] at ih
    exact ih
  | @lexeme before after item h hitem ih =>
    rw [drain_of_next?_eq_some (next?_of_lexeme? hitem)] at ih
    exact (List.suffix_cons item after.drain.1).trans ih

theorem Cursor.Reaches.mem_drain {c before after : Cursor} {item : Item} (h : c.Reaches before)
    (hitem : before.lexeme? = some (item, after)) : item ∈ c.drain.1 := by
  refine h.drain_suffix.subset ?_
  rw [drain_of_next?_eq_some (next?_of_lexeme? hitem)]
  exact List.mem_cons_self

structure Text.TiledBy (t : Text) (items : List Item) : Prop where
  nonempty : ∀ i ∈ items, i.span.start < i.span.stop
  ordered : items.Pairwise fun i j => i.span.stop ≤ j.span.start
  /-- Each range lies inside of the text, with both ends between characters. -/
  literal : ∀ i ∈ items, t.slice? i.span = some i.text
  /-- A character in front of, between or behind the items is a space. -/
  gaps : ∀ before c behind, t = before ++ c :: behind →
    (∀ i ∈ items, ¬ i.Covers (byteLength before)) → c = ' '
  sort : ∀ i ∈ items, ∃! sort, i.IsOf t sort

/-- The items tile the text, and they are the lexemes of the cursors on the way: such a cursor
stands at the first byte of its lexeme, and the next one behind the last byte. The last cursor
stands at the end of the text, and every cursor on the way keeps what is behind its byte. -/
theorem Text.items_tile (t : Text) :
    t.TiledBy t.items ∧ (Cursor.start t).drain.2.byte = byteLength t ∧
      (Cursor.start t).Reaches (Cursor.start t).drain.2 ∧
      (∀ c, (Cursor.start t).Reaches c → t.slice? ⟨c.byte, byteLength t⟩ = some c.rest) ∧
      (∀ before after item, (Cursor.start t).Reaches before →
        before.lexeme? = some (item, after) →
          item ∈ t.items ∧ item.offset = before.byte ∧ after.byte = item.span.stop) ∧
      ∀ item ∈ t.items, ∃ before after,
        (Cursor.start t).Reaches before ∧ before.lexeme? = some (item, after) := by
  refine ⟨⟨fun i hi => span_start_lt_stop hi, t.itemsAt_pairwise 0,
    fun i hi => slice?_span_of_mem_items hi, ?_, ?_⟩, ?_, .drain .here, fun c h => h.slice?, ?_,
    fun item hitem => Cursor.Reaches.here.lexeme_of_mem_drain hitem⟩
  · intro before c behind ht hnone
    obtain hspace | ⟨i, hi, hcovered⟩ := eq_space_or_covered ht 0
    · exact hspace
    · rw [Nat.zero_add] at hcovered
      exact absurd hcovered (hnone i hi)
  · intro i hi
    obtain ⟨sort, hsort⟩ := exists_sort hi
    exact ⟨sort, hsort, fun other hother => hother.eq_sort.trans hsort.eq_sort.symm⟩
  · rw [Cursor.drain_final]
    exact Nat.zero_add _
  · intro before after item hbefore hitem
    exact ⟨hbefore.mem_drain hitem, Cursor.byte_of_lexeme? hitem⟩

/-- In ` é1..2(` the character of two bytes and the run behind it are faults. The cursor between
them keeps the rest of the text, and the one behind the run stands at the byte where the run ends.
-/
theorem items_tile_between_faults :
    Text.slice? [' ', 'é', '1', '.', '.', '2', '('] ⟨3, 8⟩ = some ['1', '.', '.', '2', '('] ∧
    Text.slice? [' ', 'é', '1', '.', '.', '2', '('] ⟨3, 7⟩ = some ['1', '.', '.', '2'] ∧
    (Cursor.mk 7 ['(']).byte = (Item.mk (.run ['1', '.', '.', '2']) 3).span.stop := by
  obtain ⟨htiled, -, -, hrest, hbytes, -⟩ := Text.items_tile [' ', 'é', '1', '.', '.', '2', '(']
  have hreaches : (Cursor.start [' ', 'é', '1', '.', '.', '2', '(']).Reaches
      ⟨3, ['1', '.', '.', '2', '(']⟩ :=
    .lexeme (.space .here) rfl
  obtain ⟨hmem, -, hstop⟩ := hbytes ⟨3, ['1', '.', '.', '2', '(']⟩ ⟨7, ['(']⟩
    ⟨.run ['1', '.', '.', '2'], 3⟩ hreaches rfl
  exact ⟨hrest _ hreaches, htiled.literal _ hmem, hstop⟩

end ExactCalculator
