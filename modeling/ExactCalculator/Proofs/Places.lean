import ExactCalculator.Proofs.Slices
import ExactCalculator.Proofs.Tokens

/-!
The places of the items of a text. Each stands between what is in front of it and what is behind
(`mem_itemsAt`), later items stand further on (`itemsAt_pairwise`), and a character that belongs to
none is a space (`eq_space_or_covered`). Between two numbers there is always something.
-/
namespace ExactCalculator

/-- A lexeme between two texts: a mark is no space and belongs to no number, and a run could not be
longer. -/
def Lexeme.FitsBetween (before behind : Text) : Lexeme → Prop
  | .mark c => c ≠ ' ' ∧ isNumeral c = false
  | .run w => w ≠ [] ∧ (∀ c ∈ w, isNumeral c = true) ∧
    (∀ c ∈ before.getLast?, isNumeral c = false) ∧ Text.NoNumeralFirst behind

/-- A range of digits and points that is as long as it can be. -/
def Text.IsLongestRun (t : Text) (s : Span) : Prop :=
  ∃ before w behind, t = before ++ (w ++ behind) ∧ s = .ofText (byteLength before) w ∧
    (Lexeme.run w).FitsBetween before behind

def Item.Covers (i : Item) (byte : Nat) : Prop := i.span.start ≤ byte ∧ byte < i.span.stop

theorem Item.covers_of_text_eq {i : Item} {passed more : Text} {c : Char}
    (h : i.text = passed ++ c :: more) : i.Covers (i.offset + Text.byteLength passed) := by
  have := c.utf8Size_pos
  simp only [Covers, span, Span.ofText, h, Text.byteLength_append, Text.byteLength_cons]
  omega

/-- More text in front does not matter where no run of digits and points goes on. -/
theorem Lexeme.FitsBetween.append_left {l : Lexeme} {before behind front : Text}
    (h : l.FitsBetween before behind) (hseam : Text.Seam front (before ++ (l.text ++ behind))) :
    l.FitsBetween (front ++ before) behind := by
  cases l with
  | mark c => exact h
  | run w =>
    obtain ⟨hne, hw, hbefore, hbehind⟩ := h
    refine ⟨hne, hw, ?_, hbehind⟩
    intro c hc
    cases before with
    | cons d before =>
      rw [Option.mem_def, List.getLast?_append, List.getLast?_cons, Option.some_or,
        ← List.getLast?_cons] at hc
      exact hbefore c hc
    | nil =>
      -- The run stands first behind the seam, so the text in front ends without a digit or point.
      rw [List.append_nil] at hc
      obtain hlast | hfirst := hseam
      · exact hlast c hc
      · obtain ⟨d, r, rfl⟩ := List.exists_cons_of_ne_nil hne
        have hd := hfirst d rfl
        rw [hw d (by simp)] at hd
        cases hd

namespace Text

/-- An item stands where it says, between the text in front of it and the text behind. -/
theorem mem_itemsAt {t : Text} {offset : Nat} {i : Item} (h : i ∈ itemsAt offset t) :
    ∃ before behind, t = before ++ (i.text ++ behind) ∧ i.offset = offset + byteLength before ∧
      i.lexeme.FitsBetween before behind := by
  induction t using scanInduction generalizing offset with
  | nil => simp at h
  | space t ih =>
    rw [itemsAt_space] at h
    obtain ⟨before, behind, rfl, hoffset, hfits⟩ := ih h
    have hseam : Seam [' '] (before ++ (i.text ++ behind)) := by
      refine .inl fun c hc => ?_
      cases hc
      decide
    refine ⟨' ' :: before, behind, rfl, ?_, hfits.append_left hseam⟩
    rw [hoffset, byteLength_cons, show ' '.utf8Size = 1 from rfl, Nat.add_assoc]
  | mark c t hc hn ih =>
    rw [itemsAt_mark hc hn] at h
    obtain rfl | h := List.mem_cons.mp h
    · exact ⟨[], t, rfl, rfl, hc, hn⟩
    · obtain ⟨before, behind, rfl, hoffset, hfits⟩ := ih h
      have hseam : Seam [c] (before ++ (i.text ++ behind)) := by
        refine .inl fun d hd => ?_
        cases hd
        exact hn
      refine ⟨c :: before, behind, rfl, ?_, hfits.append_left hseam⟩
      rw [hoffset, byteLength_cons, Nat.add_assoc]
  | run w t hne hw ht ih =>
    rw [itemsAt_run hne hw ht] at h
    obtain rfl | h := List.mem_cons.mp h
    · exact ⟨[], t, rfl, rfl, hne, hw, by simp, ht⟩
    · obtain ⟨before, behind, rfl, hoffset, hfits⟩ := ih h
      refine ⟨w ++ before, behind, by rw [List.append_assoc], ?_, hfits.append_left (.inr ht)⟩
      rw [hoffset, byteLength_append, Nat.add_assoc]

theorem mem_items {t : Text} {i : Item} (h : i ∈ t.items) :
    ∃ before behind, t = before ++ (i.text ++ behind) ∧
      i.span = .ofText (byteLength before) i.text ∧ i.lexeme.FitsBetween before behind := by
  obtain ⟨before, behind, ht, hoffset, hfits⟩ := mem_itemsAt h
  refine ⟨before, behind, ht, ?_, hfits⟩
  rw [Item.span, hoffset, Nat.zero_add]

/-- The text under the range of an item is the item's own. -/
theorem slice?_span_of_mem_items {t : Text} {i : Item} (h : i ∈ t.items) :
    t.slice? i.span = some i.text := by
  obtain ⟨before, behind, ht, hspan, -⟩ := mem_items h
  exact slice?_eq_some_iff.mpr ⟨before, behind, ht, hspan⟩

/-- An item has at least one byte. -/
theorem span_start_lt_stop {t : Text} {i : Item} (h : i ∈ t.items) :
    i.span.start < i.span.stop := by
  have hne : i.text ≠ [] := by
    obtain ⟨before, behind, -, -, hfits⟩ := mem_items h
    obtain ⟨l, offset⟩ := i
    cases l with
    | mark c => exact List.cons_ne_nil _ _
    | run w => exact hfits.1
  obtain ⟨c, w, hw⟩ := List.exists_cons_of_ne_nil hne
  obtain ⟨hstart, hstop⟩ : i.Covers (i.offset + byteLength []) := Item.covers_of_text_eq hw
  exact Nat.lt_of_le_of_lt hstart hstop

/-- Nothing stands in front of the beginning. -/
theorem offset_le_start_of_mem_itemsAt {t : Text} {offset : Nat} {i : Item}
    (h : i ∈ itemsAt offset t) : offset ≤ i.span.start := by
  obtain ⟨before, -, -, hoffset, -⟩ := mem_itemsAt h
  change offset ≤ i.offset
  omega

/-- Each item ends before the next one begins. -/
theorem itemsAt_pairwise (t : Text) (offset : Nat) :
    (itemsAt offset t).Pairwise fun i j => i.span.stop ≤ j.span.start := by
  induction t using scanInduction generalizing offset with
  | nil => simp
  | space t ih =>
    rw [itemsAt_space]
    exact ih _
  | mark c t hc hn ih =>
    rw [itemsAt_mark hc hn]
    exact .cons (fun j hj => offset_le_start_of_mem_itemsAt hj) (ih _)
  | run w t hne hw ht ih =>
    rw [itemsAt_run hne hw ht]
    exact .cons (fun j hj => offset_le_start_of_mem_itemsAt hj) (ih _)

/-- No item stands twice in a text. -/
theorem nodup_items (t : Text) : t.items.Nodup := by
  have hpairwise : t.items.Pairwise fun i j => i.span.stop ≤ j.span.start := itemsAt_pairwise t 0
  refine hpairwise.imp_of_mem fun {i j} hi _ hij heq => ?_
  rw [← heq] at hij
  have := span_start_lt_stop hi
  omega

/-- Later items stand further on. -/
theorem offsets_pairwise (t : Text) : t.items.Pairwise fun i j => i.offset < j.offset := by
  refine (t.itemsAt_pairwise 0).imp_of_mem fun {i j} hi _ hle => ?_
  exact Nat.lt_of_lt_of_le (span_start_lt_stop hi) hle

/-- A character behind an item is covered as it is without the item, and one of the item's own is
covered by the item. -/
theorem eq_space_or_covered_cons {i : Item} {items : List Item} {t before behind : Text} {c : Char}
    (h : i.text ++ t = before ++ c :: behind)
    (hrest : ∀ inner, t = inner ++ c :: behind →
      c = ' ' ∨ ∃ j ∈ items, j.Covers (i.offset + byteLength i.text + byteLength inner)) :
    c = ' ' ∨ ∃ j ∈ i :: items, j.Covers (i.offset + byteLength before) := by
  have hbehind : ∀ inner, t = inner ++ c :: behind → before = i.text ++ inner →
      c = ' ' ∨ ∃ j ∈ i :: items, j.Covers (i.offset + byteLength before) := by
    rintro inner hinner rfl
    rw [byteLength_append, ← Nat.add_assoc]
    obtain hspace | ⟨j, hj, hcovers⟩ := hrest inner hinner
    · exact .inl hspace
    · exact .inr ⟨j, List.mem_cons_of_mem _ hj, hcovers⟩
  obtain ⟨inner, hbefore, hinner⟩ | ⟨own, htext, hown⟩ := List.append_eq_append_iff.mp h
  · exact hbehind inner hinner hbefore
  · cases own with
    | nil => exact hbehind [] hown.symm (by simpa using htext.symm)
    | cons d own =>
      cases hown
      exact .inr ⟨i, List.mem_cons_self, Item.covers_of_text_eq htext⟩

/-- Every character is a space or lies in an item. -/
theorem eq_space_or_covered {t before behind : Text} {c : Char} (h : t = before ++ c :: behind)
    (offset : Nat) : c = ' ' ∨ ∃ i ∈ itemsAt offset t, i.Covers (offset + byteLength before) := by
  induction t using scanInduction generalizing offset before with
  | nil => simp at h
  | space t ih =>
    rw [itemsAt_space]
    cases before with
    | nil =>
      cases h
      exact .inl rfl
    | cons d before =>
      cases h
      rw [byteLength_cons, show ' '.utf8Size = 1 from rfl, ← Nat.add_assoc]
      exact ih rfl _
  | mark d t hd hn ih =>
    rw [itemsAt_mark hd hn]
    exact eq_space_or_covered_cons (i := ⟨.mark d, offset⟩) h fun inner hinner => ih hinner _
  | run w t hne hw ht ih =>
    rw [itemsAt_run hne hw ht]
    exact eq_space_or_covered_cons (i := ⟨.run w, offset⟩) h fun inner hinner => ih hinner _

/-- Between two numbers there is at least a byte, or they would be one run. -/
theorem numbers_pairwise (t : Text) : t.numbers.Pairwise fun i j => i.span.stop < j.span.start := by
  refine ((t.itemsAt_pairwise 0).filter Item.isNumber).imp_of_mem ?_
  intro i j hi hj hle
  obtain ⟨hi, hnumber⟩ := List.mem_filter.mp hi
  obtain ⟨hj, hnumber'⟩ := List.mem_filter.mp hj
  obtain ⟨w, m, rfl⟩ := Item.eq_run_of_isNumber hnumber
  obtain ⟨w', n, rfl⟩ := Item.eq_run_of_isNumber hnumber'
  obtain ⟨before, behind, ht, hspan, hne, hw, -, -⟩ := mem_items hi
  obtain ⟨before', behind', ht', hspan', -, -, hbefore', -⟩ := mem_items hj
  refine Nat.lt_of_le_of_ne hle fun heq => ?_
  -- With nothing between them the later run would begin where the earlier one ends.
  have hfront : before' = before ++ w := by
    refine eq_of_byteLength_eq ⟨_, ht'.symm⟩ ⟨behind, by rw [List.append_assoc]; exact ht.symm⟩ ?_
    rw [hspan, hspan'] at heq
    rw [byteLength_append]
    exact heq.symm
  have hlast : before'.getLast? = some (w.getLast hne) := by
    rw [hfront, List.getLast?_append, List.getLast?_eq_some_getLast hne]
    rfl
  have hnot := hbefore' _ hlast
  rw [hw _ (List.getLast_mem hne)] at hnot
  cases hnot

end Text
end ExactCalculator
