import ExactCalculator.Proofs.Run.Operands
import ExactCalculator.Proofs.Run.Tally

/-!
What the scales of a tree are charged to: the places of its literals, and its divisions, each with
the places of a quotient (`Expression.scale_le`). The places are those of the numbers in the range
of the tree, and the divisions those applied in it (`placesOf_leaves_le`,
`Bench.Grown.divisors_le`). In a text every place and every operator has a byte of its own
(`Text.places_add_operators_le`), so a tree that is made of no more than the text has comes to no
scale above four times its bytes (`Expression.Within.scale_le`).
-/
namespace ExactCalculator

/-- The number of digits behind the point in all of these numbers together. -/
def placesOf (items : List Item) : Nat := (items.flatMap fun i => i.text.places).length

@[simp] theorem placesOf_nil : placesOf [] = 0 := rfl
@[simp] theorem placesOf_append (items more : List Item) :
    placesOf (items ++ more) = placesOf items + placesOf more := by
  rw [placesOf, List.flatMap_append, List.length_append, placesOf, placesOf]
@[simp] theorem placesOf_singleton (i : Item) : placesOf [i] = i.text.places.length := by
  rw [placesOf, List.flatMap_singleton]

theorem placesOf_le {items more : List Item} (h : items.Sublist more) :
    placesOf items ≤ placesOf more :=
  (h.flatMap _).length_le

/-- Only a division adds to the scales of its operands. -/
theorem Operator.scale_apply_le {op : Operator} {a b d : Decimal} (h : op.apply a b = .ok d) :
    d.scale ≤ a.scale + b.scale + if op = .slash then divisionScale else 0 := by
  cases op with
  | plus =>
    cases h
    rw [Decimal.scale_add]
    omega
  | minus =>
    cases h
    rw [Decimal.scale_sub]
    omega
  | star =>
    cases h
    exact Nat.le_refl _
  | slash =>
    simp only [apply] at h
    split at h
    next q hq =>
      cases h
      rw [Decimal.scale_of_divRounded? hq, if_pos rfl]
      omega
    next => cases h

namespace Expression

/-- A scale is charged to the places of the literals and to the divisions. -/
theorem scale_le {e : Expression} {d : Decimal} (h : e.decimal = .ok d) :
    d.scale ≤ placesOf e.leaves + divisionScale * e.divisors.length := by
  induction e generalizing d with
  | literal t offset =>
    cases h
    rw [leaves, placesOf_singleton]
    exact Nat.le_add_right _ _
  | binary op offset left right ihl ihr =>
    obtain ⟨a, ha, hright⟩ := bind_eq_ok.mp h
    obtain ⟨b, hb, happly⟩ := bind_eq_ok.mp hright
    have hl := ihl ha
    have hr := ihr hb
    have hd := Operator.scale_apply_le happly
    have hroot : divisionScale * (if op = .slash then [right] else []).length =
        if op = .slash then divisionScale else 0 := by
      split <;> simp
    rw [leaves, divisors, placesOf_append, List.length_append, List.length_append, Nat.mul_add,
      Nat.mul_add]
    omega

/-- A division is an application, so each application may be charged as one. -/
theorem scale_le_of_operations {e : Expression} {d : Decimal} (h : e.decimal = .ok d) :
    d.scale ≤ placesOf e.leaves + divisionScale * e.operations.length := by
  have hlength : e.divisors.length ≤ e.operations.length := by
    rw [divisors_eq]
    exact List.length_filterMap_le _ _
  have hscale := scale_le h
  have hdivisors := Nat.mul_le_mul_left divisionScale hlength
  omega

end Expression

def Span.encloses (outer inner : Span) : Bool :=
  outer.start ≤ inner.start ∧ inner.stop ≤ outer.stop

theorem Span.encloses_iff {outer inner : Span} :
    outer.encloses inner = true ↔ outer.start ≤ inner.start ∧ inner.stop ≤ outer.stop := by
  rw [encloses, decide_eq_true_iff]

/-- From the left operand to the right one. -/
def Fold.span (f : Fold) : Span := f.left.span.join f.right.span

/-- The number of digits behind the point in the numbers of a range. -/
def Text.placesIn (t : Text) (s : Span) : Nat :=
  placesOf (t.numbers.filter fun i => s.encloses i.span)

def Fold.isDivisionIn (s : Span) (f : Fold) : Bool := f.op = .slash && s.encloses f.span

def Bench.divisionsIn (b : Bench) (s : Span) : Nat := (b.folds.filter (Fold.isDivisionIn s)).length

namespace Expression

def isDivisionIn (s : Span) (e : Expression) : Bool := e.divisor?.isSome && s.encloses e.span

/-- The literals of a tree lie inside of its range. -/
theorem encloses_of_mem_leaves {e : Expression} (h : Apart e.leaves) {i : Item}
    (hi : i ∈ e.leaves) : e.span.encloses i.span = true := by
  rw [Span.encloses_iff]
  induction e with
  | literal t offset =>
    cases List.mem_singleton.mp hi
    exact ⟨Nat.le_refl _, Nat.le_refl _⟩
  | binary op offset left right ihl ihr =>
    have hleft := h.sublist (List.sublist_append_left _ _)
    have hright := h.sublist (List.sublist_append_right _ _)
    have hbetween := left_before_right h
    have hlefts := left.start_lt_stop hleft
    have hrights := right.start_lt_stop hright
    change left.span.start ≤ _ ∧ _ ≤ right.span.stop
    obtain hi | hi := List.mem_append.mp hi
    · have := ihl hleft hi
      omega
    · have := ihr hright hi
      omega

/-- So do its parts. -/
theorem encloses_of_mem_operations {e part : Expression} (h : Apart e.leaves)
    (hpart : part ∈ e.operations) : e.span.encloses part.span = true := by
  have hsubset := (infix_of_mem_operations hpart).1.subset
  obtain ⟨first, hfirst, last, hlast, hspan⟩ := part.span_eq_of_leaves
  have hstart := encloses_of_mem_leaves h (hsubset (List.mem_of_head? hfirst))
  have hstop := encloses_of_mem_leaves h (hsubset (List.mem_of_getLast? hlast))
  rw [Span.encloses_iff] at hstart hstop ⊢
  rw [hspan]
  exact ⟨hstart.1, hstop.2⟩

/-- The literals of a tree are among the numbers in its range. -/
theorem placesOf_leaves_le {e : Expression} {t : Text} (h : e.leaves.Sublist t.numbers) :
    placesOf e.leaves ≤ t.placesIn e.span := by
  refine placesOf_le ?_
  have hfilter := h.filter fun i => e.span.encloses i.span
  rwa [List.filter_eq_self.mpr fun i hi =>
    encloses_of_mem_leaves (t.apart_numbers.sublist h) hi] at hfilter

/-- The divisions of a tree are those of its parts, which all lie inside of its range. -/
theorem length_divisors_eq {e : Expression} (h : Apart e.leaves) :
    e.divisors.length = (e.operations.filter (isDivisionIn e.span)).length := by
  rw [divisors_eq, List.length_filterMap_eq_countP, List.countP_eq_length_filter]
  congr 1
  refine List.filter_congr fun part hpart => ?_
  rw [isDivisionIn, encloses_of_mem_operations h hpart, Bool.and_true]

end Expression

theorem Fold.Applies.isDivisionIn_eq {f : Fold} {e : Expression} (h : f.Applies e) (s : Span) :
    f.isDivisionIn s = e.isDivisionIn s := by
  cases h with
  | @root x y left right hx hy op offset =>
    have hspan : (Fold.mk op offset x y).span = (Expression.binary op offset left right).span := by
      rw [span, hx.span, hy.span, Expression.span]
    rw [isDivisionIn, hspan, Expression.isDivisionIn]
    cases op <;> rfl

/-- The divisions of a tree were applied in its range. -/
theorem Bench.Grown.divisors_le {b : Bench} {forest : List Expression} {numbers : List Item}
    (hb : b.Grown forest numbers) {e : Expression} (he : e ∈ forest) (h : Apart e.leaves) :
    e.divisors.length ≤ b.divisionsIn e.span := by
  have hfolds : List.Forall₂ Fold.Applies (b.folds.reverse.filter (Fold.isDivisionIn e.span))
      ((forest.reverse.flatMap Expression.operations).filter (Expression.isDivisionIn e.span)) :=
    List.rel_filter (fun _ _ hf => iff_of_eq (congrArg (· = true) (hf.isDivisionIn_eq _)))
      hb.operations
  calc e.divisors.length
      = (e.operations.filter (Expression.isDivisionIn e.span)).length :=
        Expression.length_divisors_eq h
    _ ≤ ((forest.reverse.flatMap Expression.operations).filter
          (Expression.isDivisionIn e.span)).length :=
        ((hb.sublist_of_mem he).2.filter _).length_le
    _ = (b.folds.reverse.filter (Fold.isDivisionIn e.span)).length := hfolds.length_eq.symm
    _ = b.divisionsIn e.span := by rw [List.filter_reverse, List.length_reverse, divisionsIn]

/-- Of two lists in a relation each element of the first one has a partner. -/
theorem exists_of_mem_forall₂ {α β : Type} {R : α → β → Prop} {as : List α} {bs : List β}
    (h : List.Forall₂ R as bs) {a : α} (ha : a ∈ as) : ∃ b ∈ bs, R a b := by
  induction h with
  | nil => cases ha
  | cons hab hrest ih =>
    obtain rfl | ha := List.mem_cons.mp ha
    · exact ⟨_, List.mem_cons_self, hab⟩
    · obtain ⟨b, hb, hab⟩ := ih ha
      exact ⟨b, List.mem_cons_of_mem _ hb, hab⟩

namespace Text

theorem length_le_byteLength (t : Text) : t.length ≤ byteLength t := by
  induction t with
  | nil => exact Nat.le_refl _
  | cons c t ih =>
    have := c.utf8Size_pos
    rw [List.length_cons, byteLength_cons]
    omega

theorem length_places_le (t : Text) : t.places.length ≤ byteLength t := by
  have hdrop := (List.dropWhile_sublist (· != '.') (l := t)).length_le
  have hlength := t.length_le_byteLength
  rw [places, List.length_drop]
  omega

end Text

/-- No number token is an operator token. -/
theorem Item.isOperator_of_isNumber {i : Item} (h : i.isNumber = true) : i.isOperator = false := by
  unfold isNumber at h
  unfold isOperator
  split at h
  next htoken => rw [htoken]
  next => cases h

/-- An item of a text has a byte for each place of its number, or one for its operator. -/
theorem Item.places_add_operator_le {i : Item} (h : i.text ≠ []) :
    placesOf ([i].filter isNumber) + ([i].filter isOperator).length ≤ Text.byteLength i.text := by
  by_cases hnumber : i.isNumber = true
  · have hoperator := isOperator_of_isNumber hnumber
    simpa [hnumber, hoperator] using i.text.length_places_le
  · have hlength := i.text.length_le_byteLength
    have hpos := List.length_pos_of_ne_nil h
    have hone := List.length_filter_le isOperator [i]
    rw [List.filter_cons_of_neg hnumber, List.filter_nil, placesOf_nil]
    rw [List.length_singleton] at hone
    omega

namespace Text

/-- An item and what follows it. -/
theorem places_add_operators_cons_le {i : Item} {items : List Item} {t : Text} (h : i.text ≠ [])
    (ht : placesOf (items.filter Item.isNumber) + (items.filter Item.isOperator).length ≤
      byteLength t) :
    placesOf ((i :: items).filter Item.isNumber) + ((i :: items).filter Item.isOperator).length ≤
      byteLength (i.text ++ t) := by
  have hi := i.places_add_operator_le h
  rw [← List.singleton_append, List.filter_append, List.filter_append, placesOf_append,
    List.length_append, byteLength_append]
  omega

/-- Every place and every operator of a text has a byte of its own. -/
theorem places_add_operators_le (t : Text) :
    placesOf t.numbers + t.operators.length ≤ byteLength t := by
  have hall (offset : Nat) : placesOf ((itemsAt offset t).filter Item.isNumber) +
      ((itemsAt offset t).filter Item.isOperator).length ≤ byteLength t := by
    induction t using scanInduction generalizing offset with
    | nil => simp
    | space t ih =>
      rw [itemsAt_space, byteLength_cons]
      exact (ih _).trans (Nat.le_add_left _ _)
    | mark c t hc hn ih =>
      rw [itemsAt_mark hc hn]
      exact places_add_operators_cons_le (List.cons_ne_nil _ _) (ih _)
    | run w t hne hw ht ih =>
      rw [itemsAt_run hne hw ht]
      exact places_add_operators_cons_le hne (ih _)
  exact hall 0

end Text

/-- A tree over numbers of a text, with no more applications than the text has operators. -/
structure Expression.Within (e : Expression) (t : Text) : Prop where
  leaves : e.leaves.Sublist t.numbers
  operations : e.operations.length ≤ t.operators.length

/-- An application to operands that were computed within a text. -/
def Fold.Within (f : Fold) (t : Text) : Prop := ∃ e : Expression, f.Applies e ∧ e.Within t

section

variable {t : Text} {e part : Expression} {f : Fold}

theorem Expression.Within.of_mem_operations (h : e.Within t) (hpart : part ∈ e.operations) :
    part.Within t := by
  obtain ⟨hleaves, hoperations⟩ := Expression.infix_of_mem_operations hpart
  exact ⟨hleaves.sublist.trans h.leaves, hoperations.length_le.trans h.operations⟩

/-- What a tree within a text can be charged. -/
theorem Expression.Within.charge_le (h : e.Within t) :
    placesOf e.leaves + divisionScale * e.operations.length ≤ 4 * Text.byteLength t := by
  have hplaces := placesOf_le h.leaves
  have hoperations := h.operations
  have hbytes := t.places_add_operators_le
  have hscale : divisionScale = 4 := rfl
  rw [hscale]
  omega

/-- Every scale that a tree within a text comes to. -/
theorem Expression.Within.scale_le (h : e.Within t) {d : Decimal} (hd : e.decimal = .ok d) :
    d.scale ≤ 4 * Text.byteLength t :=
  (Expression.scale_le_of_operations hd).trans h.charge_le

/-- The operator of an application has a byte of its own, to which a quotient's places are
charged. -/
theorem Fold.Within.scales_le (h : f.Within t) :
    f.left.value.scale + f.right.value.scale + divisionScale ≤ 4 * Text.byteLength t := by
  obtain ⟨e, happlies, hwithin⟩ := h
  cases happlies with
  | @root x y left right hx hy op offset =>
    have hl := Expression.scale_le_of_operations hx.decimal
    have hr := Expression.scale_le_of_operations hy.decimal
    have hcharge := hwithin.charge_le
    rw [Expression.leaves, Expression.operations, placesOf_append, List.length_append,
      List.length_append, List.length_singleton, Nat.mul_add, Nat.mul_add, Nat.mul_one] at hcharge
    dsimp only
    omega

end

end ExactCalculator
