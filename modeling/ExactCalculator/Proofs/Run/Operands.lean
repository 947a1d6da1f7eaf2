import ExactCalculator.Proofs.Places
import ExactCalculator.Proofs.Run.Forest
import Mathlib.Data.List.Flatten

/-!
The operands of a run as values in a text. They were computed from trees whose literals are the
numbers read, block by block (`Bench.Grown`). So a fold takes neighbours, although it takes the two
newest operands whatever they are; the operands lie one behind the other, and each is worth what its
tree is (`State.forest_of_readAll`), also in texts that are no expressions.
-/
namespace ExactCalculator

namespace Expression

/-- A tree has one application fewer than literals. -/
theorem length_operations_add_one (e : Expression) : e.operations.length + 1 = e.leaves.length := by
  induction e with
  | literal t offset => rfl
  | binary op offset left right ihl ihr =>
    simp only [operations, leaves, List.length_append, List.length_singleton]
    omega

/-- The literals of a part of a tree stand together among those of the tree, and so do its
applications. -/
theorem infix_of_mem_operations {e part : Expression} (h : part ∈ e.operations) :
    part.leaves <:+: e.leaves ∧ part.operations <:+: e.operations := by
  induction e with
  | literal t offset => cases h
  | binary op offset left right ihl ihr =>
    rw [operations, List.mem_append, List.mem_append, List.mem_singleton] at h
    obtain (hleft | hright) | rfl := h
    · have hfront : left.operations <+: (binary op offset left right).operations :=
        (List.prefix_append _ _).trans (List.prefix_append _ _)
      obtain ⟨hleaves, hoperations⟩ := ihl hleft
      exact ⟨hleaves.trans (List.prefix_append _ _).isInfix, hoperations.trans hfront.isInfix⟩
    · have hmiddle : right.operations <:+: (binary op offset left right).operations :=
        ⟨left.operations, _, rfl⟩
      obtain ⟨hleaves, hoperations⟩ := ihr hright
      exact ⟨hleaves.trans (List.suffix_append _ _).isInfix, hoperations.trans hmiddle⟩
    · exact ⟨List.infix_rfl, List.infix_rfl⟩

/-- A tree whose literals all stand in front of those of another ends before that one begins. -/
theorem stop_lt_start {left right : Expression}
    (h : ∀ i ∈ left.leaves, ∀ j ∈ right.leaves, i.span.stop < j.span.start) :
    left.span.stop < right.span.start := by
  obtain ⟨_, -, last, hlast, hl⟩ := left.span_eq_of_leaves
  obtain ⟨first, hfirst, _, -, hr⟩ := right.span_eq_of_leaves
  rw [hl, hr]
  exact h last (List.mem_of_getLast? hlast) first (List.mem_of_head? hfirst)

end Expression

/-- Items of at least one byte, each with something between it and the next one. -/
structure Apart (items : List Item) : Prop where
  bytes : ∀ i ∈ items, i.span.start < i.span.stop
  between : items.Pairwise fun i j => i.span.stop < j.span.start

theorem Apart.sublist {items more : List Item} (h : Apart more) (hitems : items.Sublist more) :
    Apart items :=
  ⟨fun i hi => h.bytes i (hitems.subset hi), h.between.sublist hitems⟩

theorem Text.apart_numbers (t : Text) : Apart t.numbers :=
  ⟨fun _ hi => span_start_lt_stop (List.mem_of_mem_filter hi), t.numbers_pairwise⟩

namespace Expression

variable {e left right : Expression}

/-- The left operand ends before the right one begins. -/
theorem left_before_right (h : Apart (left.leaves ++ right.leaves)) :
    left.span.stop < right.span.start :=
  stop_lt_start (List.pairwise_append.mp h.between).2.2

theorem start_lt_stop (h : Apart e.leaves) : e.span.start < e.span.stop := by
  induction e with
  | literal t offset => exact h.bytes _ (List.mem_singleton.mpr rfl)
  | binary op offset left right ihl ihr =>
    have hleft := ihl (h.sublist (List.sublist_append_left _ _))
    have hright := ihr (h.sublist (List.sublist_append_right _ _))
    exact (hleft.trans (left_before_right h)).trans hright

end Expression

/-- What there is to say of an operand that came of a tree of applications. -/
structure Operand.ResultsFrom (x : Operand) (e : Expression) : Prop where
  value : e.decimal = .ok x.value
  /-- From the first literal of the tree to the last, so there is one. -/
  span : ∃ first ∈ e.leaves.head?, ∃ last ∈ e.leaves.getLast?, x.span = first.span.join last.span
  bytes : x.span.start < x.span.stop
  applications : e.operations.length + 1 = e.leaves.length
  /-- At every operator the literals of the left operand stand before those of the right one. -/
  sides : ∀ op offset left right, .binary op offset left right ∈ e.operations →
    ∀ i ∈ left.leaves, ∀ j ∈ right.leaves, i.span.stop < j.span.start

theorem Computed.resultsFrom {e : Expression} {x : Operand} (h : Computed e x)
    (he : Apart e.leaves) : x.ResultsFrom e := by
  refine ⟨h.holds.decimal, ?_, ?_, e.length_operations_add_one, ?_⟩
  · rw [h.span]
    exact e.span_eq_of_leaves
  · rw [h.span]
    exact e.start_lt_stop he
  · intro op offset left right hpart
    have hsides := he.sublist (Expression.infix_of_mem_operations hpart).1.sublist
    exact (List.pairwise_append.mp hsides.between).2.2

/-- The trees that the operands of a state came of, the oldest first. -/
structure State.Forest (items : List Item) (s : State) (forest : List Expression) : Prop where
  operands : List.Forall₂ Operand.ResultsFrom s.bench.operands.reverse forest
  /-- Tree by tree, the literals are the numbers that were read. -/
  blocks : forest.flatMap Expression.leaves = items.filter Item.isNumber
  /-- Tree by tree, the applications are those that were made. -/
  folds : List.Forall₂ Fold.Applies s.bench.folds.reverse (forest.flatMap Expression.operations)
  spans : s.bench.operands.reverse.Pairwise fun x y => x.span.stop < y.span.start

namespace Bench

variable {b : Bench} {forest : List Expression} {numbers : List Item}

/-- The literals of one tree, and its applications, are among those of all. -/
theorem Grown.sublist_of_mem (hb : b.Grown forest numbers) {e : Expression} (he : e ∈ forest) :
    e.leaves.Sublist numbers ∧
      e.operations.Sublist (forest.reverse.flatMap Expression.operations) := by
  have hblock {α : Type} (f : Expression → List α) : (f e).Sublist (forest.reverse.flatMap f) := by
    have hsublist := (List.singleton_sublist.mpr (List.mem_reverse.mpr he)).flatMap f
    rwa [List.flatMap_singleton] at hsublist
  rw [← hb.leaves]
  exact ⟨hblock _, hblock _⟩

/-- The trees of a bench stand one behind the other, and so do the literals of each. -/
theorem Grown.apart (hb : b.Grown forest numbers) (h : Apart numbers) :
    (∀ e ∈ forest, Apart e.leaves) ∧
      forest.reverse.Pairwise fun e f => e.span.stop < f.span.start := by
  constructor
  · intro e he
    exact h.sublist (hb.sublist_of_mem he).1
  · rw [← hb.leaves] at h
    exact (List.pairwise_flatMap.mp h.between).2.imp Expression.stop_lt_start

/-- The operands lie where their trees do. -/
theorem Grown.map_span (hb : b.Grown forest numbers) :
    b.operands.map Operand.span = forest.map Expression.span := by
  have hspans : List.Forall₂ (· = ·) (b.operands.map Operand.span)
      (forest.map Expression.span) := by
    rw [List.forall₂_map_left_iff, List.forall₂_map_right_iff]
    exact (hb.computed.imp fun _ _ he => he.span).flip
  rwa [List.forall₂_eq_eq_eq] at hspans

theorem Grown.resultsFrom (hb : b.Grown forest numbers) (h : Apart numbers) :
    List.Forall₂ Operand.ResultsFrom b.operands forest := by
  have hboth := (List.forall₂_and_left _ _).mpr ⟨(hb.apart h).1, hb.computed⟩
  exact (hboth.imp fun _ _ he => he.2.resultsFrom he.1).flip

end Bench

/-- Whatever is read of a text without a fault, also if faulty items are left out, the operands are
the values of trees of applications, and these trees take the numbers block by block. -/
theorem State.forest_of_readAll {t : Text} {items : List Item} {s : State}
    (hitems : items.Sublist t.items) (h : start.readAll items = .ok s) :
    ∃ forest, s.Forest items forest := by
  obtain ⟨forest, hb⟩ := grown_invariant.readAll h
  have hnumbers := t.apart_numbers.sublist (hitems.filter _)
  refine ⟨forest.reverse, ?_, hb.leaves, hb.operations, ?_⟩
  · exact List.forall₂_reverse_iff.mpr (hb.resultsFrom hnumbers)
  · have hspans := (hb.apart hnumbers).2
    rw [← List.pairwise_map (f := Expression.span) (R := fun a b => a.stop < b.start),
      List.map_reverse, ← hb.map_span, ← List.map_reverse, List.pairwise_map] at hspans
    exact hspans

/-- Of `2 3 + 4 (5 * 6 -`, which is no expression, four operands are left, the last of two
numbers. -/
theorem State.forest_of_readAll_instances :
    ∃ s, start.readAll (Text.items "2 3+4(5*6-".toList) = .ok s ∧
      s.bench.operands = [⟨⟨30, 0⟩, ⟨6, 9⟩⟩, ⟨⟨4, 0⟩, ⟨4, 5⟩⟩, ⟨⟨3, 0⟩, ⟨2, 3⟩⟩, ⟨⟨2, 0⟩, ⟨0, 1⟩⟩] ∧
      ∃ forest, s.Forest (Text.items "2 3+4(5*6-".toList) forest := by
  have hread : start.readAll (Text.items "2 3+4(5*6-".toList) =
      .ok ⟨[.operator .minus 9, .paren 5, .operator .plus 3],
        ⟨[⟨⟨30, 0⟩, ⟨6, 9⟩⟩, ⟨⟨4, 0⟩, ⟨4, 5⟩⟩, ⟨⟨3, 0⟩, ⟨2, 3⟩⟩, ⟨⟨2, 0⟩, ⟨0, 1⟩⟩],
          [⟨.star, 7, ⟨⟨5, 0⟩, ⟨6, 7⟩⟩, ⟨⟨6, 0⟩, ⟨8, 9⟩⟩⟩]⟩⟩ := by
    decide +kernel
  exact ⟨_, hread, rfl, forest_of_readAll (List.Sublist.refl _) hread⟩

end ExactCalculator
