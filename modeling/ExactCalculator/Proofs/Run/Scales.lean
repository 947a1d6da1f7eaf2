import ExactCalculator.Proofs.Decimal.PlaceCount
import ExactCalculator.Proofs.Run.Charges

/-!
How large scales get in a run. The operands of every state were computed from trees within the text,
and so were those of every application, also of one that fails (`Text.within_of_mem_folds`). So the
scales, and the sums and exponents that the arithmetic makes of them, are at most four times as
large as the text has bytes, and arithmetic within a limit above that never fails
(`Text.scales_bounded`).
-/
namespace ExactCalculator

namespace State

def Accounted (items : List Item) (s : State) : Prop :=
  (∃ forest, s.bench.Grown forest (items.filter Item.isNumber)) ∧ s.Tallies items

theorem accounted_invariant : Invariant Accounted := grown_invariant.and tallies_invariant

variable {t : Text} {items : List Item} {s : State} {forest : List Expression}

/-- The trees of a state are within the text. -/
theorem within_of_mem (hitems : items <+: t.items)
    (hb : s.bench.Grown forest (items.filter Item.isNumber)) (hs : s.Tallies items)
    {e : Expression} (he : e ∈ forest) : e.Within t := by
  obtain ⟨hleaves, hoperations⟩ := hb.sublist_of_mem he
  refine ⟨hleaves.trans (hitems.sublist.filter _), ?_⟩
  have hfolds := hb.operations.length_eq
  have hoperators := (hs.subperm.trans (filter_subperm_operators hitems)).length_le
  rw [List.length_reverse] at hfolds
  rw [List.length_map] at hoperators
  exact (hoperations.length_le.trans_eq hfolds.symm).trans hoperators

/-- So is every application made so far. -/
theorem Accounted.within_of_mem_folds (hs : s.Accounted items) (hitems : items <+: t.items)
    {f : Fold} (hf : f ∈ s.bench.folds) : f.Within t := by
  obtain ⟨⟨forest, hb⟩, hs⟩ := hs
  obtain ⟨part, hpart, happlies⟩ := exists_of_mem_forall₂ hb.operations (List.mem_reverse.mpr hf)
  obtain ⟨e, he, hpart⟩ := List.mem_flatMap.mp hpart
  have hwithin := within_of_mem hitems hb hs (List.mem_reverse.mp he)
  exact ⟨part, happlies, hwithin.of_mem_operations hpart⟩

/-- So is an application of the operator on top, whether it succeeds or not. -/
theorem Accounted.within_of_operands {op : Operator} {offset : Nat} {below : List Pending}
    {b : Bench} (hs : Accounted items ⟨.operator op offset :: below, b⟩)
    (hitems : items <+: t.items) {right left : Operand} {rest : List Operand}
    (hoperands : b.operands = right :: left :: rest) : (Fold.mk op offset left right).Within t := by
  -- The tree of an application that fails is on no bench, so it is put together of the two newest.
  obtain ⟨⟨forest, hcomputed, hleaves, hoperations⟩, hs⟩ := hs
  dsimp only at hcomputed hleaves hoperations
  rw [hoperands] at hcomputed
  cases hcomputed with
  | @cons r _ _ _ hr hrest =>
    cases hrest with
    | @cons l _ lower _ hl hrest =>
      have hfolds := hoperations.length_eq
      have hoperators := (hs.subperm_operator.trans (filter_subperm_operators hitems)).length_le
      simp only [List.reverse_cons, List.flatMap_append, List.flatMap_singleton,
        List.append_assoc] at hleaves
      simp only [List.reverse_cons, List.flatMap_append, List.flatMap_singleton,
        List.length_append, List.length_reverse] at hfolds
      rw [List.length_cons, List.length_map] at hoperators
      refine ⟨_, .root hl.holds hr.holds op offset, ?_, ?_⟩
      · refine List.Sublist.trans ?_ (hitems.sublist.filter _)
        rw [← hleaves]
        exact List.sublist_append_right _ _
      · rw [Expression.operations, List.length_append, List.length_append, List.length_singleton]
        omega

/-- A run that halts has applied nothing else, its last application included. -/
theorem Halts.within_of_mem_folds {halt : Halt} (h : Halts Accounted t halt) {f : Fold}
    (hf : f ∈ halt.folds) : f.Within t := by
  cases h with
  | item hitems hs => exact hs.within_of_mem_folds ⟨_, hitems.symm⟩ hf
  | @fold items op offset below b halt hitems hs hfold =>
    obtain ⟨right, left, rest, hoperands, -, rfl⟩ | rfl := Bench.fold_eq_error hfold
    · obtain rfl | hf := List.mem_cons.mp hf
      · exact hs.within_of_operands hitems hoperands
      · exact hs.within_of_mem_folds hitems hf
    · exact hs.within_of_mem_folds hitems hf
  | closing hitems hs => exact hs.within_of_mem_folds ⟨_, hitems.symm⟩ hf
  | opening hs => exact hs.within_of_mem_folds List.prefix_rfl hf

end State

namespace Text

variable {t : Text}

/-- Every application of a run is within the text. -/
theorem within_of_mem_folds {f : Fold} (hf : f ∈ t.run.folds) : f.Within t := by
  rw [folds_run_eq] at hf
  cases hrun : t.state >>= State.finish with
  | error halt =>
    rw [hrun] at hf
    exact (State.accounted_invariant.halts hrun).within_of_mem_folds (List.mem_reverse.mp hf)
  | ok bench =>
    rw [hrun] at hf
    have hs := State.accounted_invariant.finish hrun
    exact hs.within_of_mem_folds List.prefix_rfl (List.mem_reverse.mp hf)

/-- All scales, exponents and counts of places that come up in evaluating a text are below a
limit. -/
structure StaysBelow (t : Text) (limit : Nat) : Prop where
  /-- In reading any run of digits and points, be it a literal or not. -/
  literals : ∀ w offset, ⟨.run w, offset⟩ ∈ t.items →
    Decimal.ofLiteralBelow? limit w = some (Decimal.ofLiteral w)
  /-- In every application, also in one that fails. -/
  folds : ∀ f ∈ t.run.folds, f.op.applyBelow? limit f.left.value f.right.value =
    some (f.op.apply f.left.value f.right.value)
  /-- In every state, and in the normal form of a value. -/
  operands : ∀ items s, State.Visited t items s → ∀ x ∈ s.bench.operands,
    x.value.scale < limit ∧ x.value.normalizedBelow? limit = some x.value.normalized

end Text

namespace State

variable {t : Text} {items : List Item} {s : State}

/-- The scale of an operand is charged to its range in the text. -/
theorem Visited.scale_le (h : Visited t items s) {x : Operand} (hx : x ∈ s.bench.operands) :
    x.value.scale ≤ t.placesIn x.span + divisionScale * s.bench.divisionsIn x.span := by
  obtain ⟨⟨forest, hb⟩, hs⟩ := accounted_invariant.visited h
  obtain ⟨e, he, hcomputed⟩ := exists_of_mem_forall₂ hb.computed.flip hx
  have hleaves := (within_of_mem h.read_of_text hb hs he).leaves
  have hscale := e.scale_le hcomputed.holds.decimal
  have hplaces := Expression.placesOf_leaves_le hleaves
  have hdivisions := Nat.mul_le_mul_left divisionScale
    (hb.divisors_le he (t.apart_numbers.sublist hleaves))
  rw [hcomputed.span]
  omega

theorem Visited.scale_le_byteLength (h : Visited t items s) {x : Operand}
    (hx : x ∈ s.bench.operands) : x.value.scale ≤ 4 * Text.byteLength t := by
  obtain ⟨⟨forest, hb⟩, hs⟩ := accounted_invariant.visited h
  obtain ⟨e, he, hcomputed⟩ := exists_of_mem_forall₂ hb.computed.flip hx
  exact (within_of_mem h.read_of_text hb hs he).scale_le hcomputed.holds.decimal

end State

namespace Text

variable {t : Text}

theorem staysBelow_of_lt {limit : Nat} (h : 4 * byteLength t < limit) : t.StaysBelow limit := by
  refine ⟨fun w offset hw => ?_, fun f hf => ?_, fun items s hs x hx => ?_⟩
  · obtain ⟨before, behind, ht, -⟩ := mem_items hw
    have hlength := length_le_byteLength w
    have hbytes := congrArg byteLength ht
    rw [byteLength_append, byteLength_append] at hbytes
    change byteLength t = byteLength before + (byteLength w + byteLength behind) at hbytes
    exact Decimal.ofLiteralBelow?_eq (by omega)
  · have hscales := (within_of_mem_folds hf).scales_le
    exact Operator.applyBelow?_eq (by omega) f.op
  · have hscale := hs.scale_le_byteLength hx
    exact ⟨by omega, Decimal.normalizedBelow?_eq (by omega)⟩

/-- In every state of a run the scale of an operand is at most the number of places in its range,
and four for every division in it. All scales, exponents and counts stay below any limit above four
times the bytes of the text: below `2 ^ 32` in a text of less than `2 ^ 30` bytes. -/
theorem scales_bounded (t : Text) :
    (∀ items s, State.Visited t items s → ∀ x ∈ s.bench.operands,
      x.value.scale ≤ t.placesIn x.span + 4 * s.bench.divisionsIn x.span) ∧
    (∀ limit, 4 * byteLength t < limit → t.StaysBelow limit) ∧
    (byteLength t < 2 ^ 30 → t.StaysBelow (2 ^ 32)) := by
  refine ⟨fun items s hs x hx => hs.scale_le hx, fun limit h => staysBelow_of_lt h, fun h => ?_⟩
  exact staysBelow_of_lt (by omega)

/-- The one operand that `1/2*(1/3)` comes to has all the scale that two divisions can give, and the
text stays below 37, one more than four times its bytes. -/
theorem scales_bounded_instances :
    (∃ items s x, State.Visited "1/2*(1/3)".toList items s ∧ s.bench.operands = [x] ∧
      x.value.scale = 8 ∧ s.bench.divisionsIn x.span = 2 ∧
      x.value.scale ≤ placesIn "1/2*(1/3)".toList x.span + 4 * s.bench.divisionsIn x.span) ∧
    StaysBelow "1/2*(1/3)".toList 37 ∧ StaysBelow "1/2*(1/3)".toList (2 ^ 32) := by
  have hread : State.start.readAll (items "1/2*(1/3)".toList) =
      .ok ⟨[.operator .star 3], ⟨[⟨⟨3333, 4⟩, ⟨5, 8⟩⟩, ⟨⟨5000, 4⟩, ⟨0, 3⟩⟩],
        [⟨.slash, 6, ⟨⟨1, 0⟩, ⟨5, 6⟩⟩, ⟨⟨3, 0⟩, ⟨7, 8⟩⟩⟩,
          ⟨.slash, 1, ⟨⟨1, 0⟩, ⟨0, 1⟩⟩, ⟨⟨2, 0⟩, ⟨2, 3⟩⟩⟩]⟩⟩ := by
    decide +kernel
  have happly : Operator.star.apply ⟨5000, 4⟩ ⟨3333, 4⟩ = .ok ⟨16665000, 8⟩ := by decide +kernel
  have hvisited := State.Visited.fold (.read List.prefix_rfl hread)
    (Bench.fold_of_apply_ok happly 3 [] _)
  refine ⟨⟨_, _, _, hvisited, rfl, rfl, by decide +kernel, ?_⟩, ?_, ?_⟩
  · exact (scales_bounded _).1 _ _ hvisited _ (List.mem_singleton.mpr rfl)
  · exact (scales_bounded _).2.1 37 (by decide +kernel)
  · exact (scales_bounded _).2.2 (by decide +kernel)

end Text
end ExactCalculator
