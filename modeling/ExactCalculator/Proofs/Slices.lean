import ExactCalculator.Span

/-!
The text under a range of bytes. There is one only when the range lies inside of the text and
neither of its ends falls into a character; then the text is cut at both ends into three parts
(`slice?_eq_some_iff`), and the middle one is determined by the range alone.
-/
namespace ExactCalculator.Text

/-- What stands in front of a byte position and what behind, unless a character lies across it. -/
def splitAtByte? : Nat → Text → Option (Text × Text)
  | 0, t => some ([], t)
  | _ + 1, [] => none
  | n + 1, c :: t =>
    if c.utf8Size ≤ n + 1 then
      (splitAtByte? (n + 1 - c.utf8Size) t).map fun (before, behind) => (c :: before, behind)
    else none

/-- The text under a range, if both of its ends lie between characters. -/
def slice? (t : Text) (s : Span) : Option Text :=
  match splitAtByte? s.stop t with
  | none => none
  | some (before, _) => (splitAtByte? s.start before).map Prod.snd

@[simp] theorem splitAtByte?_zero (t : Text) : splitAtByte? 0 t = some ([], t) := by
  cases t <;> rfl

theorem splitAtByte?_cons (c : Char) (t : Text) (n : Nat) :
    splitAtByte? (c.utf8Size + n) (c :: t) =
      (splitAtByte? n t).map fun (before, behind) => (c :: before, behind) := by
  have hpos := c.utf8Size_pos
  obtain ⟨m, hm⟩ : ∃ m, c.utf8Size + n = m + 1 := ⟨c.utf8Size + n - 1, by omega⟩
  rw [hm, splitAtByte?, if_pos (by omega), ← hm, Nat.add_sub_cancel_left]

/-- A cut is made exactly where the first part ends. -/
theorem splitAtByte?_eq_some_iff {n : Nat} {t before behind : Text} :
    splitAtByte? n t = some (before, behind) ↔ t = before ++ behind ∧ byteLength before = n := by
  constructor
  · intro h
    induction t generalizing n before with
    | nil =>
      cases n with
      | zero =>
        cases h
        exact ⟨rfl, rfl⟩
      | succ n => cases h
    | cons c t ih =>
      cases n with
      | zero =>
        cases h
        exact ⟨rfl, rfl⟩
      | succ n =>
        rw [splitAtByte?] at h
        split at h
        next hsize =>
          obtain ⟨⟨first, rest⟩, hsplit, hcons⟩ := Option.map_eq_some_iff.mp h
          cases hcons
          obtain ⟨rfl, hlength⟩ := ih hsplit
          refine ⟨rfl, ?_⟩
          rw [byteLength_cons, hlength]
          omega
        next => cases h
  · rintro ⟨rfl, rfl⟩
    induction before with
    | nil => simp
    | cons c before ih => simp [splitAtByte?_cons, ih]

/-- A range has a text exactly when the text stands there between two others. -/
theorem slice?_eq_some_iff {t w : Text} {s : Span} :
    t.slice? s = some w ↔
      ∃ before behind, t = before ++ (w ++ behind) ∧ s = .ofText (byteLength before) w := by
  constructor
  · intro h
    unfold slice? at h
    split at h
    next => cases h
    next upTo behind hstop =>
      obtain ⟨⟨before, middle⟩, hstart, hmiddle⟩ := Option.map_eq_some_iff.mp h
      cases hmiddle
      obtain ⟨rfl, hupTo⟩ := splitAtByte?_eq_some_iff.mp hstop
      obtain ⟨rfl, hbefore⟩ := splitAtByte?_eq_some_iff.mp hstart
      refine ⟨before, behind, List.append_assoc .., ?_⟩
      rw [byteLength_append, hbefore] at hupTo
      rw [Span.ofText, hbefore, hupTo]
  · rintro ⟨before, behind, rfl, rfl⟩
    have hstop : splitAtByte? (byteLength before + byteLength w) (before ++ (w ++ behind)) =
        some (before ++ w, behind) :=
      splitAtByte?_eq_some_iff.mpr ⟨(List.append_assoc ..).symm, byteLength_append ..⟩
    have hstart : splitAtByte? (byteLength before) (before ++ w) = some (before, w) :=
      splitAtByte?_eq_some_iff.mpr ⟨rfl, rfl⟩
    simp only [slice?, Span.ofText, hstop, hstart, Option.map_some]

/-- The whole text is the text under the range of all its bytes. -/
theorem slice?_whole (t : Text) : t.slice? ⟨0, byteLength t⟩ = some t :=
  slice?_eq_some_iff.mpr ⟨[], [], by simp, by simp [Span.ofText]⟩

theorem byteLength_eq_zero_iff {t : Text} : byteLength t = 0 ↔ t = [] := by
  cases t with
  | nil => simp
  | cons c t =>
    have := c.utf8Size_pos
    simp only [byteLength_cons, reduceCtorEq, iff_false]
    omega

/-- Of two leading parts the one with fewer bytes leads the other. -/
theorem prefix_of_byteLength_le {r s t : Text} (hr : r <+: t) (hs : s <+: t)
    (h : byteLength r ≤ byteLength s) : r <+: s := by
  obtain hle | ⟨more, rfl⟩ := List.prefix_or_prefix_of_prefix hr hs
  · exact hle
  · rw [byteLength_append] at h
    have hmore : more = [] := byteLength_eq_zero_iff.mp (by omega)
    subst hmore
    exact ⟨[], by rw [List.append_nil, List.append_nil]⟩

theorem eq_of_byteLength_eq {r s t : Text} (hr : r <+: t) (hs : s <+: t)
    (h : byteLength r = byteLength s) : r = s :=
  (prefix_of_byteLength_le hr hs (Nat.le_of_eq h)).eq_of_length_le
    (prefix_of_byteLength_le hs hr (Nat.le_of_eq h.symm)).length_le

/-- From where one piece of a text begins to where another ends there is a text too. -/
theorem slice?_join {t u v : Text} {a b : Span} (ha : t.slice? a = some u)
    (hb : t.slice? b = some v) (h : a.start ≤ b.stop) : ∃ w, t.slice? (a.join b) = some w := by
  obtain ⟨before, afterFirst, hu, rfl⟩ := slice?_eq_some_iff.mp ha
  obtain ⟨upTo, behind, hv, rfl⟩ := slice?_eq_some_iff.mp hb
  rw [← List.append_assoc] at hv
  obtain ⟨w, hw⟩ := prefix_of_byteLength_le ⟨_, hu.symm⟩ ⟨_, hv.symm⟩
    (by rw [byteLength_append]; exact h)
  refine ⟨w, slice?_eq_some_iff.mpr ⟨before, behind, ?_, ?_⟩⟩
  · rw [← List.append_assoc, hw, hv]
  · have hlength := congrArg byteLength hw
    rw [byteLength_append, byteLength_append] at hlength
    rw [Span.join, Span.ofText, Span.ofText, Span.ofText, hlength]

end ExactCalculator.Text
