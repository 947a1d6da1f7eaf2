import ExactCalculator.Text.Basic
import Mathlib.Data.List.Infix

/-!
Balanced parentheses, told by counting. A text is balanced when no leading part closes more than it
opens and the whole closes all of it. Two parentheses are partners when the text between them is
balanced; so a closing one that would close too much has no partner, and any other one has
(`partnerBefore_of_lt`). The opening ones without a partner cut a text into balanced pieces
(`Unclosed`).
-/
namespace ExactCalculator.Text

/-- No leading part has more closing parentheses than opening ones. -/
def Closable (t : Text) : Prop := ∀ s, s <+: t → s.count ')' ≤ s.count '('

instance (t : Text) : Decidable t.Closable :=
  decidable_of_iff (∀ s ∈ t.inits, s.count ')' ≤ s.count '(')
    (forall_congr' fun s => by rw [List.mem_inits])

/-- All that is opened is closed, and nothing else. -/
structure Balanced (t : Text) : Prop where
  closable : t.Closable
  total : t.count '(' = t.count ')'

instance (t : Text) : Decidable t.Balanced :=
  decidable_of_iff (t.Closable ∧ t.count '(' = t.count ')')
    ⟨fun h => ⟨h.1, h.2⟩, fun h => ⟨h.closable, h.total⟩⟩

theorem count_closing_concat (t : Text) : List.count ')' (t ++ [')']) = List.count ')' t + 1 := by
  rw [List.count_append]
  rfl

theorem count_opening_concat (t : Text) : List.count '(' (t ++ [')']) = List.count '(' t := by
  rw [List.count_append]
  rfl

theorem Closable.of_append {s t : Text} (h : Closable (s ++ t)) : s.Closable :=
  fun r hr => h r (hr.trans (List.prefix_append s t))

theorem Closable.append {s t : Text} (hs : s.Closable) (ht : t.Closable) :
    Closable (s ++ t) := by
  intro r hr
  obtain hr | ⟨q, rfl⟩ := List.prefix_or_prefix_of_prefix hr (List.prefix_append s t)
  · exact hs r hr
  · have hfirst := hs s List.prefix_rfl
    have hsecond := ht q ((List.prefix_append_right_inj s).mp hr)
    rw [List.count_append, List.count_append]
    omega

/-- What is opened in front can only help. -/
theorem Closable.opening {t : Text} (h : t.Closable) : Closable ('(' :: t) := by
  intro r hr
  obtain rfl | ⟨q, rfl, hq⟩ := List.prefix_cons_iff.mp hr
  · simp
  · have := h q hq
    rw [List.count_cons_of_ne (by decide), List.count_cons_self]
    omega

theorem Balanced.append {s t : Text} (hs : s.Balanced) (ht : t.Balanced) : Balanced (s ++ t) := by
  refine ⟨hs.closable.append ht.closable, ?_⟩
  rw [List.count_append, List.count_append, hs.total, ht.total]

theorem balanced_of_not_mem {t : Text} (hopening : '(' ∉ t) (hclosing : ')' ∉ t) :
    t.Balanced := by
  constructor
  · intro r hr
    rw [List.count_eq_zero.mpr fun h => hclosing (hr.subset h)]
    exact Nat.zero_le _
  · rw [List.count_eq_zero.mpr hopening, List.count_eq_zero.mpr hclosing]

/-- A group of a balanced text is balanced. -/
theorem Balanced.enclosed {t : Text} (h : t.Balanced) : Balanced ('(' :: (t ++ [')'])) := by
  constructor
  · intro r hr
    rw [← List.cons_append, List.prefix_concat_iff] at hr
    obtain rfl | hr := hr
    · simp [List.count_append, h.total]
    · exact h.closable.opening r hr
  · simp [List.count_append, h.total]

/-- A closing parenthesis behind this text has a partner in it. -/
def PartnerBefore (before : Text) : Prop :=
  ∃ outer inside : Text, before = outer ++ '(' :: inside ∧ inside.Balanced

/-- An opening parenthesis in front of this text has a partner in it. -/
def PartnerBehind (behind : Text) : Prop :=
  ∃ inside outer : Text, behind = inside ++ ')' :: outer ∧ inside.Balanced

/-- Without an opening parenthesis to close, every end of a text closes at least what it opens. -/
theorem partnerBefore_or (t : Text) :
    t.PartnerBefore ∨ ∀ q, q <:+ t → q.count '(' ≤ q.count ')' := by
  induction t with
  | nil =>
    refine .inr fun q hq => ?_
    rw [List.suffix_nil.mp hq]
    simp
  | cons c t ih =>
    obtain ⟨outer, inside, rfl, hinside⟩ | hends := ih
    · exact .inl ⟨c :: outer, inside, rfl, hinside⟩
    · by_cases hle : List.count '(' (c :: t) ≤ List.count ')' (c :: t)
      · refine .inr fun q hq => ?_
        obtain rfl | hq := List.suffix_cons_iff.mp hq
        · exact hle
        · exact hends q hq
      · -- The first character opens what the rest, which is balanced, does not close.
        have hall := hends t List.suffix_rfl
        obtain rfl : c = '(' := by
          by_contra hc
          rw [List.count_cons_of_ne hc] at hle
          exact hle (hall.trans List.count_le_count_cons)
        rw [List.count_cons_self, List.count_cons_of_ne (by decide)] at hle
        refine .inl ⟨[], t, rfl, fun r hr => ?_, by omega⟩
        obtain ⟨q, rfl⟩ := hr
        have hq := hends q (List.suffix_append r q)
        rw [List.count_append, List.count_append] at hall hle
        omega

theorem partnerBefore_of_lt {t : Text} (h : t.count ')' < t.count '(') : t.PartnerBefore := by
  obtain hpartner | hends := t.partnerBefore_or
  · exact hpartner
  · have := hends t List.suffix_rfl
    omega

/-- Without a closing parenthesis too many, no leading part closes more than it opens. -/
theorem partnerBehind_or (t : Text) : t.PartnerBehind ∨ t.Closable := by
  induction t using List.reverseRecOn with
  | nil =>
    refine .inr fun q hq => ?_
    rw [List.prefix_nil.mp hq]
    simp
  | append_singleton t c ih =>
    obtain ⟨inside, outer, rfl, hinside⟩ | hclosable := ih
    · exact .inl ⟨inside, outer ++ [c], by simp, hinside⟩
    · by_cases hle : List.count ')' (t ++ [c]) ≤ List.count '(' (t ++ [c])
      · refine .inr fun q hq => ?_
        obtain rfl | hq := List.prefix_concat_iff.mp hq
        · exact hle
        · exact hclosable q hq
      · -- The last character closes what the rest, which is balanced, does not open.
        have hall := hclosable t List.prefix_rfl
        obtain rfl : c = ')' := by
          by_contra hc
          rw [List.count_append, List.count_append, List.count_singleton,
            if_neg (by simpa using hc)] at hle
          omega
        rw [count_closing_concat, count_opening_concat] at hle
        exact .inl ⟨t, [], rfl, hclosable, by omega⟩

theorem partnerBehind_of_lt {t : Text} (h : t.count '(' < t.count ')') : t.PartnerBehind := by
  obtain hpartner | hclosable := t.partnerBehind_or
  · exact hpartner
  · have := hclosable t List.prefix_rfl
    omega

/-- Behind a balanced text a closing parenthesis has no partner. -/
theorem Balanced.not_partnerBefore {t : Text} (h : t.Balanced) : ¬ t.PartnerBefore := by
  rintro ⟨outer, inside, rfl, hinside⟩
  have houter := h.closable.of_append outer List.prefix_rfl
  have htotal := h.total
  rw [List.count_append, List.count_append, List.count_cons_self,
    List.count_cons_of_ne (by decide), hinside.total] at htotal
  omega

/-- In front of a text that does not close too much an opening parenthesis has no partner. -/
theorem Closable.not_partnerBehind {t : Text} (h : t.Closable) : ¬ t.PartnerBehind := by
  rintro ⟨inside, outer, rfl, hinside⟩
  rw [List.append_cons] at h
  have hle := h.of_append (inside ++ [')']) List.prefix_rfl
  rw [count_closing_concat, count_opening_concat, hinside.total] at hle
  omega

theorem Balanced.not_partnerBehind {t : Text} (h : t.Balanced) : ¬ t.PartnerBehind :=
  h.closable.not_partnerBehind

/-- Whether a parenthesis has a partner is settled once it has one. -/
theorem PartnerBehind.append {t : Text} (h : t.PartnerBehind) (more : Text) :
    PartnerBehind (t ++ more) := by
  obtain ⟨inside, outer, rfl, hinside⟩ := h
  exact ⟨inside, outer ++ more, by rw [List.append_assoc, List.cons_append], hinside⟩

/-- Where no leading part closes too much, every closing parenthesis has a partner. -/
theorem Closable.partnerBefore {before behind : Text} (h : Closable (before ++ ')' :: behind)) :
    before.PartnerBefore := by
  rw [List.append_cons] at h
  have hle := h.of_append (before ++ [')']) List.prefix_rfl
  rw [count_closing_concat, count_opening_concat] at hle
  exact partnerBefore_of_lt (by omega)

/-- In a balanced text every opening parenthesis has a partner. -/
theorem Balanced.partnerBehind {before behind : Text} (h : Balanced (before ++ '(' :: behind)) :
    behind.PartnerBehind := by
  have hle := h.closable.of_append before List.prefix_rfl
  have htotal := h.total
  rw [List.count_append, List.count_append, List.count_cons_self,
    List.count_cons_of_ne (by decide)] at htotal
  exact partnerBehind_of_lt (by omega)

/-- The offsets of the opening parentheses of a text that have no partner, the latest first; before,
between and behind them the text is balanced. -/
inductive Unclosed : Text → List Nat → Prop
  | none {t : Text} (h : t.Balanced) : Unclosed t []
  | opening {t inside : Text} {offsets : List Nat} (h : Unclosed t offsets)
    (hinside : inside.Balanced) : Unclosed (t ++ '(' :: inside) (byteLength t :: offsets)

theorem Unclosed.balanced {t : Text} (h : Unclosed t []) : t.Balanced := by
  cases h with
  | none h => exact h

theorem Unclosed.closable {t : Text} {offsets : List Nat} (h : Unclosed t offsets) :
    t.Closable := by
  induction h with
  | none h => exact h.closable
  | opening h hinside ih => exact ih.append hinside.closable.opening

theorem Unclosed.append {t u : Text} {offsets : List Nat} (h : Unclosed t offsets)
    (hu : u.Balanced) : Unclosed (t ++ u) offsets := by
  cases h with
  | none h => exact .none (h.append hu)
  | opening h hinside =>
    rw [List.append_assoc, List.cons_append]
    exact .opening h (hinside.append hu)

/-- A closing parenthesis is the partner of the latest one that has none. -/
theorem Unclosed.close {t : Text} {offset : Nat} {offsets : List Nat}
    (h : Unclosed t (offset :: offsets)) : Unclosed (t ++ [')']) offsets := by
  cases h with
  | opening h hinside =>
    rw [List.append_assoc, List.cons_append]
    exact h.append hinside.enclosed

/-- Behind the latest one that has no partner, the text is balanced. -/
theorem Unclosed.split {t : Text} {offset : Nat} {offsets : List Nat}
    (h : Unclosed t (offset :: offsets)) :
    ∃ before behind : Text, t = before ++ '(' :: behind ∧ offset = byteLength before ∧
      before.Closable ∧ behind.Balanced := by
  cases h with
  | opening h hinside => exact ⟨_, _, rfl, rfl, h.closable, hinside⟩

end ExactCalculator.Text
