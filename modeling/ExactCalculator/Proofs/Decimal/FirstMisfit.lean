import ExactCalculator.Proofs.Decimal.Digits
import ExactCalculator.Proofs.Decimal.Written

/-!
Texts that are refused as literals. From the left, the first character that can stand in no literal
behind what stands in front of it decides the error (`Text.FirstMisfit`); where there is none, only
digits can be missing. The same decimals and errors come of one pass that collects digits and counts
those behind the point, and the digits it collects always write a number (`ofLiteral_exact`).
-/
namespace ExactCalculator

namespace Text

/-- A character that can stand in a literal behind this text: a digit, or the first point. -/
def Admits (before : Text) (c : Char) : Prop := c.isDigit = true ∨ c = '.' ∧ '.' ∉ before

def Fitting (t : Text) : Prop :=
  ∀ (before : Text) c behind, t = before ++ c :: behind → before.Admits c

/-- The first character that cannot stand where it does. -/
def FirstMisfit (t : Text) (c : Char) : Prop :=
  ∃ before behind : Text, t = before ++ c :: behind ∧ before.Fitting ∧ ¬ before.Admits c

/-- The number that a text of digits writes, as a library's conversion of the collected digits finds
it. Such a conversion takes more texts than these, a sign or separators between the digits for
instance, but a scan collects digits only. -/
def natural? (t : Text) : Option Nat :=
  if t ≠ [] ∧ t.all Char.isDigit = true then some (Nat.ofDigitChars 10 t 0) else none

end Text

def LiteralError.ofMisfit (c : Char) : LiteralError :=
  if c = '.' then .multiplePoints else .invalidDigit c

/-- What one pass over a text collects: its digits, and once there was a point, the number of those
behind it. -/
structure LiteralScan where
  digits : Text
  places? : Option Nat
  deriving DecidableEq, Repr

namespace LiteralScan

def start : LiteralScan := ⟨[], none⟩

def step (s : LiteralScan) (c : Char) : Except LiteralError LiteralScan :=
  if c.isDigit then .ok ⟨s.digits ++ [c], s.places?.map (· + 1)⟩
  else if c = '.' then
    match s.places? with
    | none => .ok ⟨s.digits, some 0⟩
    | some _ => .error .multiplePoints
  else .error (.invalidDigit c)

/-- The decimal that the digits write; digits that wrote no number would be taken for missing. -/
def close (s : LiteralScan) : Except LiteralError Decimal :=
  if s.digits.isEmpty then .error .noDigits
  else
    match s.digits.natural? with
    | some n => .ok ⟨n, s.places?.getD 0⟩
    | none => .error .noDigits

def ofText (t : Text) : LiteralScan :=
  ⟨t.filter Char.isDigit, if '.' ∈ t then some t.places.length else none⟩

end LiteralScan

/-- One pass over a text, up to the first error. -/
def Text.scan (t : Text) : Except LiteralError LiteralScan :=
  t.foldlM LiteralScan.step .start

namespace Text

theorem fitting_nil : Fitting [] := by
  intro before c behind h
  simp at h

theorem fitting_concat {t : Text} {c : Char} :
    Fitting (t ++ [c]) ↔ t.Fitting ∧ t.Admits c := by
  constructor
  · intro h
    refine ⟨fun before d behind ht => ?_, h t c [] rfl⟩
    refine h before d (behind ++ [c]) ?_
    rw [ht, List.append_assoc, List.cons_append]
  · rintro ⟨ht, hc⟩ before d behind h
    obtain rfl | ⟨inner, e, rfl⟩ := List.eq_nil_or_concat behind
    · obtain ⟨rfl, hd⟩ := List.append_inj' h rfl
      cases hd
      exact hc
    · rw [List.concat_eq_append, ← List.cons_append, ← List.append_assoc] at h
      obtain ⟨hfront, -⟩ := List.append_inj' h rfl
      exact ht before d inner hfront

/-- Behind a misfit the text does not matter. -/
theorem FirstMisfit.append {t : Text} {c : Char} (h : t.FirstMisfit c) (more : Text) :
    FirstMisfit (t ++ more) c := by
  obtain ⟨before, behind, rfl, hfits, hc⟩ := h
  refine ⟨before, behind ++ more, ?_, hfits, hc⟩
  rw [List.append_assoc, List.cons_append]

theorem fitting_or_firstMisfit (t : Text) : t.Fitting ∨ ∃ c, t.FirstMisfit c := by
  induction t using List.reverseRecOn with
  | nil => exact .inl fitting_nil
  | append_singleton t c ih =>
    obtain ht | ⟨d, hd⟩ := ih
    · by_cases hc : Admits t c
      · exact .inl (fitting_concat.mpr ⟨ht, hc⟩)
      · exact .inr ⟨c, t, [], rfl, ht, hc⟩
    · exact .inr ⟨d, hd.append [c]⟩

theorem Fitting.not_firstMisfit {t : Text} (h : t.Fitting) (c : Char) : ¬ t.FirstMisfit c := by
  rintro ⟨before, behind, ht, -, hc⟩
  exact hc (h before c behind ht)

/-- Every character fits in digits with at most one point among them, and in no other text. -/
theorem fitting_iff {t : Text} :
    t.Fitting ↔ (∀ c ∈ t, isNumeral c = true) ∧ t.count '.' ≤ 1 := by
  induction t using List.reverseRecOn with
  | nil => simp [fitting_nil]
  | append_singleton t c ih =>
    rw [fitting_concat, ih, List.forall_mem_append, List.forall_mem_singleton, List.count_append,
      Admits, ← List.count_eq_zero]
    by_cases hpoint : c = '.'
    · subst hpoint
      have hnumeral : isNumeral '.' = true := rfl
      have hdigit : '.'.isDigit = false := rfl
      simp only [hnumeral, hdigit, List.count_singleton_self]
      grind
    · have hcount : [c].count '.' = 0 := List.count_eq_zero.mpr (by simpa using Ne.symm hpoint)
      have hnumeral : isNumeral c = c.isDigit := by simp [isNumeral, hpoint]
      rw [hcount, hnumeral]
      grind

/-- The digits of a literal fit, and where all fits only digits can be missing. -/
theorem Fitting.cases {t : Text} (h : t.Fitting) : t.IsLiteral ∨ t = [] ∨ t = ['.'] := by
  obtain ⟨hnumeral, hcount⟩ := fitting_iff.mp h
  by_cases hne : t = []
  · exact .inr (.inl hne)
  · obtain hliteral | ⟨hpoints, -⟩ | ⟨hpoint, -⟩ := Decimal.ofLiteral_run hne hnumeral
    · exact .inl hliteral
    · omega
    · exact .inr (.inr hpoint)

theorem IsLiteral.filter_ne_nil {t : Text} (h : t.IsLiteral) : t.filter Char.isDigit ≠ [] := by
  obtain ⟨c, hc, hdigit⟩ := h.digit
  exact List.ne_nil_of_mem (List.mem_filter.mpr ⟨hc, hdigit⟩)

/-- The digits of a text write a number, if it has any. -/
theorem natural?_filter {t : Text} (h : t.filter Char.isDigit ≠ []) :
    natural? (t.filter Char.isDigit) = some (Nat.ofDigitChars 10 (t.filter Char.isDigit) 0) := by
  refine if_pos ⟨h, List.all_eq_true.mpr fun c hc => ?_⟩
  exact (List.mem_filter.mp hc).2

theorem bne_point_of_not_mem {t : Text} (h : '.' ∉ t) : ∀ c ∈ t, (c != '.') = true := by
  intro c hc
  rw [bne_iff_ne]
  rintro rfl
  exact h hc

theorem places_append {whole : Text} (h : '.' ∉ whole) (behind : Text) :
    places (whole ++ '.' :: behind) = behind := by
  rw [places, List.dropWhile_append_of_pos (bne_point_of_not_mem h),
    List.dropWhile_cons_of_neg (by decide)]
  rfl

theorem places_of_not_mem {t : Text} (h : '.' ∉ t) : t.places = [] := by
  rw [places, List.dropWhile_eq_nil_iff.mpr (bne_point_of_not_mem h)]
  rfl

/-- Behind a point every character is one more place. -/
theorem places_concat {t : Text} (h : '.' ∈ t) (c : Char) :
    places (t ++ [c]) = t.places ++ [c] := by
  obtain ⟨whole, behind, rfl, hwhole⟩ := List.eq_append_cons_of_mem h
  rw [List.append_assoc, List.cons_append, places_append hwhole, places_append hwhole]

end Text

namespace LiteralScan

open Text

theorem scan_concat (t : Text) (c : Char) :
    scan (t ++ [c]) = t.scan >>= fun s => s.step c := by
  simp only [scan, List.foldlM_append, List.foldlM_cons, List.foldlM_nil, bind_pure]

/-- A character that fits is collected. -/
theorem step_ofText {t : Text} {c : Char} (h : t.Admits c) :
    (ofText t).step c = .ok (ofText (t ++ [c])) := by
  obtain hdigit | ⟨rfl, hnone⟩ := h
  · have hpoint : '.' ≠ c := by
      rintro rfl
      exact absurd hdigit (by decide)
    rw [step, if_pos hdigit]
    by_cases hmem : '.' ∈ t
    · simp [ofText, hdigit, hmem, places_concat hmem]
    · simp [ofText, hdigit, hmem, hpoint]
  · rw [step, if_neg (by decide), if_pos rfl]
    simp [ofText, hnone, places_append hnone]

/-- One that does not fit is the error. -/
theorem step_ofText_of_misfit {t : Text} {c : Char} (h : ¬ t.Admits c) :
    (ofText t).step c = .error (.ofMisfit c) := by
  obtain ⟨hdigit, hpoint⟩ := not_or.mp h
  rw [step, if_neg hdigit, LiteralError.ofMisfit]
  split
  next hc =>
    have hmem : '.' ∈ t := by
      by_contra hnone
      exact hpoint ⟨hc, hnone⟩
    simp [ofText, hmem]
  next => rfl

theorem scan_of_fitting {t : Text} (h : t.Fitting) : t.scan = .ok (ofText t) := by
  induction t using List.reverseRecOn with
  | nil => rfl
  | append_singleton t c ih =>
    obtain ⟨ht, hc⟩ := fitting_concat.mp h
    rw [scan_concat, ih ht]
    exact step_ofText hc

theorem scan_of_firstMisfit {t : Text} {c : Char} (h : t.FirstMisfit c) :
    t.scan = .error (.ofMisfit c) := by
  obtain ⟨before, behind, rfl, hfits, hc⟩ := h
  have hfront : Text.scan (before ++ [c]) = .error (.ofMisfit c) := by
    rw [scan_concat, scan_of_fitting hfits]
    exact step_ofText_of_misfit hc
  rw [List.append_cons, scan, List.foldlM_append]
  change Text.scan (before ++ [c]) >>= _ = _
  rw [hfront]
  rfl

/-- The digits of a literal write its mantissa. -/
theorem close_ofText {t : Text} (h : t.IsLiteral) : (ofText t).close = .ok t.literalDecimal := by
  have hne := h.filter_ne_nil
  have hplaces : (ofText t).places?.getD 0 = t.places.length := by
    by_cases hmem : '.' ∈ t
    · simp [ofText, hmem]
    · simp [ofText, hmem, places_of_not_mem hmem]
  have hdigits : (ofText t).digits = t.filter Char.isDigit := rfl
  rw [close, hdigits, if_neg (by simpa using hne), natural?_filter hne, hplaces]
  rfl

end LiteralScan

namespace Decimal

open Text

variable {whole places : Text} {c : Char}

/-- A character that is no digit nor point ends the reading, whatever follows it. -/
theorem ofLiteral_stray (hwhole : ∀ c ∈ whole, c.isDigit = true) (hdigit : ¬ c.isDigit = true)
    (hpoint : c ≠ '.') (rest : Text) :
    ofLiteral (whole ++ c :: rest) = .error (.invalidDigit c) := by
  have hdrop : (whole ++ c :: rest).dropWhile Char.isDigit = c :: rest := by
    rw [List.dropWhile_append_of_pos hwhole, List.dropWhile_cons_of_neg hdigit]
  have hsplit : splitPlaces (c :: rest) = ([], c :: rest) := by simp [splitPlaces, hpoint]
  simp [ofLiteral, hdrop, hsplit]

/-- So does one behind the point. -/
theorem ofLiteral_stray_place (hwhole : ∀ c ∈ whole, c.isDigit = true)
    (hplaces : ∀ c ∈ places, c.isDigit = true) (hdigit : ¬ c.isDigit = true)
    (hpoint : c ≠ '.') (rest : Text) :
    ofLiteral (whole ++ '.' :: (places ++ c :: rest)) = .error (.invalidDigit c) := by
  have hdrop : (whole ++ '.' :: (places ++ c :: rest)).dropWhile Char.isDigit =
      '.' :: (places ++ c :: rest) := by
    rw [List.dropWhile_append_of_pos hwhole, List.dropWhile_cons_of_neg (by decide)]
  have hsplit : splitPlaces ('.' :: (places ++ c :: rest)) = (places, c :: rest) := by
    rw [splitPlaces, List.span_eq_takeWhile_dropWhile, List.takeWhile_append_of_pos hplaces,
      List.takeWhile_cons_of_neg hdigit, List.append_nil, List.dropWhile_append_of_pos hplaces,
      List.dropWhile_cons_of_neg hdigit]
  simp [ofLiteral, hdrop, hsplit]

/-- The first misfit decides. -/
theorem ofLiteral_of_firstMisfit {t : Text} (h : t.FirstMisfit c) :
    ofLiteral t = .error (.ofMisfit c) := by
  obtain ⟨before, behind, rfl, hfits, hc⟩ := h
  obtain ⟨hdigit, hpoint⟩ := not_or.mp hc
  obtain ⟨hnumeral, hcount⟩ := fitting_iff.mp hfits
  obtain hall | ⟨whole, places, rfl, hwhole⟩ := split_at_point hnumeral
  · have hne : c ≠ '.' := by
      rintro rfl
      exact hpoint ⟨rfl, List.count_eq_zero.mp (count_point_of_digits hall)⟩
    rw [LiteralError.ofMisfit, if_neg hne]
    exact ofLiteral_stray hall hdigit hne behind
  · have hplaces : ∀ d ∈ places, d.isDigit = true := by
      intro d hd
      refine isDigit_of_isNumeral (hnumeral d (by simp [hd])) ?_
      rintro rfl
      have := List.count_pos_iff.mpr hd
      rw [List.count_append, List.count_cons_self] at hcount
      omega
    rw [List.append_assoc, List.cons_append, LiteralError.ofMisfit]
    split
    next heq =>
      subst heq
      exact ofLiteral_second_point hwhole hplaces behind
    next hne => exact ofLiteral_stray_place hwhole hplaces hdigit hne behind

/-- Reading is one pass. -/
theorem ofLiteral_eq_scan (t : Text) : ofLiteral t = t.scan >>= LiteralScan.close := by
  obtain hfits | ⟨c, hc⟩ := t.fitting_or_firstMisfit
  · rw [LiteralScan.scan_of_fitting hfits]
    obtain hliteral | rfl | rfl := hfits.cases
    · rw [ofLiteral_of_isLiteral hliteral]
      exact (LiteralScan.close_ofText hliteral).symm
    · rfl
    · rfl
  · rw [ofLiteral_of_firstMisfit hc, LiteralScan.scan_of_firstMisfit hc]
    rfl

/-- Without a misfit only the texts without digits are refused. -/
theorem ofLiteral_eq_error_iff {t : Text} {reason : LiteralError} :
    ofLiteral t = .error reason ↔
      (∃ c, t.FirstMisfit c ∧ reason = .ofMisfit c) ∨
        (∀ c, ¬ t.FirstMisfit c) ∧ (t = [] ∨ t = ['.']) ∧ reason = .noDigits := by
  constructor
  · intro h
    obtain hfits | ⟨c, hc⟩ := t.fitting_or_firstMisfit
    · refine .inr ⟨hfits.not_firstMisfit, ?_⟩
      obtain hliteral | rfl | rfl := hfits.cases
      · rw [ofLiteral_of_isLiteral hliteral] at h
        cases h
      · cases h
        exact ⟨.inl rfl, rfl⟩
      · cases h
        exact ⟨.inr rfl, rfl⟩
    · rw [ofLiteral_of_firstMisfit hc] at h
      cases h
      exact .inl ⟨c, hc, rfl⟩
  · rintro (⟨c, hc, rfl⟩ | ⟨-, rfl | rfl, rfl⟩)
    · exact ofLiteral_of_firstMisfit hc
    · rfl
    · rfl

/-- A text is read exactly when it is made of ASCII digits and at most one point, with a digit among
them; its places are counted and all its digits, in their order, write the mantissa. Of any other
text the first misfit decides the error, and digits are missing only where there is no misfit, which
is to say in no text and in a lone point. All this is what one pass over the text comes to, and the
digits that a pass collects always write a number. -/
theorem ofLiteral_exact (t : Text) :
    (∀ d, ofLiteral t = .ok d ↔ t.IsLiteral ∧ d.scale = t.places.length ∧
      d.mantissa = Nat.ofDigitChars 10 (t.filter Char.isDigit) 0) ∧
    (∀ reason, ofLiteral t = .error reason ↔
      (∃ c, t.FirstMisfit c ∧ reason = .ofMisfit c) ∨
        (∀ c, ¬ t.FirstMisfit c) ∧ (t = [] ∨ t = ['.']) ∧ reason = .noDigits) ∧
    ofLiteral t = t.scan >>= LiteralScan.close ∧
    ∀ s, t.scan = .ok s → s.digits ≠ [] → ∃ n, s.digits.natural? = some n := by
  refine ⟨fun d => ?_, fun reason => ofLiteral_eq_error_iff, ofLiteral_eq_scan t, ?_⟩
  · rw [ofLiteral_eq_ok_iff]
    obtain ⟨mantissa, scale⟩ := d
    simp only [literalDecimal, Decimal.mk.injEq, and_comm]
  · intro s hscan hne
    obtain hfits | ⟨c, hc⟩ := t.fitting_or_firstMisfit
    · rw [LiteralScan.scan_of_fitting hfits] at hscan
      cases hscan
      exact ⟨_, natural?_filter hne⟩
    · rw [LiteralScan.scan_of_firstMisfit hc] at hscan
      cases hscan

/-- The letter in `1.2a.` is its first misfit, though a second point follows; `.50` has two places,
and the digits that are collected of it write a number. -/
theorem ofLiteral_exact_instances :
    ofLiteral ['1', '.', '2', 'a', '.'] = .error (.invalidDigit 'a') ∧
    ofLiteral ['.', '5', '0'] = .ok ⟨50, 2⟩ ∧
    ∃ n, natural? ['5', '0'] = some n := by
  have hfront : IsLiteral ['1', '.', '2'] := by decide
  have hletter : ¬ Admits ['1', '.', '2'] 'a' := by
    unfold Admits
    decide
  have hmisfit : FirstMisfit ['1', '.', '2', 'a', '.'] 'a' :=
    ⟨['1', '.', '2'], ['.'], rfl, fitting_iff.mpr ⟨hfront.numeral, hfront.point⟩, hletter⟩
  refine ⟨?_, ?_, ?_⟩
  · exact ((ofLiteral_exact _).2.1 _).mpr (.inl ⟨'a', hmisfit, rfl⟩)
  · exact ((ofLiteral_exact _).1 _).mpr ⟨by decide, rfl, by decide⟩
  · exact (ofLiteral_exact ['.', '5', '0']).2.2.2 ⟨['5', '0'], some 2⟩ (by decide) (by decide)

end Decimal
end ExactCalculator
