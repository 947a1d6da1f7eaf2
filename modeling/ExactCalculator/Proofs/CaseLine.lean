import ExactCalculator.CaseFile.Verdict
import ExactCalculator.Proofs.Alphabet
import ExactCalculator.Proofs.Decimal.Written

/-!
Case files agree with the evaluator. A line that expects of a text what it is evaluated to, as it is
written out, is read as a case of that text and is judged correct; and whatever else a line expects,
it is judged correct only for the same number or the same kind of fault (`check_of_read`).
-/
namespace ExactCalculator

namespace Text

/-- A text without a line feed is one line. -/
theorem lines_of_feed_not_mem {t : Text} (hne : t ≠ []) (h : '\n' ∉ t) : t.lines = [t] := by
  fun_induction lines t with
  | case1 => exact absurd rfl hne
  | case2 t => exact absurd List.mem_cons_self h
  | case3 t => simp at h
  | case4 c t hfeed hreturn hnil =>
    rw [lines_eq_nil_iff] at hnil
    rw [hnil]
  | case5 c t hfeed hreturn l ls hcons ih =>
    have ht : t ≠ [] := by
      rintro rfl
      rw [lines_nil] at hcons
      cases hcons
    rw [ih ht fun hmem => h (List.mem_cons_of_mem c hmem)] at hcons
    cases hcons
    rfl

theorem trim_of_no_blank {t : Text} (h : ∀ c ∈ t, isBlank c = false) : t.trim = t := by
  have hdrop : ∀ {s : Text}, (∀ c ∈ s, c ∈ t) → s.dropWhile isBlank = s := by
    intro s hs
    cases s with
    | nil => rfl
    | cons c s => exact List.dropWhile_cons_of_neg (by simp [h c (hs c List.mem_cons_self)])
  rw [trim, trimStart, hdrop fun c hc => hc, trimEnd, hdrop fun c hc => List.mem_reverse.mp hc,
    List.reverse_reverse]

/-- A line with a comma in it is not blank, and it is a comment only when what stands in front of
the comma begins as one. -/
theorem isSkipped_append {e : Text} (h : e.find? (fun c => !isBlank c) ≠ some '#') (x : Text) :
    isSkipped (e ++ ',' :: x) = false := by
  have hfirst := List.find?_not_eq_head?_dropWhile isBlank (e ++ ',' :: x)
  rw [List.find?_append, List.find?_cons_of_pos (by decide)] at hfirst
  unfold isSkipped trimStart
  cases hrest : (e ++ ',' :: x).dropWhile isBlank with
  | nil =>
    rw [hrest, List.head?_nil, Option.or_eq_none_iff] at hfirst
    cases hfirst.2
  | cons c rest =>
    rw [hrest, List.head?_cons, Option.or_eq_some_iff] at hfirst
    obtain hc | ⟨-, hc⟩ := hfirst
    · rw [hc] at h
      exact beq_eq_false_iff_ne.mpr fun heq => h (congrArg some heq)
    · cases hc
      rfl

end Text

theorem Verdict.isCorrect_iff {v : Verdict} : v.isCorrect = true ↔ v = .correct := by
  cases v <;> simp [isCorrect]

def Expected.ofResult : Except Fault Decimal → Expected
  | .ok v => .value v
  | .error f => .fault f.kind

namespace Expected

theorem toList_render_value (d : Decimal) : (Expected.value d).render.toList = d.render :=
  String.toList_ofList

theorem toList_render_fault (k : FaultKind) :
    (Expected.fault k).render.toList = '!' :: k.name.toList := by
  cases k <;> rfl

/-- The expectations that can be read: a decimal, or the name of a kind of fault. -/
theorem ofText_eq_ok_iff {t : Text} {x : Expected} :
    ofText t = .ok x ↔
      (∃ d, Decimal.ofSigned t = .ok d ∧ x = .value d) ∨
      ∃ k : FaultKind, t = '!' :: k.name.toList ∧ x = .fault k := by
  constructor
  · intro h
    unfold ofText at h
    split at h
    next name =>
      cases hkind : FaultKind.ofName? name with
      | none =>
        rw [hkind] at h
        cases h
      | some k =>
        rw [hkind] at h
        cases h
        rw [FaultKind.ofName?_eq_some_iff.mp hkind]
        exact .inr ⟨k, rfl, rfl⟩
    next =>
      cases hd : Decimal.ofSigned t with
      | error reason =>
        rw [hd] at h
        cases h
      | ok d =>
        rw [hd] at h
        cases h
        exact .inl ⟨d, rfl, rfl⟩
  · rintro (⟨d, hd, rfl⟩ | ⟨k, rfl, rfl⟩)
    · unfold ofText
      split
      next name =>
        have hliteral := Decimal.isLiteral_of_ofLiteral (t := '!' :: name) hd
        exact absurd (hliteral.numeral '!' List.mem_cons_self) (by decide)
      next => rw [hd]
    · rw [ofText, FaultKind.ofName?_name]

theorem eq_value_iff {t : Text} {x : Expected} (h : ofText t = .ok x) (d : Decimal) :
    x = .value d ↔ Decimal.ofSigned t = .ok d := by
  have hread := ofText_eq_ok_iff (t := t) (x := .value d)
  rw [h] at hread
  simpa using hread

theorem eq_fault_iff {t : Text} {x : Expected} (h : ofText t = .ok x) (k : FaultKind) :
    x = .fault k ↔ t = '!' :: k.name.toList := by
  have hread := ofText_eq_ok_iff (t := t) (x := .fault k)
  rw [h] at hread
  simpa using hread

/-- Every expectation is read back from its written form. -/
theorem ofText_render (x : Expected) : ofText x.render.toList = .ok x := by
  rw [ofText_eq_ok_iff]
  cases x with
  | value d =>
    rw [toList_render_value]
    exact .inl ⟨d, d.ofSigned_render, rfl⟩
  | fault k => exact .inr ⟨k, toList_render_fault k, rfl⟩

/-- The written form of an expectation has neither blanks nor commas. -/
theorem mem_render {x : Expected} {c : Char} (h : c ∈ x.render.toList) :
    Text.isBlank c = false ∧ c ≠ ',' := by
  cases x with
  | value d =>
    rw [toList_render_value] at h
    obtain hnumeral | rfl := Decimal.mem_render h
    · refine ⟨Text.not_isBlank_of_isNumeral hnumeral, ?_⟩
      rintro rfl
      exact absurd hnumeral (by decide)
    · exact ⟨by decide, by decide⟩
  | fault k =>
    rw [toList_render_fault] at h
    have hall : ('!' :: k.name.toList).all (fun c => !Text.isBlank c && c != ',') = true := by
      cases k <;> decide
    simpa using List.all_eq_true.mp hall c h

/-- Correct is only the value that was expected, as a number, or a fault of the kind expected. -/
theorem judge_eq_correct_iff {x : Expected} {r : Except Fault Decimal} :
    x.judge r = .correct ↔
      (∃ v want, r = .ok v ∧ x = .value want ∧ want.toRat = v.toRat) ∨
      ∃ f, r = .error f ∧ x = .fault f.kind := by
  rw [← Verdict.isCorrect_iff]
  cases r with
  | ok v =>
    rw [judge_ok_isCorrect_iff]
    constructor
    · rintro ⟨want, rfl, hsame⟩
      exact .inl ⟨v, want, rfl, rfl, ((Decimal.sameValue_iff_toRat v want).mp hsame).symm⟩
    · rintro (⟨_, want, hv, rfl, hrat⟩ | ⟨_, hv, -⟩)
      · cases hv
        exact ⟨want, rfl, (Decimal.sameValue_iff_toRat v want).mpr hrat.symm⟩
      · cases hv
  | error f =>
    rw [judge_error_isCorrect_iff]
    simp

theorem judge_ofResult (r : Except Fault Decimal) : (ofResult r).judge r = .correct := by
  rw [judge_eq_correct_iff]
  cases r with
  | ok v => exact .inl ⟨v, v, rfl, rfl, rfl⟩
  | error f => exact .inr ⟨f, rfl, rfl⟩

end Expected

namespace CaseFile

variable {e : Text} (hfeed : '\n' ∉ e) (hstart : e.find? (fun c => !Text.isBlank c) ≠ some '#')
include hfeed hstart

/-- A line is read when what stands behind its last comma is. -/
theorem read_line_eq_ok_iff {x : Text} (hcomma : ',' ∉ x) (hx : '\n' ∉ x) {cases : List Case} :
    read (e ++ ',' :: x) = .ok cases ↔
      ∃ expected, Expected.ofText x.trim = .ok expected ∧ cases = [⟨1, e, expected⟩] := by
  have hline : '\n' ∉ e ++ ',' :: x := by
    simp [hfeed, hx]
  rw [read, Text.lines_of_feed_not_mem (by simp) hline, readFrom, Text.isSkipped_append hstart,
    Text.readCase_append e hcomma]
  cases Expected.ofText x.trim with
  | ok expected => simp [eq_comm]
  | error reason => simp

end CaseFile

/-- A line that expects of a text what becomes of it is read as one correct case of that text. Of
the other lines that are read, a case is correct exactly when the same number is written behind the
last comma, or the same kind of fault is named there. -/
theorem check_of_read {e : Text} (hfeed : '\n' ∉ e)
    (hstart : e.find? (fun c => !Text.isBlank c) ≠ some '#') :
    (CaseFile.read (e ++ ',' :: (Expected.ofResult (evaluate e)).render.toList) =
        .ok [⟨1, e, .ofResult (evaluate e)⟩] ∧
      Case.check ⟨1, e, .ofResult (evaluate e)⟩ = .correct) ∧
    ∀ (x : Text) (cases : List Case), ',' ∉ x → '\n' ∉ x →
      CaseFile.read (e ++ ',' :: x) = .ok cases →
      ∃ case, cases = [case] ∧ case.line = 1 ∧ case.expression = e ∧
        (case.check = .correct ↔
          (∃ v, evaluate e = .ok v ∧ x.trim.Writes v.toRat) ∨
          ∃ f, evaluate e = .error f ∧ x.trim = '!' :: f.kind.name.toList) := by
  constructor
  · generalize hx : Expected.ofResult (evaluate e) = x
    have hplain : ∀ c ∈ x.render.toList, Text.isBlank c = false ∧ c ≠ ',' :=
      fun c hc => Expected.mem_render hc
    have hcomma : ',' ∉ x.render.toList := fun hc => (hplain _ hc).2 rfl
    have hnofeed : '\n' ∉ x.render.toList := fun hc => absurd (hplain _ hc).1 (by decide)
    constructor
    · rw [CaseFile.read_line_eq_ok_iff hfeed hstart hcomma hnofeed,
        Text.trim_of_no_blank fun c hc => (hplain c hc).1]
      exact ⟨x, x.ofText_render, rfl⟩
    · rw [← hx]
      exact Expected.judge_ofResult (evaluate e)
  · intro x cases hcomma hnofeed hread
    obtain ⟨expected, hexpected, rfl⟩ :=
      (CaseFile.read_line_eq_ok_iff hfeed hstart hcomma hnofeed).mp hread
    refine ⟨_, rfl, rfl, rfl, ?_⟩
    simp only [Case.check, Expected.judge_eq_correct_iff, Expected.eq_value_iff hexpected,
      Expected.eq_fault_iff hexpected, Decimal.writes_iff, exists_and_left]

/-- In `1,5` the comma is blamed, and that is what its line expects when another comma and the name
of this kind follow. Of `1-3` a line rightly expects `-02.0`, with blanks around it. -/
theorem check_of_read_instances :
    CaseFile.read (['1', ',', '5'] ++ ',' :: '!' :: "invalid-character".toList) =
      .ok [⟨1, ['1', ',', '5'], .fault .invalidCharacter⟩] ∧
    ∃ case, CaseFile.read (['1', '-', '3'] ++ ',' :: [' ', '-', '0', '2', '.', '0', '\r']) =
      .ok [case] ∧ case.check = .correct := by
  constructor
  · have hblamed : evaluate ['1', ',', '5'] = .error ⟨.invalidCharacter ',', ⟨1, 2⟩⟩ := by
      decide +kernel
    have hread := (check_of_read (e := ['1', ',', '5']) (by decide) (by decide)).1.1
    rw [hblamed, Expected.ofResult, Expected.toList_render_fault] at hread
    exact hread
  · have hvalue : evaluate ['1', '-', '3'] = .ok ⟨-2, 0⟩ := by decide +kernel
    have hread : CaseFile.read (['1', '-', '3'] ++ ',' :: [' ', '-', '0', '2', '.', '0', '\r']) =
        .ok [⟨1, ['1', '-', '3'], .value ⟨-20, 1⟩⟩] := by
      decide +kernel
    have hsame : Decimal.toRat ⟨-20, 1⟩ = Decimal.toRat ⟨-2, 0⟩ :=
      (Decimal.sameValue_iff_toRat _ _).mp (by decide +kernel)
    obtain ⟨case, hcases, -, -, hcorrect⟩ :=
      (check_of_read (e := ['1', '-', '3']) (by decide) (by decide)).2 _ _ (by decide) (by decide)
        hread
    rw [hcases] at hread
    refine ⟨case, hread, hcorrect.mpr (.inl ⟨_, hvalue, ?_⟩)⟩
    exact Decimal.writes_iff.mpr ⟨_, by decide +kernel, hsame⟩

end ExactCalculator
