import ExactCalculator.Proofs.CaseRows

/-!
Reading case files of any form. Each line is judged by itself: it holds no case, or one case, or it
is faulty in one way (`Text.line_cases`). The cases of a file are those of its lines, the first
faulty line decides the error, and behind a line feed the reading of a file is only moved by the
lines in front (`CaseFile.read_line_by_line`).
-/
namespace ExactCalculator

namespace Text

/-- Nothing of the line is left when it is trimmed, or it is a comment. -/
def HoldsNoCase (l : Text) : Prop :=
  l.trim = [] ∨ l.find? (fun c => !isBlank c) = some '#'

instance (l : Text) : Decidable l.HoldsNoCase :=
  inferInstanceAs (Decidable (l.trim = [] ∨ l.find? (fun c => !isBlank c) = some '#'))

/-- What a text says is to be expected: a literal, perhaps with one minus sign in front, or the name
of a kind of fault behind an exclamation mark. -/
inductive Expects : Text → Expected → Prop
  | value {t : Text} (h : t.IsLiteral) : Expects t (.value t.literalDecimal)
  | negative {t : Text} (h : t.IsLiteral) : Expects ('-' :: t) (.value (-t.literalDecimal))
  | fault (k : FaultKind) : Expects ('!' :: k.name.toList) (.fault k)

/-- A text without its minus sign, if it begins with one. -/
def magnitude : Text → Text
  | '-' :: t => t
  | t => t

/-- What is wrong with a text that says nothing of the kind. -/
inductive Refused : Text → LineError → Prop
  | kind {name : Text} (h : ∀ k : FaultKind, name ≠ k.name.toList) :
    Refused ('!' :: name) (.badKind name)
  | value {t : Text} {reason : LiteralError} (hmark : t.head? ≠ some '!')
    (h : Decimal.ofLiteral t.magnitude = .error reason) : Refused t (.badValue t reason)

/-- The expression of a line is all that stands in front of its last comma; what is expected stands
behind it, between blanks. -/
def Holds (l expression : Text) (expected : Expected) : Prop :=
  ∃ back : Text, l = expression ++ ',' :: back ∧ ',' ∉ back ∧ back.trim.Expects expected

/-- What is wrong with a line that should hold a case. -/
inductive Faulty (l : Text) : LineError → Prop
  | separator (h : ',' ∉ l) : Faulty l .missingSeparator
  | expectation {front back : Text} {reason : LineError} (hl : l = front ++ ',' :: back)
    (hback : ',' ∉ back) (h : back.trim.Refused reason) : Faulty l reason

/-- The line can stand in a case file that is read. -/
def Readable (l : Text) : Prop := l.HoldsNoCase ∨ ∃ expression expected, l.Holds expression expected

theorem isSkipped_iff {l : Text} : l.isSkipped = true ↔ l.HoldsNoCase := by
  have hfirst := List.find?_not_eq_head?_dropWhile isBlank l
  rw [HoldsNoCase, trim_eq_nil_iff, ← trimStart_eq_nil_iff, hfirst, isSkipped, trimStart]
  cases l.dropWhile isBlank with
  | nil => simp
  | cons c rest => simp

/-- A text has no comma, or it has a last one. -/
theorem last_comma (t : Text) :
    ',' ∉ t ∨ ∃ front back : Text, t = front ++ ',' :: back ∧ ',' ∉ back := by
  induction t with
  | nil => exact .inl List.not_mem_nil
  | cons c t ih =>
    obtain hnone | ⟨front, back, rfl, hback⟩ := ih
    · by_cases hc : ',' = c
      · exact .inr ⟨[], t, by rw [hc, List.nil_append], hnone⟩
      · exact .inl (List.not_mem_cons_of_ne_of_not_mem hc hnone)
    · exact .inr ⟨c :: front, back, rfl, hback⟩

theorem readCase_of_no_comma {l : Text} (h : ',' ∉ l) : l.readCase = .error .missingSeparator := by
  rw [readCase, (splitLastComma?_eq_none_iff l).mpr h]

end Text

theorem FaultKind.ofName?_eq_none_iff {t : Text} :
    ofName? t = none ↔ ∀ k : FaultKind, t ≠ k.name.toList := by
  rw [Option.eq_none_iff_forall_ne_some]
  exact forall_congr' fun k => not_congr ofName?_eq_some_iff

/-- A text and its opposite are refused alike. -/
theorem Decimal.ofSigned_eq_error_iff {t : Text} {reason : LiteralError} :
    ofSigned t = .error reason ↔ ofLiteral t.magnitude = .error reason := by
  unfold Text.magnitude
  split
  next magnitude =>
    rw [ofSigned]
    cases ofLiteral magnitude with
    | ok d => simp [Except.map]
    | error => exact Iff.rfl
  next t hsign =>
    rw [ofSigned]
    exact hsign

namespace Expected

theorem ofText_eq_ok_iff_expects {t : Text} {x : Expected} : ofText t = .ok x ↔ t.Expects x := by
  rw [ofText_eq_ok_iff]
  constructor
  · rintro (⟨d, hd, rfl⟩ | ⟨k, rfl, rfl⟩)
    · obtain ⟨h, rfl⟩ | ⟨magnitude, rfl, h, rfl⟩ := Decimal.ofSigned_eq_ok_iff.mp hd
      · exact .value h
      · exact .negative h
    · exact .fault k
  · rintro (h | h | k)
    · exact .inl ⟨_, Decimal.ofSigned_of_isLiteral h, rfl⟩
    · exact .inl ⟨_, Decimal.ofSigned_minus h, rfl⟩
    · exact .inr ⟨k, rfl, rfl⟩

theorem ofText_eq_error_iff {t : Text} {reason : LineError} :
    ofText t = .error reason ↔ t.Refused reason := by
  constructor
  · intro h
    unfold ofText at h
    split at h
    next name =>
      cases hkind : FaultKind.ofName? name with
      | some k =>
        rw [hkind] at h
        cases h
      | none =>
        rw [hkind] at h
        cases h
        exact .kind (FaultKind.ofName?_eq_none_iff.mp hkind)
    next hmark =>
      cases hd : Decimal.ofSigned t with
      | ok d =>
        rw [hd] at h
        cases h
      | error reason =>
        rw [hd] at h
        cases h
        refine .value (fun hhead => ?_) (Decimal.ofSigned_eq_error_iff.mp hd)
        obtain ⟨name, rfl⟩ := List.head?_eq_some_iff.mp hhead
        exact hmark name rfl
  · rintro (h | ⟨hmark, h⟩)
    · rw [ofText, FaultKind.ofName?_eq_none_iff.mpr h]
    · unfold ofText
      split
      next => exact absurd rfl hmark
      next => rw [Decimal.ofSigned_eq_error_iff.mpr h]

end Expected

namespace Text

variable {l : Text}

theorem readCase_eq_ok_iff {expression : Text} {expected : Expected} :
    l.readCase = .ok (expression, expected) ↔ l.Holds expression expected := by
  constructor
  · intro h
    obtain hnone | ⟨front, back, rfl, hback⟩ := l.last_comma
    · rw [readCase_of_no_comma hnone] at h
      cases h
    · rw [readCase_append front hback, bind_eq_ok] at h
      obtain ⟨x, hread, ⟨⟩⟩ := h
      exact ⟨back, rfl, hback, Expected.ofText_eq_ok_iff_expects.mp hread⟩
  · rintro ⟨back, rfl, hback, h⟩
    rw [readCase_append expression hback, Expected.ofText_eq_ok_iff_expects.mpr h, ok_bind]

theorem readCase_eq_error_iff {reason : LineError} :
    l.readCase = .error reason ↔ l.Faulty reason := by
  constructor
  · intro h
    obtain hnone | ⟨front, back, rfl, hback⟩ := l.last_comma
    · rw [readCase_of_no_comma hnone] at h
      cases h
      exact .separator hnone
    · rw [readCase_append front hback, bind_eq_error] at h
      obtain hread | ⟨x, -, ⟨⟩⟩ := h
      exact .expectation rfl hback (Expected.ofText_eq_error_iff.mp hread)
  · rintro (hnone | ⟨rfl, hback, h⟩)
    · exact readCase_of_no_comma hnone
    · rw [readCase_append _ hback, Expected.ofText_eq_error_iff.mpr h, error_bind]

/-- A line holds no case, or one case, or is faulty in one way. -/
theorem line_cases (l : Text) :
    l.HoldsNoCase ∨ (¬ l.HoldsNoCase ∧ ∃ expression expected, l.Holds expression expected) ∨
      (¬ l.HoldsNoCase ∧ ∃ reason, l.Faulty reason) := by
  by_cases hnone : l.HoldsNoCase
  · exact .inl hnone
  · cases hread : l.readCase with
    | ok pair => exact .inr (.inl ⟨hnone, pair.1, pair.2, readCase_eq_ok_iff.mp hread⟩)
    | error reason => exact .inr (.inr ⟨hnone, reason, readCase_eq_error_iff.mp hread⟩)

theorem Faulty.not_holds {reason : LineError} (h : l.Faulty reason) (expression : Text)
    (expected : Expected) : ¬ l.Holds expression expected := by
  intro hholds
  rw [← readCase_eq_error_iff, readCase_eq_ok_iff.mpr hholds] at h
  cases h

theorem isSkipped_eq_false {l : Text} (h : ¬ l.HoldsNoCase) : l.isSkipped = false := by
  rw [← isSkipped_iff] at h
  exact Bool.eq_false_of_not_eq_true h

theorem endsInFeed_tail {c : Char} {t : Text} (h : (c :: t).getLast? = some '\n') :
    t = [] ∨ t.getLast? = some '\n' := by
  cases t with
  | nil => exact .inl rfl
  | cons d t => exact .inr (by rwa [List.getLast?_cons_cons] at h)

/-- Where a text ends in a line feed, its last line ends, and another line begins behind it. -/
theorem lines_append {a : Text} (h : a = [] ∨ a.getLast? = some '\n') (b : Text) :
    lines (a ++ b) = a.lines ++ b.lines := by
  fun_induction lines a with
  | case1 => rfl
  | case2 t ih =>
    have hlast := h.resolve_left (List.cons_ne_nil _ _)
    rw [List.cons_append, lines_feed, ih (endsInFeed_tail hlast), List.cons_append]
  | case3 t ih =>
    have hlast := h.resolve_left (List.cons_ne_nil _ _)
    rw [List.getLast?_cons_cons] at hlast
    rw [List.cons_append, List.cons_append, lines_return_feed, ih (endsInFeed_tail hlast),
      List.cons_append]
  | case4 c t hfeed hreturn hnil ih =>
    obtain rfl := (lines_eq_nil_iff t).mp hnil
    have hc : c = '\n' := by simpa using h
    exact absurd hc hfeed
  | case5 c t hfeed hreturn l ls hcons ih =>
    have hlast := h.resolve_left (List.cons_ne_nil _ _)
    have happend := ih (endsInFeed_tail hlast)
    rw [hcons, List.cons_append] at happend
    rw [List.cons_append, lines_cons hfeed ?_ happend, List.cons_append]
    rintro rfl hhead
    cases t with
    | nil =>
      rw [lines_nil] at hcons
      cases hcons
    | cons d t =>
      cases hhead
      exact hreturn t rfl rfl

end Text

/-- The case that a line holds, of a line with its number. -/
structure Case.IsOf (c : Case) (p : Text × Nat) : Prop where
  line : c.line = p.2
  holds : p.1.Holds c.expression c.expected

/-- The same case so many lines further down. -/
def Case.shift (c : Case) (lines : Nat) : Case := { c with line := c.line + lines }

def CaseFileError.shift (e : CaseFileError) (lines : Nat) : CaseFileError :=
  { e with line := e.line + lines }

namespace CaseFile

open Text

variable {l : Text} {line : Nat} {ls : List Text} {cases : List Case} {e : CaseFileError}

theorem readFrom_none (h : l.HoldsNoCase) (line : Nat) (ls : List Text) :
    readFrom line (l :: ls) = readFrom (line + 1) ls :=
  readFrom_skipped (isSkipped_iff.mpr h) line ls

theorem readFrom_faulty (h : ¬ l.HoldsNoCase) {reason : LineError} (hl : l.Faulty reason)
    (line : Nat) (ls : List Text) : readFrom line (l :: ls) = .error ⟨line, reason⟩ :=
  readFrom_bad (isSkipped_eq_false h) (readCase_eq_error_iff.mpr hl) line ls

/-- A case stands in front of those of the lines below. -/
theorem readFrom_case (h : ¬ l.HoldsNoCase) {expression : Text} {expected : Expected}
    (hl : l.Holds expression expected) (line : Nat) (ls : List Text) :
    readFrom line (l :: ls) =
      readFrom (line + 1) ls >>= fun cases => .ok (⟨line, expression, expected⟩ :: cases) := by
  rw [readFrom, isSkipped_eq_false h, readCase_eq_ok_iff.mpr hl]
  dsimp only [Bool.false_eq_true, if_false]
  cases readFrom (line + 1) ls with
  | ok cases => rfl
  | error e => rfl

/-- Each line that is not passed over gives one case, in the order of the lines. -/
theorem readFrom_eq_ok_iff :
    readFrom line ls = .ok cases ↔
      cases.Forall₂ Case.IsOf ((ls.zipIdx line).filter fun p => ¬ p.1.HoldsNoCase) := by
  induction ls generalizing line cases with
  | nil => simp [eq_comm]
  | cons l ls ih =>
    rw [List.zipIdx_cons]
    obtain hnone | ⟨hcase, expression, expected, hl⟩ | ⟨hcase, reason, hl⟩ := l.line_cases
    · rw [readFrom_none hnone, List.filter_cons_of_neg (by simpa using hnone), ih]
    · rw [List.filter_cons_of_pos (by simpa using hcase), List.forall₂_cons_right_iff]
      constructor
      · rw [readFrom_case hcase hl, bind_eq_ok]
        rintro ⟨more, hmore, ⟨⟩⟩
        exact ⟨_, more, ⟨rfl, hl⟩, ih.mp hmore, rfl⟩
      · rintro ⟨c, more, hc, hmore, rfl⟩
        obtain rfl : c.line = line := hc.line
        rw [readFrom_case hcase hc.holds, ih.mpr hmore, ok_bind]
    · rw [List.filter_cons_of_pos (by simpa using hcase), readFrom_faulty hcase hl]
      refine iff_of_false (by simp) fun hcases => ?_
      obtain ⟨c, more, hc, -⟩ := List.forall₂_cons_right_iff.mp hcases
      exact hl.not_holds _ _ hc.holds

theorem exists_readFrom_iff (line : Nat) (ls : List Text) :
    (∃ cases, readFrom line ls = .ok cases) ↔ ∀ l ∈ ls, l.Readable := by
  induction ls generalizing line with
  | nil => simp
  | cons l ls ih =>
    rw [List.forall_mem_cons, ← ih (line + 1)]
    obtain hnone | ⟨hcase, expression, expected, hl⟩ | ⟨hcase, reason, hl⟩ := l.line_cases
    · rw [readFrom_none hnone]
      exact (and_iff_right (.inl hnone)).symm
    · rw [readFrom_case hcase hl]
      simp only [bind_eq_ok]
      constructor
      · rintro ⟨_, cases, hcases, -⟩
        exact ⟨.inr ⟨_, _, hl⟩, cases, hcases⟩
      · rintro ⟨-, cases, hcases⟩
        exact ⟨_, cases, hcases, rfl⟩
    · rw [readFrom_faulty hcase hl]
      refine iff_of_false (by simp) ?_
      rintro ⟨hnone | ⟨expression, expected, hholds⟩, -⟩
      · exact hcase hnone
      · exact hl.not_holds _ _ hholds

/-- What can be read of the first lines is read of them, whatever the others are. -/
theorem readFrom_append (line : Nat) (ls ms : List Text) :
    readFrom line (ls ++ ms) =
      readFrom line ls >>= fun cases =>
        readFrom (line + ls.length) ms >>= fun more => .ok (cases ++ more) := by
  induction ls generalizing line with
  | nil =>
    rw [List.nil_append, readFrom_nil, ok_bind, List.length_nil, Nat.add_zero]
    exact (bind_pure _).symm
  | cons l ls ih =>
    have hlength : line + (l :: ls).length = line + 1 + ls.length := by
      rw [List.length_cons]
      omega
    rw [List.cons_append, hlength]
    obtain hnone | ⟨hcase, expression, expected, hl⟩ | ⟨hcase, reason, hl⟩ := l.line_cases
    · rw [readFrom_none hnone, readFrom_none hnone, ih]
    · rw [readFrom_case hcase hl, readFrom_case hcase hl, ih]
      simp only [bind_assoc, ok_bind, List.cons_append]
    · rw [readFrom_faulty hcase hl, readFrom_faulty hcase hl, error_bind]

/-- The first faulty line decides the error, whatever stands behind it. -/
theorem readFrom_eq_error_iff :
    readFrom line ls = .error e ↔ ∃ front l behind, ls = front ++ l :: behind ∧
      e.line = line + front.length ∧ (∀ m ∈ front, m.Readable) ∧ ¬ l.HoldsNoCase ∧
      l.Faulty e.reason := by
  constructor
  · intro h
    induction ls generalizing line with
    | nil => cases h
    | cons l ls ih =>
      -- Behind a line that can be read, the first faulty line is that of the lines below.
      have hbelow (hl : l.Readable) (hrest : readFrom (line + 1) ls = .error e) :
          ∃ front m behind, l :: ls = front ++ m :: behind ∧ e.line = line + front.length ∧
            (∀ m ∈ front, m.Readable) ∧ ¬ m.HoldsNoCase ∧ m.Faulty e.reason := by
        obtain ⟨front, m, behind, rfl, hline, hfront, hm⟩ := ih hrest
        refine ⟨l :: front, m, behind, rfl, ?_, List.forall_mem_cons.mpr ⟨hl, hfront⟩, hm⟩
        rw [hline, List.length_cons]
        omega
      obtain hnone | ⟨hcase, expression, expected, hl⟩ | ⟨hcase, reason, hl⟩ := l.line_cases
      · rw [readFrom_none hnone] at h
        exact hbelow (.inl hnone) h
      · rw [readFrom_case hcase hl, bind_eq_error] at h
        obtain hrest | ⟨_, _, ⟨⟩⟩ := h
        exact hbelow (.inr ⟨_, _, hl⟩) hrest
      · rw [readFrom_faulty hcase hl] at h
        cases h
        exact ⟨[], l, ls, rfl, rfl, by simp, hcase, hl⟩
  · obtain ⟨n, reason⟩ := e
    rintro ⟨front, l, behind, rfl, rfl, hfront, hcase, hl⟩
    obtain ⟨cases, hcases⟩ := (exists_readFrom_iff line front).mpr hfront
    rw [readFrom_append, hcases, ok_bind, readFrom_faulty hcase hl, error_bind]

/-- Lines further down are read alike. -/
theorem readFrom_add (line lines : Nat) (ls : List Text) :
    readFrom (line + lines) ls =
      match readFrom line ls with
      | .ok cases => .ok (cases.map (·.shift lines))
      | .error e => .error (e.shift lines) := by
  induction ls generalizing line with
  | nil => rfl
  | cons l ls ih =>
    obtain hnone | ⟨hcase, expression, expected, hl⟩ | ⟨hcase, reason, hl⟩ := l.line_cases
    · rw [readFrom_none hnone, readFrom_none hnone, Nat.add_right_comm, ih]
    · rw [readFrom_case hcase hl, readFrom_case hcase hl, Nat.add_right_comm, ih]
      cases readFrom (line + 1) ls with
      | ok cases => rfl
      | error e => rfl
    · rw [readFrom_faulty hcase hl, readFrom_faulty hcase hl]
      rfl

/-- Behind a line feed a file is read by itself, once what stands in front was read. -/
theorem read_append {a : Text} (h : a = [] ∨ a.getLast? = some '\n') (b : Text) :
    read (a ++ b) = read a >>= fun cases =>
      match read b with
      | .ok more => .ok (cases ++ more.map (·.shift a.lines.length))
      | .error e => .error (e.shift a.lines.length) := by
  rw [read, lines_append h, readFrom_append, readFrom_add, read, read]
  cases readFrom 1 b.lines with
  | ok more => rfl
  | error e => rfl

/-- A case file is read exactly when each of its lines holds no case, being blank or a comment, or
has a comma and behind the last one what is to be expected. Its cases are then those of the lines
that are not passed over, in their order, each with the number of its line and with all that stands
in front of the last comma. Otherwise the error is that of the first faulty line, which this line
alone determines. Behind a file that is empty or ends in a line feed, any other text is read as if
it stood alone, but for the line numbers; and when the file in front has an error, so has the
whole. -/
theorem read_line_by_line (t : Text) :
    ((∃ cases, read t = .ok cases) ↔ ∀ l ∈ t.lines, l.Readable) ∧
    (∀ cases, read t = .ok cases ↔
      cases.Forall₂ Case.IsOf ((t.lines.zipIdx 1).filter fun p => ¬ p.1.HoldsNoCase)) ∧
    (∀ e, read t = .error e ↔ ∃ front l behind, t.lines = front ++ l :: behind ∧
      e.line = 1 + front.length ∧ (∀ m ∈ front, m.Readable) ∧ ¬ l.HoldsNoCase ∧
      l.Faulty e.reason) ∧
    (t = [] ∨ t.getLast? = some '\n' → ∀ more,
      (∀ e, read t = .error e → read (t ++ more) = .error e) ∧
      ∀ cases, read t = .ok cases →
        (∀ e, read more = .error e → read (t ++ more) = .error (e.shift t.lines.length)) ∧
        ∀ others, read more = .ok others →
          read (t ++ more) = .ok (cases ++ others.map (·.shift t.lines.length))) := by
  refine ⟨exists_readFrom_iff 1 t.lines, fun _ => readFrom_eq_ok_iff,
    fun _ => readFrom_eq_error_iff, fun hend more => ?_⟩
  rw [read_append hend]
  constructor
  · intro e he
    rw [he, error_bind]
  · intro cases hcases
    rw [hcases, ok_bind]
    constructor
    · intro e he
      rw [he]
    · intro others hothers
      rw [hothers]

/-- A comment, a case of `1,2` that expects `3` and a line with a tab stand in front: a line behind
them that expects an unknown kind is line 4, and so is one that expects `-02.0`. -/
theorem read_line_by_line_instances :
    read (['#', '\n', '1', ',', '2', ',', ' ', '3', '\r', '\n', '\t', '\n'] ++
      ['+', ',', '!', 'o', 'h', ' ']) = .error ⟨4, .badKind ['o', 'h']⟩ ∧
    read (['#', '\n', '1', ',', '2', ',', ' ', '3', '\r', '\n', '\t', '\n'] ++
      ['1', '-', '3', ',', '-', '0', '2', '.', '0']) =
        .ok [⟨2, ['1', ',', '2'], .value ⟨3, 0⟩⟩, ⟨4, ['1', '-', '3'], .value ⟨-20, 1⟩⟩] := by
  have hend : ['#', '\n', '1', ',', '2', ',', ' ', '3', '\r', '\n', '\t', '\n'].getLast? =
      some '\n' := rfl
  have hfront : read ['#', '\n', '1', ',', '2', ',', ' ', '3', '\r', '\n', '\t', '\n'] =
      .ok [⟨2, ['1', ',', '2'], .value ⟨3, 0⟩⟩] := by
    decide +kernel
  constructor
  · exact ((read_line_by_line _).2.2.2 (.inr hend) _ |>.2 _ hfront).1 ⟨1, .badKind ['o', 'h']⟩
      (by decide +kernel)
  · exact ((read_line_by_line _).2.2.2 (.inr hend) _ |>.2 _ hfront).2
      [⟨1, ['1', '-', '3'], .value ⟨-20, 1⟩⟩] (by decide +kernel)

end CaseFile
end ExactCalculator
