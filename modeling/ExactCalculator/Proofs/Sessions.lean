import ExactCalculator.Proofs.CaseRows
import ExactCalculator.Session

/-!
What the sessions over a file come to, and how they agree. A session that runs a file prints the
values of its lines up to the first that has none, and blank lines only count (`Session.run_ends`).
What it printed, written behind the lines as what is expected of them, is a case file that comes out
all correct; and with one value changed, that line alone does not (`run_and_check`).
-/
namespace ExactCalculator

namespace Session

structure Values (ls : List Text) (ps : List (Text × Decimal)) : Prop where
  lines : ps.map Prod.fst = ls.filter fun l => !l.trim.isEmpty
  evaluated : ∀ p ∈ ps, evaluate p.1 = .ok p.2

inductive Ends (ls : List Text) : Transcript → Prop
  | valued {ps : List (Text × Decimal)} (h : Values ls ps) :
    Ends ls ⟨ps.map fun p => toString p.2, none, 0⟩
  | faulty {before behind : List Text} {l : Text} {ps : List (Text × Decimal)} {f : Fault}
    (hls : ls = before ++ l :: behind) (h : Values before ps) (hl : l.trim ≠ [])
    (hf : evaluate l = .error f) :
    Ends ls ⟨ps.map fun p => toString p.2, some (.fault (before.length + 1) f), 65⟩

variable {ls : List Text} {ps : List (Text × Decimal)} {l : Text}

theorem Values.blank (h : Values ls ps) (hl : l.trim = []) : Values (ls ++ [l]) ps := by
  refine ⟨?_, h.evaluated⟩
  rw [List.filter_append, h.lines, List.filter_cons_of_neg (by simp [hl])]
  simp

theorem Values.concat (h : Values ls ps) (hl : l.trim ≠ []) {v : Decimal}
    (hv : evaluate l = .ok v) : Values (ls ++ [l]) (ps ++ [(l, v)]) := by
  constructor
  · rw [List.filter_append, List.map_append, h.lines, List.filter_cons_of_pos (by simpa using hl)]
    simp
  · rw [List.forall_mem_append, List.forall_mem_singleton]
    exact ⟨h.evaluated, hv⟩

/-- The lines are texts of tokens, whatever is expected of them. -/
theorem Values.lexes (h : Values ls ps) {qs : List (Text × Decimal)}
    (hqs : qs.map Prod.fst = ps.map Prod.fst) : ∀ q ∈ qs, q.1.Lexes := by
  intro q hq
  have hmem : q.1 ∈ qs.map Prod.fst := List.mem_map_of_mem hq
  rw [hqs] at hmem
  obtain ⟨p, hp, heq⟩ := List.mem_map.mp hmem
  rw [← heq]
  exact Text.lexes_of_evaluate (h.evaluated p hp)

/-- The values are determined by the lines. -/
theorem Values.unique {qs : List (Text × Decimal)} (h : Values ls ps) (h' : Values ls qs) :
    ps = qs := by
  obtain ⟨hlines, hps⟩ := h
  obtain ⟨hlines', hqs⟩ := h'
  rw [← hlines'] at hlines
  clear hlines'
  induction ps generalizing qs with
  | nil => exact (List.map_eq_nil_iff.mp hlines.symm).symm
  | cons p ps ih =>
    cases qs with
    | nil => cases hlines
    | cons q qs =>
      obtain ⟨hfirst, hrest⟩ := List.cons_eq_cons.mp hlines
      rw [List.forall_mem_cons] at hps hqs
      have hvalue : evaluate p.1 = .ok q.2 := by
        rw [hfirst]
        exact hqs.1
      rw [hps.1] at hvalue
      rw [ih hrest hps.2 hqs.2, Prod.ext hfirst (Except.ok.inj hvalue)]

/-- Whatever lines come behind those that have values, the session ends in one of these ways. -/
theorem runFrom_ends (rest : List Text) (h : Values ls ps) :
    Ends (ls ++ rest)
      ((runFrom (ls.length + 1) rest).after (ps.map fun p => toString p.2)) := by
  induction rest generalizing ls ps with
  | nil =>
    rw [List.append_nil]
    simpa [runFrom, Transcript.after, Transcript.done] using Ends.valued h
  | cons l rest ih =>
    rw [List.append_cons]
    by_cases hl : l.trim = []
    · rw [runFrom_blank hl]
      simpa using ih (h.blank hl)
    · cases hv : evaluate l with
      | ok v =>
        rw [runFrom_value hl hv]
        simpa [Transcript.after] using ih (h.concat hl hv)
      | error f =>
        rw [runFrom_fault hl hv, ← List.append_cons]
        simpa [Transcript.after, Transcript.failed] using Ends.faulty rfl h hl hv

/-- Running a file ends in one of these ways. -/
theorem run_ends (t : Text) : Ends t.lines (run t) := by
  have hnone : Values [] [] := ⟨rfl, by simp⟩
  exact runFrom_ends t.lines hnone

/-- With status zero all lines that are not blank have values, and these are printed. -/
theorem values_of_run (t : Text) (h : (run t).status = 0) :
    ∃ ps, Values t.lines ps ∧ (run t).output = ps.map fun p => toString p.2 := by
  have hends := run_ends t
  generalize run t = r at h hends
  cases hends with
  | valued hvalues => exact ⟨_, hvalues, rfl⟩
  | faulty => cases h

end Session

namespace Case

theorem check_of_eq {l : Text} {v w : Decimal} (hv : evaluate l = .ok v)
    (h : w.toRat = v.toRat) (line : Nat) : check ⟨line, l, .value w⟩ = .correct := by
  rw [check, Expected.judge_eq_correct_iff]
  exact .inl ⟨v, w, hv, rfl, h⟩

/-- Another number is not correct, and is told together with the value that came out. -/
theorem check_of_ne {l : Text} {v w : Decimal} (hv : evaluate l = .ok v)
    (h : w.toRat ≠ v.toRat) (line : Nat) : check ⟨line, l, .value w⟩ = .wrongValue v := by
  have hsame : ¬ v.sameValue w = true := by
    rw [Decimal.sameValue_iff_toRat]
    exact Ne.symm h
  rw [check, hv]
  simp [Expected.judge, hsame]

theorem describe_wrongValue_ne (c : Case) (v : Decimal) :
    c.describe (.wrongValue v) ≠ "CORRECT!" := by
  obtain ⟨claim, hdescribe⟩ :
      ∃ claim, c.describe (.wrongValue v) = claim ++ ", but was " ++ toString v := ⟨_, rfl⟩
  have hmem : 'b' ∈ (claim ++ ", but was " ++ toString v).toList := by
    rw [String.toList_append, String.toList_append, List.mem_append, List.mem_append]
    exact .inl (.inr (by decide))
  intro h
  rw [← hdescribe, h] at hmem
  exact absurd hmem (by decide)

theorem check_ofPair {ps : List (Text × Decimal)} (h : ∀ p ∈ ps, evaluate p.1 = .ok p.2)
    (line : Nat) : ∀ c ∈ (ps.zipIdx line).map ofPair, c.check = .correct := by
  intro c hc
  obtain ⟨p, hp, rfl⟩ := List.mem_map.mp hc
  exact check_of_eq (h p.1 (List.fst_mem_of_mem_zipIdx hp)) rfl p.2

/-- Correct cases are told as such, one line for each. -/
theorem describe_of_correct {cases : List Case} (h : ∀ c ∈ cases, c.check = .correct) :
    cases.map (fun c => c.describe c.check) = List.replicate cases.length "CORRECT!" := by
  rw [List.map_eq_replicate_iff]
  intro c hc
  rw [h c hc]
  rfl

theorem countP_of_correct {cases : List Case} (h : ∀ c ∈ cases, c.check = .correct) :
    cases.countP (fun c => c.check.isCorrect) = cases.length := by
  rw [List.countP_eq_length]
  intro c hc
  rw [h c hc]
  rfl

end Case

namespace Session

variable {t : Text} {ls : List Text} {ps : List (Text × Decimal)} {l : Text}

/-- When all cases are correct, a session that checks them says so and ends well. -/
theorem check_of_correct {cases : List Case} (hread : CaseFile.read t = .ok cases)
    (h : ∀ c ∈ cases, c.check = .correct) :
    check t = ⟨List.replicate cases.length "CORRECT!" ++
      [s!"{cases.length}/{cases.length} passed"], none, 0⟩ := by
  simp only [check, hread, Case.describe_of_correct h, Case.countP_of_correct h, if_true]

/-- When one case is not correct, it is one line that says so, and one case fewer is counted. -/
theorem check_of_one_incorrect {front back : List Case} {c : Case}
    (hread : CaseFile.read t = .ok (front ++ c :: back))
    (hfront : ∀ c ∈ front, c.check = .correct) (hback : ∀ c ∈ back, c.check = .correct)
    (hc : c.check.isCorrect = false) :
    check t = ⟨List.replicate front.length "CORRECT!" ++ c.describe c.check ::
      (List.replicate back.length "CORRECT!" ++
        [s!"{front.length + back.length}/{front.length + back.length + 1} passed"]), none, 1⟩ := by
  have hcount : (front ++ c :: back).countP (fun c => c.check.isCorrect) =
      front.length + back.length := by
    rw [List.countP_append, List.countP_cons_of_neg (by simp [hc]), Case.countP_of_correct hfront,
      Case.countP_of_correct hback]
  have hlength : (front ++ c :: back).length = front.length + back.length + 1 := by
    rw [List.length_append, List.length_cons]
    omega
  simp only [check, hread, hcount, hlength, List.map_append, List.map_cons,
    Case.describe_of_correct hfront, Case.describe_of_correct hback]
  simp

/-- What was printed is what comes out. -/
theorem Values.check (h : Values ls ps) (ht : t.lines = ps.map Text.caseLine) :
    Session.check t = ⟨List.replicate ps.length "CORRECT!" ++
      [s!"{ps.length}/{ps.length} passed"], none, 0⟩ := by
  have hread := CaseFile.read_of_lines (h.lexes rfl) ht
  rw [check_of_correct hread (Case.check_ofPair h.evaluated 1), List.length_map,
    List.length_zipIdx]

/-- With another number in one line, that line alone is not correct. -/
theorem Values.check_changed {front back : List (Text × Decimal)} {v w : Decimal}
    (h : Values ls (front ++ (l, v) :: back)) (hne : w.toRat ≠ v.toRat)
    (ht : t.lines = (front ++ (l, w) :: back).map Text.caseLine) :
    ∃ mismatch, mismatch ≠ "CORRECT!" ∧
      Session.check t = ⟨List.replicate front.length "CORRECT!" ++ mismatch ::
        (List.replicate back.length "CORRECT!" ++
          [s!"{front.length + back.length}/{front.length + back.length + 1} passed"]),
        none, 1⟩ := by
  have hlexes : ∀ q ∈ front ++ (l, w) :: back, q.1.Lexes := h.lexes (by simp)
  have hread := CaseFile.read_of_lines hlexes ht
  have hevaluated := h.evaluated
  rw [List.forall_mem_append, List.forall_mem_cons] at hevaluated
  obtain ⟨hfront, hv, hback⟩ := hevaluated
  have hwrong := Case.check_of_ne hv hne (1 + front.length)
  rw [List.zipIdx_append, List.zipIdx_cons, List.map_append, List.map_cons] at hread
  have hcheck := check_of_one_incorrect hread (Case.check_ofPair hfront _)
    (Case.check_ofPair hback _) (by rw [Case.ofPair, hwrong]; rfl)
  refine ⟨_, Case.describe_wrongValue_ne ⟨1 + front.length, l, .value w⟩ v, ?_⟩
  rw [hcheck, Case.ofPair, hwrong]
  simp only [List.length_map, List.length_zipIdx]

end Session

/-- Running a file prints the values of its lines that are not blank, in their order, up to the
first that has none; that ends the session with status 65 and a report that begins with the number
of the line among all lines and with the message. When all have values, any file that expects these
values of these lines comes out all correct. With one value changed into another number, one line is
not correct, all others are, and the status is 1. There are such files whatever is expected. -/
theorem run_and_check :
    (∀ t : Text, Session.Ends t.lines (Session.run t)) ∧
    (∀ line f, (Complaint.fault line f).report.head? =
      some s!"[line {line}] Error: {f.message}") ∧
    ∀ t : Text, (Session.run t).status = 0 → ∃ ps, Session.Values t.lines ps ∧
      (Session.run t).output = ps.map (fun p => toString p.2) ∧
      (∀ u : Text, u.lines = ps.map Text.caseLine →
        Session.check u = ⟨List.replicate ps.length "CORRECT!" ++
          [s!"{ps.length}/{ps.length} passed"], none, 0⟩) ∧
      (∀ front l v back w, ps = front ++ (l, v) :: back → w.toRat ≠ v.toRat →
        ∀ u : Text, u.lines = (front ++ (l, w) :: back).map Text.caseLine →
          ∃ mismatch, mismatch ≠ "CORRECT!" ∧
            Session.check u = ⟨List.replicate front.length "CORRECT!" ++ mismatch ::
              (List.replicate back.length "CORRECT!" ++
                [s!"{ps.length - 1}/{ps.length} passed"]), none, 1⟩) ∧
      ∀ qs : List (Text × Decimal), qs.map Prod.fst = ps.map Prod.fst →
        (Text.ofLines (qs.map Text.caseLine)).lines = qs.map Text.caseLine := by
  refine ⟨Session.run_ends, fun _ _ => rfl, fun t ht => ?_⟩
  obtain ⟨ps, hvalues, houtput⟩ := Session.values_of_run t ht
  refine ⟨ps, hvalues, houtput, fun u hu => hvalues.check hu, ?_, fun qs hqs => ?_⟩
  · intro front l v back w hps hne u hu
    have hlength : ps.length = front.length + back.length + 1 := by
      rw [hps, List.length_append, List.length_cons]
      omega
    rw [hlength, Nat.add_sub_cancel]
    rw [hps] at hvalues
    exact hvalues.check_changed hne hu
  · exact Text.lines_ofLines_caseLine (hvalues.lexes hqs)

/-- The values `2` and `3.5` that are printed of `1+1` and of `7/2`, with a blank line between them,
are found correct, and `3` in place of the second is not. -/
theorem run_and_check_instances :
    Session.check (Text.ofLines [['1', '+', '1', ',', '2'], ['7', '/', '2', ',', '3', '.', '5']]) =
      ⟨["CORRECT!", "CORRECT!", "2/2 passed"], none, 0⟩ ∧
    ∃ mismatch, mismatch ≠ "CORRECT!" ∧
      Session.check (Text.ofLines [['1', '+', '1', ',', '2'], ['7', '/', '2', ',', '3']]) =
        ⟨["CORRECT!", mismatch, "1/2 passed"], none, 1⟩ := by
  obtain ⟨ps, hvalues, -, hall, hone, hfiles⟩ := run_and_check.2.2
    (Text.ofLines [['1', '+', '1'], [' '], ['7', '/', '2']]) (by decide +kernel)
  have hps : ps = [(['1', '+', '1'], ⟨2, 0⟩), (['7', '/', '2'], ⟨35, 1⟩)] :=
    hvalues.unique ⟨by decide +kernel, by decide +kernel⟩
  subst hps
  refine ⟨hall _ (by decide +kernel), ?_⟩
  exact hone [(['1', '+', '1'], ⟨2, 0⟩)] ['7', '/', '2'] ⟨35, 1⟩ [] ⟨3, 0⟩ rfl
    (by norm_num [Decimal.toRat]) _ (by decide +kernel)

end ExactCalculator
