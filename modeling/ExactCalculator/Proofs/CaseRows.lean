import ExactCalculator.Proofs.CaseLine

/-!
Case files that are made of texts and values. Lines that hold no line feed and do not end in a
carriage return are cut again as they were put together (`Text.lines_ofLines`), and a line of a text
of tokens with a decimal behind a comma is read as the case of that text and that decimal, whatever
the decimal is (`CaseFile.read_of_lines`).
-/
namespace ExactCalculator

namespace Text

/-- The text of these lines, each of them ended by a line feed. -/
def ofLines (ls : List Text) : Text := ls.flatMap fun l => l ++ ['\n']

/-- A character that is no line end, nor the first one of a line end, begins the first line. -/
theorem lines_cons {c : Char} {t l : Text} {ls : List Text} (hfeed : c ≠ '\n')
    (hreturn : c = '\r' → t.head? ≠ some '\n') (ht : t.lines = l :: ls) :
    lines (c :: t) = (c :: l) :: ls := by
  rw [lines, ht]
  · exact hfeed
  · rintro rest rfl rfl
    exact hreturn rfl rfl

theorem lines_append_feed {l : Text} (hfeed : '\n' ∉ l) (hreturn : l.getLast? ≠ some '\r')
    (t : Text) : lines (l ++ '\n' :: t) = l :: lines t := by
  induction l with
  | nil => exact lines_feed t
  | cons c l ih =>
    rw [List.mem_cons, not_or] at hfeed
    cases l with
    | nil =>
      refine lines_cons (Ne.symm hfeed.1) ?_ (lines_feed t)
      rintro rfl
      exact absurd rfl hreturn
    | cons d l =>
      rw [List.getLast?_cons_cons] at hreturn
      refine lines_cons (Ne.symm hfeed.1) (fun _ hd => ?_) (ih hfeed.2 hreturn)
      exact hfeed.2 (List.mem_of_head? hd)

theorem lines_ofLines {ls : List Text} (h : ∀ l ∈ ls, '\n' ∉ l ∧ l.getLast? ≠ some '\r') :
    (ofLines ls).lines = ls := by
  induction ls with
  | nil => exact lines_nil
  | cons l ls ih =>
    rw [List.forall_mem_cons] at h
    have happend : ofLines (l :: ls) = l ++ '\n' :: ofLines ls := by simp [ofLines]
    rw [happend, lines_append_feed h.1.1 h.1.2, ih h.2]

/-- The line of a case file that expects this value of a text. -/
def caseLine (p : Text × Decimal) : Text := p.1 ++ ',' :: (toString p.2).toList

variable {p : Text × Decimal}

/-- The written form of a decimal has neither blanks nor commas. -/
theorem plain_of_mem_toString {d : Decimal} {c : Char} (h : c ∈ (toString d).toList) :
    isBlank c = false ∧ c ≠ ',' :=
  Expected.mem_render (x := .value d) h

/-- It stays a line of its own in a file. -/
theorem caseLine_isLine (h : p.1.Lexes) :
    '\n' ∉ caseLine p ∧ (caseLine p).getLast? ≠ some '\r' := by
  have hblank : ∀ c ∈ ',' :: (toString p.2).toList, isBlank c = false := by
    rw [List.forall_mem_cons]
    exact ⟨by decide, fun c hc => (plain_of_mem_toString hc).1⟩
  constructor
  · rw [caseLine, List.mem_append, not_or]
    exact ⟨h.feed_not_mem, fun hmem => absurd (hblank _ hmem) (by decide)⟩
  · rw [caseLine, List.getLast?_append_of_ne_nil _ (List.cons_ne_nil _ _)]
    exact fun hlast => absurd (hblank _ (List.mem_of_getLast? hlast)) (by decide)

theorem lines_ofLines_caseLine {ps : List (Text × Decimal)} (h : ∀ p ∈ ps, p.1.Lexes) :
    (ofLines (ps.map caseLine)).lines = ps.map caseLine := by
  refine lines_ofLines fun l hl => ?_
  obtain ⟨p, hp, rfl⟩ := List.mem_map.mp hl
  exact caseLine_isLine (h p hp)

/-- Cut at its last comma, it gives back the text and the decimal. -/
theorem readCase_caseLine (p : Text × Decimal) :
    (caseLine p).readCase = .ok (p.1, .value p.2) := by
  have hcomma : ',' ∉ (toString p.2).toList := fun hc => (plain_of_mem_toString hc).2 rfl
  have htrim : trim (toString p.2).toList = (toString p.2).toList :=
    trim_of_no_blank fun c hc => (plain_of_mem_toString hc).1
  have hread : Expected.ofText (toString p.2).toList = .ok (.value p.2) :=
    Expected.ofText_render (.value p.2)
  rw [caseLine, readCase_append _ hcomma, htrim, hread, ok_bind]

end Text

def Case.ofPair (p : (Text × Decimal) × Nat) : Case := ⟨p.2, p.1.1, .value p.1.2⟩

namespace CaseFile

theorem readFrom_caseLine {ps : List (Text × Decimal)} (h : ∀ p ∈ ps, p.1.Lexes) (line : Nat) :
    readFrom line (ps.map Text.caseLine) = .ok ((ps.zipIdx line).map Case.ofPair) := by
  induction ps generalizing line with
  | nil => rfl
  | cons p ps ih =>
    rw [List.forall_mem_cons] at h
    have hcase : (Text.caseLine p).isSkipped = false :=
      Text.isSkipped_append h.1.find?_not_isBlank_ne _
    rw [List.map_cons, readFrom, hcase, Text.readCase_caseLine]
    simp [ih h.2, Case.ofPair]

/-- A file of such lines is read as their cases. -/
theorem read_of_lines {t : Text} {ps : List (Text × Decimal)} (h : ∀ p ∈ ps, p.1.Lexes)
    (ht : t.lines = ps.map Text.caseLine) :
    read t = .ok ((ps.zipIdx 1).map Case.ofPair) := by
  rw [read, ht, readFrom_caseLine h]

end CaseFile
end ExactCalculator
