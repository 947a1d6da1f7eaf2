import ExactCalculator.Proofs.Sessions

/-!
Blank lines in sessions. A session that runs a file passes over its blank lines, one that shows
tokens does not. Of the blank characters only the space stands between tokens, so as long as blank
lines are made of spaces it is as if they were passed over; the first one that is not ends the
session as a fault (`tokenize_reads_every_line`, `tokenize_fails_on_tab`).
-/
namespace ExactCalculator

namespace Text

theorem itemsAt_of_spaces {l : Text} (h : ∀ c ∈ l, c = ' ') (offset : Nat) :
    itemsAt offset l = [] := by
  induction l generalizing offset with
  | nil => exact itemsAt_nil offset
  | cons c l ih =>
    obtain ⟨rfl, hl⟩ := List.forall_mem_cons.mp h
    rw [itemsAt_space, ih hl]

/-- A blank line has no fault when it is made of spaces, and then it has no tokens either. -/
theorem lexes_iff_of_blank {l : Text} (h : l.trim = []) : l.Lexes ↔ ∀ c ∈ l, c = ' ' := by
  constructor
  · intro hlexes c hc
    exact eq_space_of_isBlank (mem_alphabet hlexes c hc) ((trim_eq_nil_iff l).mp h c hc)
  · intro hspaces i hi
    rw [items_eq_itemsAt, itemsAt_of_spaces hspaces] at hi
    cases hi

end Text

theorem Transcript.after_inj {output : List String} {s t : Transcript} :
    s.after output = t.after output ↔ s = t := by
  cases s
  cases t
  simp [after]

namespace Session

def showTokens : List (Text × Nat) → Transcript
  | [] => .done ["EOF  null"]
  | (t, line) :: ps =>
    match describeItems t.items with
    | (output, none) => (showTokens ps).after output
    | (output, some f) => (Transcript.failed line f).after output

/-- In front of the first line with a fault, and there itself, blank lines are made of spaces. -/
def SpacedUpToFault (ls : List Text) : Prop :=
  ∀ front l behind, ls = front ++ l :: behind → (∀ m ∈ front, m.Lexes) → l.trim = [] →
    ∀ c ∈ l, c = ' '

theorem describeItems_snd_eq_none_iff (items : List Item) :
    (describeItems items).2 = none ↔ ∀ i ∈ items, ∃ token, i.token = .ok token := by
  induction items with
  | nil => simp [describeItems]
  | cons i items ih =>
    rw [List.forall_mem_cons, ← ih]
    cases htoken : i.token with
    | ok token => simp [describeItems, htoken]
    | error f => simp [describeItems, htoken]

variable {l : Text} {n : Nat} {ps : List (Text × Nat)} {ls : List Text}

theorem showTokens_lexes (h : l.Lexes) (n : Nat) (ps : List (Text × Nat)) :
    showTokens ((l, n) :: ps) = (showTokens ps).after (describeItems l.items).1 := by
  have hnone := (describeItems_snd_eq_none_iff l.items).mpr h
  rw [showTokens]
  cases hitems : describeItems l.items with
  | mk output fault? =>
    rw [hitems] at hnone
    obtain rfl : fault? = none := hnone
    rfl

/-- The first line with a fault ends the session, whatever the lines below are. -/
theorem showTokens_faulty (h : ¬ l.Lexes) (n : Nat) :
    ∃ f, ∀ ps, showTokens ((l, n) :: ps) =
      (Transcript.failed n f).after (describeItems l.items).1 := by
  have hsome := (describeItems_snd_eq_none_iff l.items).not.mpr h
  cases hitems : describeItems l.items with
  | mk output fault? =>
    rw [hitems] at hsome
    obtain ⟨f, rfl⟩ := Option.ne_none_iff_exists'.mp hsome
    exact ⟨f, fun ps => by rw [showTokens, hitems]⟩

theorem showTokens_spaces (h : ∀ c ∈ l, c = ' ') (n : Nat) (ps : List (Text × Nat)) :
    showTokens ((l, n) :: ps) = showTokens ps := by
  rw [showTokens, Text.items_eq_itemsAt, Text.itemsAt_of_spaces h]
  rfl

theorem tokenizeFrom_eq_showTokens (line : Nat) (ls : List Text) :
    tokenizeFrom line ls = showTokens (ls.zipIdx line) := by
  induction ls generalizing line with
  | nil => rfl
  | cons l ls ih =>
    rw [List.zipIdx_cons, tokenizeFrom, ih]
    rfl

/-- A session ends well when all of its lines are texts of tokens. -/
theorem status_showTokens_iff (ps : List (Text × Nat)) :
    (showTokens ps).status = 0 ↔ ∀ l ∈ ps.map Prod.fst, l.Lexes := by
  induction ps with
  | nil => simp [showTokens, Transcript.done]
  | cons p ps ih =>
    obtain ⟨l, n⟩ := p
    rw [List.map_cons, List.forall_mem_cons, ← ih]
    by_cases hl : l.Lexes
    · rw [showTokens_lexes hl]
      exact (and_iff_right hl).symm
    · obtain ⟨f, hf⟩ := showTokens_faulty hl n
      rw [hf]
      exact iff_of_false (by simp [Transcript.failed, Transcript.after]) fun h => hl h.1

/-- Only lines that are shown are complained of. -/
theorem complaint_showTokens {f : Fault} (h : (showTokens ps).complaint? = some (.fault n f)) :
    ∃ p ∈ ps, p.2 = n := by
  induction ps with
  | nil => cases h
  | cons p ps ih =>
    obtain ⟨l, m⟩ := p
    by_cases hl : l.Lexes
    · rw [showTokens_lexes hl] at h
      obtain ⟨p, hp, hn⟩ := ih h
      exact ⟨p, List.mem_cons_of_mem _ hp, hn⟩
    · obtain ⟨g, hg⟩ := showTokens_faulty hl m
      rw [hg] at h
      cases h
      exact ⟨_, List.mem_cons_self, rfl⟩

theorem spacedUpToFault_cons :
    SpacedUpToFault (l :: ls) ↔
      (l.trim = [] → ∀ c ∈ l, c = ' ') ∧ (l.Lexes → SpacedUpToFault ls) := by
  constructor
  · intro h
    refine ⟨h [] l ls rfl (by simp), fun hl front m behind hls hfront => ?_⟩
    exact h (l :: front) m behind (by rw [hls, List.cons_append])
      (List.forall_mem_cons.mpr ⟨hl, hfront⟩)
  · rintro ⟨hfirst, hrest⟩ front m behind hls hfront
    cases front with
    | nil =>
      cases hls
      exact hfirst
    | cons k front =>
      cases hls
      rw [List.forall_mem_cons] at hfront
      exact hrest hfront.1 front m behind rfl hfront.2

/-- The blank lines can be left out exactly when none of them is the first to have a fault. -/
theorem showTokens_filter_iff (line : Nat) (ls : List Text) :
    showTokens (ls.zipIdx line) =
        showTokens ((ls.zipIdx line).filter fun p => !p.1.trim.isEmpty) ↔
      SpacedUpToFault ls := by
  induction ls generalizing line with
  | nil => simp [SpacedUpToFault]
  | cons l ls ih =>
    rw [List.zipIdx_cons, spacedUpToFault_cons]
    by_cases hblank : l.trim = []
    · rw [List.filter_cons_of_neg (by simp [hblank])]
      by_cases hspaces : ∀ c ∈ l, c = ' '
      · have hlexes := (Text.lexes_iff_of_blank hblank).mpr hspaces
        rw [showTokens_spaces hspaces, ih]
        exact ⟨fun h => ⟨fun _ => hspaces, fun _ => h⟩, fun h => h.2 hlexes⟩
      · -- The fault is told of this line, and the lines that are left have other numbers.
        obtain ⟨f, hf⟩ := showTokens_faulty ((Text.lexes_iff_of_blank hblank).not.mpr hspaces) line
        rw [hf]
        refine iff_of_false (fun h => ?_) fun h => hspaces (h.1 hblank)
        have hcomplaint := congrArg Transcript.complaint? h
        obtain ⟨p, hp, hline⟩ := complaint_showTokens hcomplaint.symm
        have := List.le_snd_of_mem_zipIdx (List.mem_of_mem_filter hp)
        omega
    · rw [List.filter_cons_of_pos (by simpa using hblank)]
      by_cases hlexes : l.Lexes
      · rw [showTokens_lexes hlexes, showTokens_lexes hlexes, Transcript.after_inj, ih]
        exact ⟨fun h => ⟨fun hnil => absurd hnil hblank, fun _ => h⟩, fun h => h.2 hlexes⟩
      · obtain ⟨f, hf⟩ := showTokens_faulty hlexes line
        rw [hf, hf]
        exact iff_of_true rfl ⟨fun hnil => absurd hnil hblank, fun h => absurd h hlexes⟩

/-- Where all lines that are not blank have values, only blank lines can have faults. -/
theorem lexes_of_run {t : Text} (h : (run t).status = 0) {l : Text} (hl : l ∈ t.lines)
    (hblank : l.trim ≠ []) : l.Lexes := by
  obtain ⟨ps, hvalues, -⟩ := values_of_run t h
  have hmem : l ∈ ps.map Prod.fst := by
    rw [hvalues.lines]
    exact List.mem_filter.mpr ⟨hl, by simpa using hblank⟩
  obtain ⟨p, hp, rfl⟩ := List.mem_map.mp hmem
  exact hvalues.lexes rfl p hp

end Session

/-- A session that shows tokens lexes every line of a file in order, blank or not, up to the first
fault, which is told with the number of its line; with no fault it ends well. The same comes of the
lines that are not blank exactly when, up to the first fault, blank lines are made of spaces; and of
a file that can be run with status 0 the tokens are shown with status 0 exactly when all of its
blank lines are made of spaces. -/
theorem tokenize_reads_every_line (t : Text) :
    Session.tokenize t = Session.showTokens (t.lines.zipIdx 1) ∧
    ((Session.tokenize t).status = 0 ↔ ∀ l ∈ t.lines, l.Lexes) ∧
    (Session.tokenize t =
        Session.showTokens ((t.lines.zipIdx 1).filter fun p => !p.1.trim.isEmpty) ↔
      Session.SpacedUpToFault t.lines) ∧
    ((Session.run t).status = 0 →
      ((Session.tokenize t).status = 0 ↔ ∀ l ∈ t.lines, l.trim = [] → ∀ c ∈ l, c = ' ')) := by
  have hshow : Session.tokenize t = Session.showTokens (t.lines.zipIdx 1) :=
    Session.tokenizeFrom_eq_showTokens 1 t.lines
  have hstatus : (Session.tokenize t).status = 0 ↔ ∀ l ∈ t.lines, l.Lexes := by
    rw [hshow, Session.status_showTokens_iff, List.zipIdx_map_fst]
  refine ⟨hshow, hstatus, ?_, fun hrun => ?_⟩
  · rw [hshow]
    exact Session.showTokens_filter_iff 1 t.lines
  · rw [hstatus]
    refine forall₂_congr fun l hl => ?_
    by_cases hblank : l.trim = []
    · rw [Text.lexes_iff_of_blank hblank]
      exact ⟨fun h _ => h, fun h => h hblank⟩
    · exact iff_of_true (Session.lexes_of_run hrun hl hblank) fun h => absurd h hblank

/-- A space between two lines does no harm: the file can be run, and its tokens are shown as if the
line in the middle were not there. -/
theorem tokenize_reads_every_line_instances :
    (Session.tokenize ['1', '\n', ' ', '\n', '5']).status = 0 ∧
    Session.tokenize ['1', '\n', ' ', '\n', '5'] =
      Session.showTokens [(['1'], 1), (['5'], 3)] := by
  have hlines : Text.lines ['1', '\n', ' ', '\n', '5'] = [['1'], [' '], ['5']] := by
    decide +kernel
  have hspaces : ∀ l ∈ Text.lines ['1', '\n', ' ', '\n', '5'], l.trim = [] →
      ∀ c ∈ l, c = ' ' := by
    intro l hl hblank
    rw [hlines] at hl
    obtain rfl | rfl | rfl : l = ['1'] ∨ l = [' '] ∨ l = ['5'] := by simpa using hl
    · exact absurd hblank (by decide)
    · simp
    · exact absurd hblank (by decide)
  constructor
  · exact ((tokenize_reads_every_line _).2.2.2 (by decide +kernel)).mpr hspaces
  · have hspaced : Session.SpacedUpToFault (Text.lines ['1', '\n', ' ', '\n', '5']) := by
      intro front l behind hls _
      refine hspaces l ?_
      rw [hls]
      exact List.mem_append_right _ List.mem_cons_self
    rw [(tokenize_reads_every_line _).2.2.1.mpr hspaced, hlines]
    rfl

/-- A line that is a tab is passed over when the file is run and would be when only lines that are
not blank were lexed, but it ends the showing of tokens with a fault and status 65. -/
theorem tokenize_fails_on_tab :
    (Session.run ['\t']).status = 0 ∧
    Session.tokenize ['\t'] = .failed 1 ⟨.invalidCharacter '\t', ⟨0, 1⟩⟩ ∧
    Session.showTokens ((Text.lines ['\t']).zipIdx 1 |>.filter fun p => !p.1.trim.isEmpty) =
      .done ["EOF  null"] := by
  decide +kernel

end ExactCalculator
