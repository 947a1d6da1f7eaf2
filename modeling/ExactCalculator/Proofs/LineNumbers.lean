import ExactCalculator.Proofs.Alphabet
import ExactCalculator.Proofs.Readings
import ExactCalculator.Proofs.Run.Blame

/-!
The lines of faults. A line feed is an item of its own and no token, so the line of a fault is found
from the items in front of it, and the lines of the faults of a text never go back. A run ends at
the first line feed at the latest, and what it blames begins no further on, so its own fault is
always on the first line (`line_numbers`).
-/
namespace ExactCalculator

def Item.isFeed (i : Item) : Bool := i.lexeme == .mark '\n'

/-- The fault of a line feed as a stray character. -/
def Reading.isFeed (r : Reading) : Bool :=
  match r.outcome with
  | .ok _ => false
  | .error f => f.cause == .invalidCharacter '\n'

/-- A line feed is in no longer lexeme. -/
theorem Lexeme.count_feed {l : Lexeme} (hl : ∀ w, l = .run w → ∀ c ∈ w, isNumeral c = true)
    (offset : Nat) : l.text.count '\n' = if (Item.mk l offset).isFeed then 1 else 0 := by
  cases l with
  | mark c => simp [text, Item.isFeed, List.count_singleton]
  | run w =>
    have hnone : '\n' ∉ w := fun hmem => absurd (hl w rfl _ hmem) (by decide)
    exact List.count_eq_zero.mpr hnone

namespace Text

theorem mem_of_mem_takeBytes {n : Nat} {t : Text} {c : Char} (h : c ∈ takeBytes n t) : c ∈ t := by
  fun_induction takeBytes n t with
  | case1 => exact h
  | case2 n d t hsize ih =>
    obtain rfl | h := List.mem_cons.mp h
    · exact List.mem_cons_self
    · exact List.mem_cons_of_mem d (ih h)
  | case3 => simp at h

/-- A text without a line feed is on its first line everywhere. -/
theorem lineAt_of_feed_not_mem {t : Text} (h : '\n' ∉ t) (byte : Nat) : lineAt t byte = 1 := by
  rw [lineAt, List.count_eq_zero.mpr fun hmem => h (mem_of_mem_takeBytes hmem)]

/-- In front of an item stand as many line feeds as there are line feeds among the items. -/
theorem exists_before_item {t : Text} {offset : Nat} {front behind : List Item} {i : Item}
    (h : itemsAt offset t = front ++ i :: behind) :
    ∃ before rest, t = before ++ rest ∧ i.offset = offset + byteLength before ∧
      before.count '\n' = front.countP Item.isFeed := by
  induction t using lexemeInduction generalizing offset front with
  | nil => simp at h
  | space t ih =>
    rw [itemsAt_space] at h
    obtain ⟨before, rest, rfl, hoffset, hcount⟩ := ih h
    refine ⟨' ' :: before, rest, rfl, ?_, ?_⟩
    · rw [hoffset, byteLength_cons, show ' '.utf8Size = 1 from rfl, Nat.add_assoc]
    · rw [List.count_cons_of_ne (by decide), hcount]
  | lexeme l t hitems hl ih =>
    rw [hitems] at h
    cases front with
    | nil =>
      cases h
      exact ⟨[], _, rfl, rfl, rfl⟩
    | cons first front =>
      rw [List.cons_append, List.cons.injEq] at h
      obtain ⟨rfl, h⟩ := h
      obtain ⟨before, rest, rfl, hoffset, hcount⟩ := ih h
      refine ⟨l.text ++ before, rest, (List.append_assoc ..).symm, ?_, ?_⟩
      · rw [hoffset, byteLength_append, Nat.add_assoc]
      · rw [List.count_append, Lexeme.count_feed hl offset, hcount, List.countP_cons, Nat.add_comm]

/-- The line of a faulty item is counted from the line feeds among the items in front of it. -/
theorem lineIn_of_items {t : Text} {front behind : List Item} {i : Item}
    (h : t.items = front ++ i :: behind) {f : Fault} (hf : i.token = .error f) :
    f.lineIn t = 1 + front.countP Item.isFeed := by
  rw [items_eq_itemsAt] at h
  obtain ⟨before, rest, ht, hoffset, hcount⟩ := exists_before_item h
  have hstart : f.span.start = byteLength before + 0 := by
    rw [Item.span_fault hf]
    change i.offset = _
    omega
  have hfirst : lineAt rest 0 = 1 := by rw [lineAt, takeBytes_zero]; rfl
  rw [Fault.lineIn, hstart, ht, lineAt_append_right, hfirst, hcount]

end Text

/-- The reading of an item is a line feed exactly when the item is. -/
theorem Item.isFeed_readIn (t : Text) (i : Item) (behind : Nat) :
    (i.readIn t behind).isFeed = i.isFeed := by
  obtain ⟨l, offset⟩ := i
  unfold Reading.isFeed readIn
  cases htoken : (Item.mk l offset).token with
  | ok token =>
    have hne : l ≠ .mark '\n' := by
      rintro rfl
      rw [token_of_error (Lexeme.meaning_mark_of_none rfl)] at htoken
      cases htoken
    exact (beq_eq_false_iff_ne.mpr hne).symm
  | error f =>
    obtain ⟨cause, hcause, rfl⟩ := token_eq_error htoken
    obtain ⟨c, rfl, -, rfl⟩ | ⟨w, reason, rfl, -, rfl⟩ := Lexeme.meaning_eq_error hcause
    · simp [isFeed]
    · rfl

namespace Text

theorem readings_eq_map (t : Text) : t.readings = t.items.map fun i => i.readIn t i.span.stop :=
  Cursor.readings_eq t (.start t)

/-- A token has no line, and the line of a fault is counted from the line feeds read before it. -/
theorem line?_of_readings {t : Text} {front behind : List Reading} {r : Reading}
    (h : t.readings = front ++ r :: behind) :
    r.line? =
      match r.outcome with
      | .ok _ => none
      | .error _ => some (1 + front.countP Reading.isFeed) := by
  rw [readings_eq_map] at h
  obtain ⟨before, rest, hitems, rfl, hrest⟩ := List.map_eq_append_iff.mp h
  obtain ⟨i, behind, rfl, rfl, rfl⟩ := List.map_eq_cons_iff.mp hrest
  have hcount : (before.map fun i => i.readIn t i.span.stop).countP Reading.isFeed =
      before.countP Item.isFeed := by
    rw [List.countP_map]
    exact List.countP_congr fun i _ => by rw [Function.comp_apply, Item.isFeed_readIn]
  rw [hcount]
  cases htoken : i.token with
  | ok token => simp only [Item.readIn, htoken]
  | error f =>
    rw [← lineIn_of_items hitems htoken]
    simp only [Item.readIn, htoken]

end Text

/-- Numbers that count what stands in front of them do not go back. -/
theorem Reading.pairwise_lines {rs : List Reading}
    (h : ∀ front r behind, rs = front ++ r :: behind →
      ∀ line ∈ r.line?, line = 1 + front.countP isFeed) :
    (rs.filterMap line?).Pairwise (· ≤ ·) := by
  induction rs using List.reverseRecOn with
  | nil => exact .nil
  | append_singleton rs r ih =>
    have hfront : (rs.filterMap line?).Pairwise (· ≤ ·) := by
      refine ih fun front s behind hrs => h front s (behind ++ [r]) ?_
      rw [hrs, List.append_assoc, List.cons_append]
    rw [List.filterMap_append]
    cases hr : r.line? with
    | none => simpa [hr] using hfront
    | some n =>
      rw [List.filterMap_cons_some hr, List.filterMap_nil, List.pairwise_append]
      refine ⟨hfront, List.pairwise_singleton _ _, fun m hm k hk => ?_⟩
      obtain ⟨s, hs, hline⟩ := List.mem_filterMap.mp hm
      obtain ⟨front, behind, rfl⟩ := List.append_of_mem hs
      -- What is counted for the earlier one is counted for the later one too.
      rw [List.mem_singleton.mp hk, h (front ++ s :: behind) r [] rfl n hr,
        h front s (behind ++ [r]) (by rw [List.append_assoc, List.cons_append]) m hline,
        List.countP_append]
      omega

/-- An item ends inside of its text. -/
theorem Item.span_stop_le {t : Text} {i : Item} (h : i ∈ t.items) :
    i.span.stop ≤ Text.byteLength t := by
  obtain ⟨before, behind, ht, hspan, -⟩ := Text.mem_items h
  rw [hspan, ht]
  simp only [Span.ofText, Text.byteLength_append]
  omega

/-- What is blamed begins inside of the text. -/
theorem Fault.Blames.start_lt {t : Text} {f : Fault} (h : f.Blames t.items) :
    f.span.start < Text.byteLength t := by
  have hitem : ∀ i ∈ t.items, i.span.start < Text.byteLength t := fun i hi =>
    Nat.lt_of_lt_of_le (Text.span_start_lt_stop hi) (Item.span_stop_le hi)
  have hbridges : ∀ {front s}, Bridges front (t.items.filter Item.isNumber) s →
      s.start < Text.byteLength t := by
    rintro front s ⟨block, behind, hnumbers, first, hfirst, last, -, rfl⟩
    have hmem : first ∈ t.items.filter Item.isNumber := by
      rw [hnumbers]
      exact List.mem_append_right _ (List.mem_append_left _ (List.mem_of_head? hfirst))
    exact hitem first (List.mem_filter.mp hmem).1
  cases h with
  | item hi h =>
    rw [Item.span_fault h]
    exact hitem _ hi
  | paren side h => exact hitem _ h
  | operator h => exact hitem _ h
  | divisor h => exact hbridges h
  | dangling hfront h => exact hbridges h

namespace Text

theorem start_le_of_evaluate {t : Text} {f : Fault} (h : evaluate t = .error f) :
    f.span.start = 0 ∨ f.span.start < byteLength t := by
  obtain hblames | rfl := evaluate_blames h
  · exact .inr hblames.start_lt
  · exact .inl rfl

/-- A run ends at the first line feed at the latest, whatever stands behind it. -/
theorem state_of_feed (before behind : Text) :
    ∃ halt, state (before ++ ['\n']) = .error halt ∧
      state (before ++ '\n' :: behind) = .error halt := by
  have hseam : Seam (before ++ ['\n']) behind := by
    refine .inl fun c hc => ?_
    rw [List.getLast?_concat] at hc
    cases hc
    decide
  cases hread : state (before ++ ['\n']) with
  | ok s =>
    have hlexes : Lexes (before ++ ['\n']) := State.token_of_readAll hread
    exact absurd (List.mem_append_right _ List.mem_cons_self) hlexes.feed_not_mem
  | error halt =>
    refine ⟨halt, rfl, ?_⟩
    rw [List.append_cons, state, items_append hseam, State.readAll_append]
    rw [state] at hread
    rw [hread]
    rfl

/-- The fault of a run is on the first line. -/
theorem lineIn_of_evaluate {t : Text} {f : Fault} (h : evaluate t = .error f) :
    f.lineIn t = 1 := by
  by_cases hfeed : '\n' ∈ t
  · obtain ⟨before, behind, rfl, hbefore⟩ := List.eq_append_cons_of_mem hfeed
    obtain ⟨halt, hfirst, hwhole⟩ := state_of_feed before behind
    rw [evaluate, run_of_state_error hwhole] at h
    cases h
    have hstart : halt.fault.span.start ≤ byteLength before := by
      have hevaluate : evaluate (before ++ ['\n']) = .error halt.fault := by
        rw [evaluate, run_of_state_error hfirst]
      have hlength : byteLength (before ++ ['\n']) = byteLength before + 1 :=
        byteLength_append before ['\n']
      have := start_le_of_evaluate hevaluate
      omega
    rw [Fault.lineIn, lineAt_append_left hstart, lineAt_of_feed_not_mem hbefore]
  · exact lineAt_of_feed_not_mem hfeed _

end Text

/-- The fault of a run is on the first line, since the run ends at the first line feed at the
latest. Of all that is read of a text, past its faults, the line of a fault is one more than the
number of line feeds that were read as stray characters before it, and these lines never go back. -/
theorem line_numbers (t : Text) :
    (∀ f, evaluate t = .error f → f.lineIn t = 1) ∧
    (∀ before behind, t = before ++ '\n' :: behind → ∃ halt,
      Text.state (before ++ ['\n']) = .error halt ∧ t.state = .error halt) ∧
    (∀ front r behind f, t.readings = front ++ r :: behind → r.outcome = .error f →
      r.line? = some (1 + front.countP Reading.isFeed)) ∧
    (t.readings.filterMap Reading.line?).Pairwise (· ≤ ·) := by
  refine ⟨fun f hf => Text.lineIn_of_evaluate hf, ?_, ?_, ?_⟩
  · rintro before behind rfl
    exact Text.state_of_feed before behind
  · intro front r behind f hreadings hf
    rw [Text.line?_of_readings hreadings, hf]
  · refine Reading.pairwise_lines fun front r behind hreadings line hline => ?_
    rw [Text.line?_of_readings hreadings] at hline
    cases houtcome : r.outcome with
    | ok token =>
      rw [houtcome] at hline
      cases hline
    | error f =>
      rw [houtcome] at hline
      cases hline
      rfl

/-- Of `3*`, a line feed and `+` the feed is blamed, which is on the first line. Of `é+.` with a
line feed on each side of the operator, the point is read as a fault on the third. -/
theorem line_numbers_instances :
    Fault.lineIn ⟨.invalidCharacter '\n', ⟨2, 3⟩⟩ ['3', '*', '\n', '+'] = 1 ∧
    ∃ r ∈ Text.readings ['é', '\n', '+', '\n', '.'], r.line? = some 3 := by
  constructor
  · exact (line_numbers _).1 _ (by decide +kernel)
  · obtain ⟨front, r, hreadings, houtcome, hfeeds⟩ :
        ∃ front r, Text.readings ['é', '\n', '+', '\n', '.'] = front ++ [r] ∧
          r.outcome = .error ⟨.malformedLiteral ['.'] .noDigits, ⟨5, 6⟩⟩ ∧
          front.countP Reading.isFeed = 2 :=
      ⟨Text.readings ['é', '\n', '+', '\n'], ⟨_, 6, some 3⟩, by decide +kernel, rfl,
        by decide +kernel⟩
    refine ⟨r, ?_, ?_⟩
    · rw [hreadings]
      exact List.mem_append_right _ List.mem_cons_self
    · rw [(line_numbers _).2.2.1 front r [] _ hreadings houtcome, hfeeds]

end ExactCalculator
