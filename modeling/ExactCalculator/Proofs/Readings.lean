import ExactCalculator.Proofs.Places
import Mathlib.Control.Monad.Basic

/-!
What is read of a text item by item, past all faults. Each pull of the cursor gives a token or a
fault, the byte behind it, and for a fault the number of its line. Nothing but the position is kept
from one item to the next, so the readings of two texts one behind the other are those of the first
and then those of the second, moved by the bytes and the lines of the first (`readings_append`).
-/
namespace ExactCalculator

/-- What one pull gives: a token or a fault, the byte behind it, and the line of a fault. -/
structure Reading where
  outcome : Except Fault Token
  behind : Nat
  line? : Option Nat
  deriving DecidableEq

/-- The same reading behind so many more bytes and line feeds; what the token means, its text, and
what is wrong with a fault stay. -/
def Reading.shift (r : Reading) (bytes feeds : Nat) : Reading where
  outcome :=
    match r.outcome with
    | .ok t => .ok (t.shift bytes)
    | .error f => .error (f.shift bytes)
  behind := r.behind + bytes
  line? := r.line?.map (· + feeds)

/-- What an item of a text gives, when the cursor behind it stands at the given byte. -/
def Item.readIn (t : Text) (i : Item) (behind : Nat) : Reading where
  outcome := i.token
  behind := behind
  line? :=
    match i.token with
    | .ok _ => none
    | .error f => some (f.lineIn t)

/-- What is read of a text from a cursor on, until the cursor finds no more items. -/
def Cursor.readings (t : Text) (c : Cursor) : List Reading :=
  match _h : c.next? with
  | none => []
  | some (item, after) => item.readIn t after.byte :: after.readings t
termination_by c.rest.length
decreasing_by exact length_rest_of_next? _h

def Text.readings (t : Text) : List Reading := (Cursor.start t).readings t

def Text.finalByte (t : Text) : Nat := (Cursor.start t).drain.2.byte

/-- The cursor behind an item stands where the bytes of the item end. -/
theorem Cursor.readings_eq (t : Text) (c : Cursor) :
    c.readings t = c.drain.1.map fun i => i.readIn t i.span.stop := by
  fun_induction Cursor.readings t c with
  | case1 c h => rw [drain_of_next?_eq_none h, List.map_nil]
  | case2 c item after h ih =>
    rw [drain_of_next?_eq_some h, List.map_cons, ← ih, (byte_of_lexeme? h).2]

/-- Text behind an item does not change what the item gives. -/
theorem Item.readIn_append_left {s : Text} {i : Item} (h : i ∈ s.items) (t : Text) (behind : Nat) :
    i.readIn (s ++ t) behind = i.readIn s behind := by
  obtain ⟨before, rest, hs, hspan, -⟩ := Text.mem_items h
  unfold readIn
  cases htoken : i.token with
  | ok token => rfl
  | error f =>
    have hstart : f.span.start ≤ Text.byteLength s := by
      rw [span_fault htoken, hspan, hs, Text.byteLength_append]
      exact Nat.le_add_right _ _
    simp only [Fault.lineIn, Text.lineAt_append_left hstart]

/-- Behind another text an item gives the same, moved by the bytes and the lines of that text. -/
theorem Item.readIn_shift (s t : Text) (i : Item) (behind : Nat) :
    (i.shift (Text.byteLength s)).readIn (s ++ t) (behind + Text.byteLength s) =
      (i.readIn t behind).shift (Text.byteLength s) (s.count '\n') := by
  unfold readIn
  cases htoken : i.token with
  | ok token =>
    rw [token_shift_of_ok htoken]
    rfl
  | error f =>
    rw [token_shift_of_error htoken]
    have hline : (f.shift (Text.byteLength s)).lineIn (s ++ t) = f.lineIn t + s.count '\n' := by
      rw [Fault.lineIn, Fault.shift, Span.shift, Nat.add_comm, Text.lineAt_append_right,
        Fault.lineIn]
    simp only [hline]
    rfl

theorem Text.finalByte_eq (t : Text) : t.finalByte = byteLength t := by
  rw [finalByte, Cursor.drain_final]
  exact Nat.zero_add _

/-- Where no run of digits and points reaches over the seam, two texts are read one after the other:
the readings of the second are only moved, by the bytes of the first and by its lines. -/
theorem Text.readings_append {s t : Text} (h : Seam s t) :
    (s ++ t).readings =
      s.readings ++ t.readings.map (Reading.shift · (byteLength s) (s.count '\n')) ∧
    (s ++ t).finalByte = s.finalByte + t.finalByte := by
  constructor
  · unfold readings
    rw [Cursor.readings_eq, Cursor.readings_eq, Cursor.readings_eq]
    change (s ++ t).items.map _ = s.items.map _ ++ (t.items.map _).map _
    rw [items_append h, List.map_append, List.map_map, List.map_map]
    congr 1
    · exact List.map_congr_left fun i hi => i.readIn_append_left hi t _
    · refine List.map_congr_left fun i _ => ?_
      rw [Function.comp_apply, Item.span_shift]
      exact i.readIn_shift s t i.span.stop
  · rw [finalByte_eq, finalByte_eq, finalByte_eq, byteLength_append]

/-- The stray character of two bytes at the end of `+é` is on the second line behind a line feed and
a digit. -/
theorem readings_append_instances :
    (Text.readings (['\n', '1'] ++ ['+', 'é'])).getLast? =
      some ⟨.error ⟨.invalidCharacter 'é', ⟨3, 5⟩⟩, 5, some 2⟩ := by
  have hseam : Text.Seam ['\n', '1'] ['+', 'é'] := .inr (by simp [Text.NoNumeralFirst, isNumeral])
  rw [(Text.readings_append hseam).1]
  decide +kernel

end ExactCalculator
