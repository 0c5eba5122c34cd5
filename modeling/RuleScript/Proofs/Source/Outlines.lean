/-
# Nodes from records

A record of a parse tree has a line and a column and no offset. The offset is
recovered from the starts of the lines, and it is the one the line and column came
from (`outlinePosition_after`). The record of a leaf or a span so becomes the node
that stands there.

Key theorems: `outlinePosition_after`, `nodesAt_leaf`, `nodesAt_span`.
-/
import Mathlib.Data.List.Induction
import RuleScript.Proofs.Source.Scanning

namespace RuleScript

/-! ### Positions from lines and columns -/

theorem lineStarts_append : ∀ (offset : Nat) (cs cs' : List Char),
    lineStarts offset (cs ++ cs') = lineStarts offset cs ++ lineStarts (offset + cs.length) cs'
  | _, [], _ => by simp [lineStarts]
  | offset, c :: cs, cs' => by
    rw [List.cons_append, lineStarts, lineStarts, lineStarts_append (offset + 1) cs cs',
      List.length_cons, Nat.add_right_comm, Nat.add_assoc offset]
    split <;> rfl

/-- The last line of a text starts where the characters behind its last line
feed do. -/
theorem getLast_lineStarts (cs : List Char) : ∃ starts first, 0 :: lineStarts 0 cs = starts ++ [first] ∧
    starts.length = cs.count '\n' ∧
    first + (cs.reverse.takeWhile (· ≠ '\n')).length = cs.length := by
  induction cs using List.reverseRecOn with
  | nil => exact ⟨[], 0, rfl, rfl, rfl⟩
  | append_singleton cs c ih =>
    obtain ⟨starts, first, hstarts, hlength, hfirst⟩ := ih
    rw [lineStarts_append, ← List.cons_append, hstarts, Nat.zero_add]
    by_cases hc : c = '\n'
    · refine ⟨starts ++ [first], cs.length + 1, by simp [lineStarts, hc], ?_, by simp [hc]⟩
      simp [hc, hlength]
    · refine ⟨starts, first, by simp [lineStarts, hc], by simp [hlength, hc], ?_⟩
      simp only [List.reverse_append, List.reverse_singleton, List.singleton_append, ne_eq, hc,
        not_false_eq_true, decide_true, List.takeWhile_cons_of_pos, List.length_cons, List.length_append,
        List.length_nil]
      simp only [ne_eq] at hfirst
      omega

/-- The offset that is recovered from a line and a column is the place they
came from. -/
theorem outlinePosition_after (before rest : List Char) :
    outlinePosition (0 :: lineStarts 0 (before ++ rest)) (Cursor.after before).position.line
      (Cursor.after before).position.column = .ok (Cursor.after before).position := by
  obtain ⟨starts, first, hstarts, hlength, hfirst⟩ := getLast_lineStarts before
  have hall : 0 :: lineStarts 0 (before ++ rest) =
      starts ++ first :: lineStarts before.length rest := by
    rw [lineStarts_append, ← List.cons_append, hstarts]
    simp
  have hone {n : Nat} : orOne (some ((1 + n : Nat) : Int)) = (1 + n : Nat) := by
    rw [orOne, if_neg (by omega)]
  have hline : min ((1 + before.count '\n' : Nat) : Int)
      (starts ++ first :: lineStarts before.length rest).length - 1 = before.count '\n' := by
    simp only [List.length_append, List.length_cons]
    omega
  have hstart : (starts ++ first :: lineStarts before.length rest).getD (before.count '\n') 0 = first := by
    simp [← hlength]
  rw [hall, outlinePosition]
  simp only [Cursor.position, Cursor.after, hone, hline]
  rw [if_neg (by omega), if_neg (by omega), Int.toNat_natCast, hstart]
  congr 2
  simp only [Int.ofNat_eq_natCast, ne_eq] at hfirst ⊢
  omega

/-! ### Records of leaves and spans -/

/-- The tag of a string, by its quote. -/
def stringTag (raw : String) : String :=
  match raw.toList with
  | '\'' :: _ => "single_string"
  | '"' :: _ => "double_string"
  | _ => "backtick_string"

/-- A record of a leaf becomes the leaf at its position. -/
theorem nodesAt_leaf {starts : List Nat} {name text : String}
    {leaf : Position → String → Except OutlineError Node} (hleaf : leafTag? name = some leaf)
    {line column : Option Int} {pos : Position} (hpos : outlinePosition starts line column = .ok pos)
    {n : Node} (hn : leaf pos text = .ok n) (children : Outline) :
    (Outline.record (.named name) (some text) line column children).nodesAt starts = .ok [n] := by
  have hname : name ∈ ["number", "word", "symbol", "single_string", "double_string", "backtick_string"] := by
    by_contra hname
    simp only [List.mem_cons, List.not_mem_nil, or_false, not_or] at hname
    simp [leafTag?, hname] at hleaf
  have hspan : spanTag? name = none ∧ ¬(name = "program" ∨ name = "node") ∧
      ¬(name = "_" ∨ name = "end_of_input") := by
    simp only [List.mem_cons, List.not_mem_nil, or_false] at hname
    rcases hname with rfl | rfl | rfl | rfl | rfl | rfl <;> simp [spanTag?]
  rw [Outline.nodesAt, if_neg hspan.2.1, if_neg hspan.2.2, hspan.1, hleaf]
  simp [hpos, hn, bind, Except.bind, pure, Except.pure]

/-- A record of a span becomes the span of its children. -/
theorem nodesAt_span {starts : List Nat} {d : Delimiter} (hd : d.IsBracket) {line column : Option Int}
    {pos : Position} (hpos : outlinePosition starts line column = .ok pos) {children : Outline}
    {body : List Node} (hbody : children.nodesAt starts = .ok body) (text : Option String) :
    (Outline.record (.named d.tag) text line column children).nodesAt starts = .ok [.span pos d body] := by
  have htag : spanTag? d.tag = some d ∧ ¬(d.tag = "program" ∨ d.tag = "node") ∧
      ¬(d.tag = "_" ∨ d.tag = "end_of_input") := by
    cases d with
    | other => exact hd.elim
    | paren | bracket | brace => simp [spanTag?, Delimiter.tag]
  rw [Outline.nodesAt, if_neg htag.2.1, if_neg htag.2.2, htag.1]
  simp [hpos, hbody, bind, Except.bind, pure, Except.pure]

theorem leafTag?_stringTag (raw : String) :
    leafTag? (stringTag raw) = some fun pos text => .ok (.quoted pos text) := by
  unfold stringTag
  split <;> simp [leafTag?]

end RuleScript
