/-
# The line that a report shows

The message of a failed run shows a line of the source under a number, with a
caret below it. Number and caret come from the position of a node, which counts
line feeds; the line is cut out by the line breaks of a display, and there are
more of these. On a new runner, whatever host is bound, the node is one of the
program, since all other functions are natives and what has fired last stands
at a node too. So the line shown is the failing one as long as both ways to
count agree (`context_shows_failing_line`).

Key definitions: `Stop.Tells`, `Stop.Shows`.
Key theorems: `Realm.program_eval`, `failure_place`, `Node.Occurs.lineAt`,
`context_shows_failing_line`.
-/
import RuleScript.Proofs.Faults.Position
import RuleScript.Proofs.Source.Lines
import RuleScript.Proofs.Source.Placement

namespace RuleScript

open Text

/-! ### Where a run ends -/

/-- A stop with the text and the active calls that its report names. -/
inductive Stop.Tells : Stop → (kind what : String) → (calls : List Frame) → Prop
  | fault (f : Fault) : Tells (.fault f) f.cause.kind.label f.text (f.trace.getD [])
  | internal (e : InternalError) (trace : Option (List Frame)) :
    Tells (.internal e trace) "InternalError" e.message (trace.getD [])

/-- **A run that stops has its place at a node of the program**: it stops with a
fault at one or with an internal error, and what has fired last stands at one. -/
theorem Realm.program_eval {r : Runner} (hr : r.OnlyNatives) {text : String} {nodes : List Node}
    (hparse : parse r.settings.room.spans text = .ok nodes) {s : Stop} (hs : (r.eval text).1 = .error s) :
    (program nodes).stop s ∧ (∀ trace, s ≠ .exhausted trace) ∧
      ∀ p, (r.eval text).2.machine.focus = some p → ∃ n : Node, n.Occurs nodes ∧ n.pos = p := by
  have hholds := program_holds nodes fun {ref f} => hr ref f
  rw [Runner.eval_of_parse _ hparse] at hs ⊢
  generalize r.rested = r at hs hholds ⊢
  let ctx : Context := ⟨r.programScope.1, r.programScope.2.source, r.programScope.2.settings⟩
  have hends := program_keeps nodes ctx hholds (Twin.Beside.refl _)
  unfold Runner.runNodes at hs ⊢
  dsimp only at hs ⊢
  generalize (Engine.level maxLevels).evaluate _ nodes _ = p at hs hends ⊢
  cases hends with
  | value => cases hs
  | stop hm _ hstop _ hfired =>
    obtain rfl := Except.error.inj hs
    refine ⟨stop_settle hm hstop hfired, fun trace => ?_, hm.focus⟩
    unfold Runner.settle
    split <;> simp_all

/-! ### Reports -/

/-- A report that has a place has it from the fault, or from what has fired
last. -/
theorem report_located {runner text message : String} {focus : Option Position} {s : Stop} {t : FaultToken}
    (h : report runner text focus s = (message, some t)) (hs : ∀ trace, s ≠ .exhausted trace) :
    ∃ what calls, s.Tells t.kind what calls ∧
      reportAt runner text t.kind what (some t.line) t.column calls = (message, some t) ∧
      ((∃ f, s = .fault f ∧ f.line = some t.line ∧ f.column = t.column) ∨
        ∃ p, focus = some p ∧ p.line = some t.line ∧ p.column = t.column) := by
  have hplace {kind what : String} {line column : Option Int} {calls : List Frame}
      (h : reportAt runner text kind what line column calls = (message, some t)) :
      kind = t.kind ∧ line = some t.line ∧ column = t.column := by
    have htoken := (Prod.mk.inj h).2
    cases line with
    | none => cases htoken
    | some l =>
      obtain rfl := Option.some.inj htoken
      exact ⟨rfl, rfl, rfl⟩
  cases s with
  | fault f =>
    obtain ⟨hkind, hline, hcolumn⟩ := hplace h
    refine ⟨f.text, f.trace.getD [], hkind ▸ .fault f, ?_, .inl ⟨f, rfl, hline, hcolumn⟩⟩
    rw [← hkind, ← hline, ← hcolumn]
    exact h
  | internal e trace =>
    obtain ⟨hkind, hline, hcolumn⟩ := hplace h
    obtain ⟨p, rfl, hp⟩ := Option.bind_eq_some_iff.mp hline
    refine ⟨e.message, trace.getD [], hkind ▸ .internal e trace, ?_, .inr ⟨p, rfl, hp, hcolumn⟩⟩
    rw [← hkind, ← hline, ← hcolumn]
    exact h
  | exhausted trace => exact absurd rfl (hs trace)

/-- What stands before a line that is shown, which counts from zero here. -/
def gutter (i : Nat) : String := Number.integerText (i + 1) ++ " | "

/-- The message of a stop that shows a line behind its number, and in the next
line a caret below its character `j`. -/
def Stop.Shows (s : Stop) (kind : String) (i j : Nat) (shown : List Char) (message : String) : Prop :=
  ∃ what calls, s.Tells kind what calls ∧ message =
    kind ++ ": " ++ what ++ "\n" ++ gutter i ++ String.ofList shown ++ "\n" ++
      String.ofList (List.replicate ((gutter i).length + j) ' ') ++ "^" ++ andLine (callTrace? calls)

/-- What a report shows of a text that has the line. -/
theorem reportAt_line {text shown : String} {i : Nat} (hshown : (Text.lines text)[i]? = some shown)
    (runner kind what : String) (j : Nat) (calls : List Frame) :
    (reportAt runner text kind what (some (i + 1)) (some (j + 1)) calls).1 =
      kind ++ ": " ++ what ++ "\n" ++ gutter i ++ shown ++ "\n" ++
        String.ofList (List.replicate ((gutter i).length + j) ' ') ++ "^" ++ andLine (callTrace? calls) := by
  have hcontext : sourceContext? text (i + 1) (some (j + 1)) =
      some (gutter i ++ shown ++ "\n" ++
        String.ofList (List.replicate ((gutter i).length + j) ' ') ++ "^") := by
    have hspaces : (Int.ofNat (gutter i).length + (j + 1) - 1).toNat = (gutter i).length + j := by
      simp only [Int.ofNat_eq_natCast]
      omega
    have hi : ((i : Int) + 1 - 1).toNat = i := by omega
    unfold sourceContext?
    rw [if_neg (by omega), hi, hshown, Option.map_some]
    dsimp only
    rw [← gutter, hspaces]
  unfold reportAt
  dsimp only [Option.bind_some]
  rw [hcontext]
  simp only [andLine, String.append_assoc]

/-! ### The failing line -/

/-- A node of a text stands on a line of it, which its position counts, and the
line has the first character of the node where the position says. -/
theorem Node.Occurs.lineAt {text : String} {spans : Nat} {nodes : List Node}
    (hparse : parse spans text = .ok nodes) {n : Node} (hn : n.Occurs nodes) :
    ∃ above row below c, ∃ j : Nat, LineAt text.toList above row below ∧
      n.pos.line = some (above.length + 1 : Int) ∧ n.pos.column = some (j + 1 : Int) ∧
      n.front.head? = some c ∧ row[j]? = some c ∧ isSpace c = false := by
  obtain ⟨-, x, before, rest, -, -, hfront, hreads, htext, hpos⟩ := parse_occurs hparse hn
  obtain ⟨c, t, hchars, hspace, -⟩ := hreads.lexeme?
  rw [hfront] at hchars
  obtain ⟨above, left, below, hat, hline, hcolumn⟩ := exists_lineAt before (n.front ++ rest)
  have hc : c ≠ '\n' := by
    rintro rfl
    simp [isSpace, inRanges, spaceRanges] at hspace
  refine ⟨above, _, below, c, left.length, htext ▸ hat, ?_, ?_, by rw [hchars]; rfl, ?_, hspace⟩
  · rw [hpos, hline]
    simp [Cursor.position, Cursor.after, Int.add_comm]
  · rw [hpos, hcolumn]
    simp [Cursor.position, Cursor.after, Int.add_comm]
  · rw [List.getElem?_append_right (Nat.le_refl _), Nat.sub_self, hchars, List.cons_append,
      List.takeWhile_cons_of_pos (by simpa using hc)]
    rfl

/-- A text without nodes fails with a fault that has no place. -/
theorem Runner.eval_of_parse_error (r : Runner) {text : String} {e : ParseError}
    (h : parse r.settings.room.spans text = .error e) :
    ∃ c, (r.eval text).1 = .error (.fault (.raisedAt c none r.source)) := by
  unfold eval
  dsimp only
  rw [h]
  cases e with
  | malformed => exact ⟨.invalidSource, rfl⟩
  | tooDeep => exact ⟨.depthExceeded, rfl⟩

/-- A failure that has a place has that of a node of the program. -/
theorem failure_place (settings : Settings) (source : String) (keep : Bool) (hosts : Array Host)
    (host : Option Nat) {text : String} {stop : Stop} {message : String} {t : FaultToken}
    (h : ((Runner.create settings source keep hosts host).handle text).1 = .failure stop message (some t)) :
    ∃ (nodes : List Node) (n : Node) (runner what : String) (calls : List Frame),
      parse settings.room.spans text = .ok nodes ∧ n.Occurs nodes ∧ n.pos.line = some t.line ∧ n.pos.column = t.column ∧
      stop.Tells t.kind what calls ∧
      reportAt runner text t.kind what (some t.line) t.column calls = (message, some t) := by
  have hnative := (Runner.create_onlyNatives settings source keep hosts host).prepared
  have hsettings : (Runner.create settings source keep hosts host).prepared.settings = settings := by
    rw [Runner.prepared_settings, Runner.create_settings]
  rw [Runner.handle_eq] at h
  generalize (Runner.create settings source keep hosts host).prepared = r at h hnative hsettings
  subst hsettings
  obtain ⟨hstop, hreport⟩ := Runner.concluded_report h
  cases hparse : parse r.settings.room.spans text with
  | error e =>
    obtain ⟨c, hfault⟩ := r.eval_of_parse_error hparse
    obtain rfl := Except.error.inj (hfault.symm.trans hstop)
    cases (Prod.mk.inj hreport).2
  | ok nodes =>
    obtain ⟨hrealm, hexhausted, hfocus⟩ := Realm.program_eval hnative hparse hstop
    obtain ⟨what, calls, htells, hmessage, hplace⟩ := report_located hreport hexhausted
    have hnode : ∃ n : Node, n.Occurs nodes ∧ n.pos.line = some t.line ∧ n.pos.column = t.column := by
      rcases hplace with ⟨f, rfl, hline, hcolumn⟩ | ⟨p, hp, hline, hcolumn⟩
      · obtain ⟨_, ⟨n, hn, rfl⟩, hline', hcolumn'⟩ := hrealm.place
        exact ⟨n, hn, hline'.symm.trans hline, hcolumn'.symm.trans hcolumn⟩
      · obtain ⟨n, hn, rfl⟩ := hfocus p hp
        exact ⟨n, hn, hline, hcolumn⟩
    obtain ⟨n, hn, hline, hcolumn⟩ := hnode
    exact ⟨nodes, n, _, what, calls, rfl, hn, hline, hcolumn, htells, hmessage⟩

/-- **The report of a failure shows the failing line**, if no line up to there
has a break but its line feed. A script is run on a new runner, and its failure
has a place. Then a node of the program stands there, and the line and the
column count as for nodes: the line has the first character of the node at the
column. The message shows a line under this number, with a caret under the
column. If no other break stands in the text up to the end of the failing line,
then it shows the failing line; if carriage returns stand before the line
feeds, then it leaves them out, and the caret is below the node all the same.
If the lines above are whole but the failing one is not, then it shows a part
of it; and if a line above is not whole, then it shows something above the
failing line. -/
theorem context_shows_failing_line (settings : Settings) (source : String) (keep : Bool) (hosts : Array Host)
    (host : Option Nat) {text : String} {stop : Stop} {message : String} {t : FaultToken}
    (h : ((Runner.create settings source keep hosts host).handle text).1 = .failure stop message (some t)) :
    let counted := text.toList.splitOn '\n'
    ∃ (nodes : List Node) (n : Node) (i j : Nat) (row shown : List Char),
      parse settings.room.spans text = .ok nodes ∧ n.Occurs nodes ∧ n.pos.line = some t.line ∧ n.pos.column = t.column ∧
      t.line = i + 1 ∧ t.column = some (j + 1 : Int) ∧
      counted[i]? = some row ∧ (∃ c, row[j]? = some c ∧ n.front.head? = some c) ∧
      stop.Shows t.kind i j shown message ∧ (lines text)[i]? = some (String.ofList shown) ∧
      ((∀ l ∈ counted.take (i + 1), ∀ c ∈ l, isLineBreak c = false) → shown = row) ∧
      ((∀ l ∈ counted.take i, Whole l) → shown = shownPart row) ∧
      ((∀ l ∈ counted.take (i + 1), Whole l) → shown[j]? = n.front.head?) ∧
      ((¬∀ l ∈ counted.take i, Whole l) → shown ∈ linesFrom [] (fed (counted.take i))) := by
  intro counted
  obtain ⟨nodes, n, runner, what, calls, hparse, hn, hline, hcolumn, htells, hreport⟩ :=
    failure_place settings source keep hosts host h
  obtain ⟨above, row, below, c, j, hat, hposLine, hposColumn, hfirst, hc, hspace⟩ := hn.lineAt hparse
  obtain ⟨more, hcounted⟩ := hat.splitOn
  have hi : t.line = above.length + 1 := Option.some.inj (hline.symm.trans hposLine)
  have hj : t.column = some (j + 1 : Int) := hcolumn.symm.trans hposColumn
  have htake : counted.take above.length = above := by simp [counted, hcounted]
  have htakeSucc : counted.take (above.length + 1) = above ++ [row] := by
    rw [show counted = above ++ [row] ++ more by simp [counted, hcounted]]
    exact List.take_left' (by simp)
  have hne : row ≠ [] := by
    rintro rfl
    cases hc
  obtain ⟨shown, hshown, hwhole, habove⟩ : ∃ shown, (linesFrom [] text.toList)[above.length]? = some shown ∧
      ((∀ l ∈ above, Whole l) → shown = shownPart row) ∧
      ((¬∀ l ∈ above, Whole l) → shown ∈ linesFrom [] (fed above)) := by
    by_cases hwhole : ∀ l ∈ above, Whole l
    · exact ⟨_, hat.shown hne hwhole, fun _ => rfl, absurd hwhole⟩
    · obtain ⟨shown, hmem, hshown⟩ := hat.shown_above hwhole
      exact ⟨shown, hshown, fun h => absurd h hwhole, fun _ => hmem⟩
  have hlines : (lines text)[above.length]? = some (String.ofList shown) := by
    unfold lines
    rw [List.getElem?_map, hshown, Option.map_some]
  refine ⟨nodes, n, above.length, j, row, shown, hparse, hn, hline, hcolumn, hi, hj, ?_, ⟨c, hc, hfirst⟩, ?_,
    hlines, ?_, ?_, ?_, ?_⟩
  · simp [counted, hcounted]
  · refine ⟨what, calls, htells, ?_⟩
    rw [hi, hj] at hreport
    rw [← reportAt_line hlines runner t.kind what j calls, hreport]
  · rw [htakeSucc]
    intro hplain
    obtain ⟨hplainAbove, hplainLine⟩ := List.forall_mem_append.mp hplain
    rw [hwhole fun l hl => .inl (shownPart_of_unbroken (hplainAbove l hl)).symm]
    exact shownPart_of_unbroken (hplainLine row (List.mem_singleton_self row))
  · rwa [htake]
  · rw [htakeSucc]
    intro hall
    obtain ⟨hwholeAbove, hwholeLine⟩ := List.forall_mem_append.mp hall
    rw [hwhole hwholeAbove, hfirst]
    exact (hwholeLine row (List.mem_singleton_self row)).getElem?_shownPart hc hspace
  · rwa [htake]

/-- An array in the second line, with a call of a string in it. -/
def callsString : List Node :=
  [.span ⟨some 2, some 1, 1⟩ .bracket
    [.quoted ⟨some 2, some 2, 2⟩ "'a'", .span ⟨some 2, some 5, 5⟩ .paren []]]

theorem tokens_callsString : tokens "\n['a'()]" = some [⟨⟨2, 1, 1⟩, .opening .bracket⟩,
    ⟨⟨2, 2, 2⟩, .quoted ['\'', 'a', '\'']⟩, ⟨⟨2, 5, 5⟩, .opening .paren⟩, ⟨⟨2, 6, 6⟩, .closing .paren⟩,
    ⟨⟨2, 7, 7⟩, .closing .bracket⟩] := by
  decide +kernel

theorem parse_callsString : parse Room.usual.spans "\n['a'()]" = .ok callsString :=
  parse_of_tokens tokens_callsString _

/-- The fault of that call. -/
def callsStringFault : Fault := ⟨.notCallable "string", some 2, some 2, "", none⟩

theorem eval_callsString :
    (Runner.plain.prepared.eval "\n['a'()]").1 = .error (.fault callsStringFault) := by
  have hparse : parse Runner.plain.prepared.settings.room.spans "\n['a'()]" = .ok callsString := by
    rw [Runner.prepared_settings, Runner.plain_spans]
    exact parse_callsString
  rw [Runner.eval_of_parse _ hparse]
  have hfault : faultOf? (Runner.plain.prepared.rested.runNodes callsString).1 =
      some callsStringFault := by decide +kernel
  generalize (Runner.plain.prepared.rested.runNodes callsString).1 = result at hfault
  match result, hfault with
  | .error (.fault _), rfl => rfl

theorem concluded_fault (text : String) {p : Except Stop Value × Runner} {f : Fault} {l : Int}
    (h : p.1 = .error (.fault f)) (hline : f.line = some l) : ∃ message, (Runner.concluded text p).1 =
      .failure (.fault f) message (some ⟨f.cause.kind.label, l, f.column, p.2.source⟩) := by
  obtain ⟨result, r⟩ := p
  obtain rfl : result = .error (.fault f) := h
  obtain ⟨cause, line, column, source, trace⟩ := f
  obtain rfl : line = some l := hline
  exact ⟨_, rfl⟩

/-- The second line is shown, with the caret below the string. -/
theorem context_shows_failing_line_call : ∃ stop message t,
    (Runner.plain.handle "\n['a'()]").1 = .failure stop message (some t) ∧
      stop.Shows "TypeError" 1 1 ['[', '\'', 'a', '\'', '(', ')', ']'] message := by
  obtain ⟨message, hfailure⟩ := concluded_fault "\n['a'()]" eval_callsString rfl
  rw [← Runner.handle_eq] at hfailure
  obtain ⟨-, -, i, j, row, shown, -, -, -, -, hi, hj, hrow, -, hshows, -, hplain, -⟩ :=
    context_shows_failing_line ⟨none, "", false, .usual⟩ "" false #[] none hfailure
  obtain rfl : i = 1 := by
    have hline : (2 : Int) = i + 1 := hi
    omega
  obtain rfl : j = 1 := by
    have hcolumn : (2 : Int) = j + 1 := Option.some.inj hj
    omega
  have hcounted : "\n['a'()]".toList.splitOn '\n' = [[], ['[', '\'', 'a', '\'', '(', ')', ']']] := by
    decide
  rw [hcounted] at hrow hplain
  obtain rfl : ['[', '\'', 'a', '\'', '(', ')', ']'] = row := Option.some.inj hrow
  have hunbroken : ['[', '\'', 'a', '\'', '(', ')', ']'].all (!isLineBreak ·) = true := by decide +kernel
  obtain rfl := hplain (List.forall_mem_cons.mpr ⟨by rintro _ ⟨⟩, List.forall_mem_singleton.mpr
    fun c hc => by simpa using List.all_eq_true.mp hunbroken c hc⟩)
  exact ⟨_, message, _, hfailure, hshows⟩

end RuleScript
