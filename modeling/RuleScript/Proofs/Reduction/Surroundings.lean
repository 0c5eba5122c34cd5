/-
# What a rule sees of a buffer

A buffer is searched for a rule as a whole, and what rules leave in it is looked
at again by others. Yet a rule sees little. A value, and a symbol that is not
`=`, `$` or `.`, is part of no rule that starts in front of it (`Node.isSolid`),
so what a search finds in front of such a node does not depend on the node or on
what is behind it. Behind a value a search does not depend on the value either.

So what stands to the left and to the right of a value, with a sign in front or
without, is searched the same way whatever the value is; only where rules apply
to the value itself does it matter, and of a number nothing but a capture can be
made (`atNumber`).

Key definitions: `Node.isSolid`, `Spot`, `EndsAlike`, `Quiet`, `AtNumber`,
`Sign.Leaves`.
Key theorems: `Rule.fitsWithin`, `spot_or_quiet`, `Match.findFrom?_behind_value`,
`atNumber`, `Match.here?_sign`, `Quiet.find?_signed`.
-/
import RuleScript.Proofs.Reduction.Prefix

namespace RuleScript

open Eval (Returns)

/-! ### In front of a solid node -/

/-- Whether a node is part of no rule that starts to its left. -/
def Node.isSolid : Node → Bool
  | .value .. => true
  | .symbol _ t => t ∉ ["=", "$", "."]
  | _ => false

/-- A rule fits at the front of some nodes and would whatever stood behind them,
if that began with a solid node. Its last node is no symbol. -/
structure Rule.FitsWithin (r : Rule) (before : Option Node) (nodes : List Node) (x : Redex) : Prop where
  window : ∃ window last right,
    nodes = window ++ last :: right ∧ window.length + 1 = r.width ∧ last.isSymbol = false
  fits : ∀ n rest, n.isSolid = true → r.redex? before (nodes ++ n :: rest) = some x

section Solid

variable {before : Option Node} {nodes rest : List Node} {n : Node} (hn : n.isSolid = true)

include hn

/-- What is not solid comes before a solid node. -/
theorem exists_of_append_solid {k : Node} {tail : List Node} (hk : k.isSolid = false)
    (h : nodes ++ n :: rest = k :: tail) : ∃ nodes', nodes = k :: nodes' ∧ nodes' ++ n :: rest = tail := by
  cases nodes with
  | nil =>
    obtain ⟨rfl, -⟩ := List.cons.inj h
    rw [hn] at hk
    cases hk
  | cons k' nodes' =>
    obtain ⟨rfl, htail⟩ := List.cons.inj h
    exact ⟨nodes', rfl, htail⟩

theorem hasPostfix_append_solid : hasPostfix (nodes ++ n :: rest) = hasPostfix nodes := by
  cases nodes with
  | nil => cases n <;> simp_all [hasPostfix, Node.isSolid, Node.isSymbolText]
  | cons k nodes => cases k <;> rfl

theorem isReference_append_solid :
    isReference before (nodes ++ n :: rest) = isReference before nodes := by
  cases nodes with
  | nil => cases n <;> simp_all [isReference, Node.isSolid, Node.isSymbolText]
  | cons k nodes => rfl

/-- **No rule reaches across a solid node.** -/
theorem Rule.fitsWithin {r : Rule} {k : Node} {x : Redex}
    (h : r.redex? before (k :: nodes ++ n :: rest) = some x) : r.FitsWithin before (k :: nodes) x := by
  rw [List.cons_append] at h
  cases r
  case negativeNumber | negativeWord | negativeParenthesis | positiveNumber | positiveWord
      | positiveParenthesis =>
    simp only [redex?, signNumber?, signWord?, signParen?, signed?] at h
    split at h
    · rename_i hs
      split at hs
      · rename_i hsign
        obtain ⟨nodes', rfl, rfl⟩ := exists_of_append_solid hn rfl (Option.some.inj hs)
        refine ⟨⟨[k], _, nodes', rfl, rfl, rfl⟩, fun n' rest' hn' => ?_⟩
        simpa [redex?, signNumber?, signWord?, signParen?, signed?, hsign, hasPostfix_append_solid hn,
          hasPostfix_append_solid hn'] using h
      · cases hs
    · cases h
  case word =>
    simp only [redex?] at h
    split at h
    · rename_i heq
      obtain ⟨rfl, rfl⟩ := List.cons.inj heq
      refine ⟨⟨[], _, nodes, rfl, rfl, rfl⟩, fun n' rest' hn' => ?_⟩
      simpa [redex?, isReference_append_solid hn, isReference_append_solid hn'] using h
    · cases h
  case functionNamed =>
    simp only [redex?] at h
    split at h
    · rename_i heq
      obtain ⟨rfl, h₁⟩ := List.cons.inj heq
      obtain ⟨nodes₁, rfl, h₂⟩ := exists_of_append_solid hn rfl h₁
      obtain ⟨nodes₂, rfl, h₃⟩ := exists_of_append_solid hn rfl h₂
      obtain ⟨nodes₃, rfl, -⟩ := exists_of_append_solid hn rfl h₃
      exact ⟨⟨[_, _, _], _, nodes₃, rfl, rfl, rfl⟩, fun n' rest' hn' => h⟩
    · cases h
  case functionAnonymous =>
    simp only [redex?] at h
    split at h
    · rename_i heq
      obtain ⟨rfl, h₁⟩ := List.cons.inj heq
      obtain ⟨nodes₁, rfl, h₂⟩ := exists_of_append_solid hn rfl h₁
      obtain ⟨nodes₂, rfl, -⟩ := exists_of_append_solid hn rfl h₂
      exact ⟨⟨[_, _], _, nodes₂, rfl, rfl, rfl⟩, fun n' rest' hn' => h⟩
    · cases h
  case assignmentEqual =>
    -- a declaration is the end of its buffer, so nothing can be behind it
    simp only [redex?] at h
    split at h
    · rename_i heq
      obtain ⟨rfl, h₁⟩ := List.cons.inj heq
      split at h
      · subst_vars
        obtain ⟨nodes₁, rfl, h₂⟩ := exists_of_append_solid hn rfl h₁
        obtain ⟨nodes₂, rfl, h₃⟩ := exists_of_append_solid hn rfl h₂
        simp at h₃
      · cases h
    · cases h
  case assignmentDollar | member =>
    simp only [redex?] at h
    split at h
    · rename_i heq
      obtain ⟨rfl, h₁⟩ := List.cons.inj heq
      split at h
      · subst_vars
        obtain ⟨nodes₁, rfl, h₂⟩ := exists_of_append_solid hn rfl h₁
        obtain ⟨nodes₂, rfl, -⟩ := exists_of_append_solid hn rfl h₂
        exact ⟨⟨[_, _], _, nodes₂, rfl, rfl, rfl⟩, fun n' rest' hn' => h⟩
      · cases h
    · cases h
  case wordString | invoke | invokeCallback | index =>
    simp only [redex?] at h
    split at h
    · rename_i heq
      obtain ⟨rfl, h₁⟩ := List.cons.inj heq
      obtain ⟨nodes₁, rfl, -⟩ := exists_of_append_solid hn rfl h₁
      exact ⟨⟨[_], _, nodes₁, rfl, rfl, rfl⟩, fun n' rest' hn' => h⟩
    · cases h
  case number | glob | parenthesis | array | dict =>
    simp only [redex?] at h
    split at h
    · rename_i heq
      obtain ⟨rfl, rfl⟩ := List.cons.inj heq
      exact ⟨⟨[], _, nodes, rfl, rfl, rfl⟩, fun n' rest' hn' => h⟩
    · cases h

theorem Rule.redex?_append_solid (r : Rule) {n' : Node} (hn' : n'.isSolid = true) (k : Node)
    (rest' : List Node) :
    r.redex? before (k :: nodes ++ n :: rest) = r.redex? before (k :: nodes ++ n' :: rest') :=
  Option.ext fun _ =>
    ⟨fun h => (fitsWithin hn h).fits n' rest' hn', fun h => (fitsWithin hn' h).fits n rest hn⟩

theorem Match.here?_append_solid {n' : Node} (hn' : n'.isSolid = true) (k : Node) (rest' : List Node) :
    here? before (k :: nodes ++ n :: rest) = here? before (k :: nodes ++ n' :: rest') := by
  unfold here?
  congr 1
  funext r
  rw [r.redex?_append_solid hn hn' k rest']

end Solid

/-! ### Spots -/

/-- A rule that fits in a part of a buffer. -/
structure Spot (nodes : List Node) where
  rule : Rule
  redex : Redex
  pos : Position
  front : List Node
  window : List Node
  back : List Node
  split : nodes = front ++ (window ++ back)
  raw : ∃ k ∈ window, k.isRaw = true

/-- Two lists end with the same nodes behind one that is no symbol. -/
def EndsAlike (left left' : List Node) : Prop :=
  ∃ front front' k k' rest, left = front ++ k :: rest ∧ left' = front' ++ k' :: rest ∧
    k.isSymbol = false ∧ k'.isSymbol = false

namespace Spot

variable {nodes : List Node} (s : Spot nodes)

/-- The match in a buffer that has more nodes before, last first, and behind. -/
def inside (before behind : List Node) : Match :=
  ⟨s.rule, s.redex, before.reverse ++ s.front, s.pos, s.back ++ behind⟩

/-- The part with the window replaced by a value. -/
def result (v : Value) : List Node := s.front ++ .value s.pos v :: s.back

theorem result_inside (before behind : List Node) (v : Value) :
    (s.inside before behind).result v = before.reverse ++ (s.result v ++ behind) := by
  simp [Match.result, inside, result]

/-- A spot in what follows a node. -/
def behind (k : Node) : Spot (k :: nodes) :=
  { s with front := k :: s.front, split := congrArg (k :: ·) s.split }

theorem inside_behind (k : Node) (before behind : List Node) :
    (s.behind k).inside before behind = s.inside (k :: before) behind := by
  simp [inside, Spot.behind]

/-- The window ends with no symbol. -/
def Closed : Prop := ∃ init last, s.window = init ++ [last] ∧ last.isSymbol = false

theorem openNodes_lt (v : Value) : openNodes (s.result v) < openNodes nodes := by
  obtain ⟨k, hk, hraw⟩ := s.raw
  exact Rewrites.openNodes_lt
    ⟨s.front, s.window, s.back, s.pos, v, s.split, rfl, k, hk, Node.isValue_of_isRaw hraw⟩

variable {s}

theorem endsAlike (h : s.Closed) (v : Value) : EndsAlike nodes (s.result v) := by
  obtain ⟨init, last, hwindow, hlast⟩ := h
  exact ⟨s.front ++ init, s.front, last, .value s.pos v, s.back, by simp [s.split, hwindow], rfl, hlast, rfl⟩

end Spot

/-- A search of nodes, in front of a solid node, finds the same rule in them
whatever that node is and whatever is behind it, or it comes to that node. -/
theorem Match.findFrom?_append_solid : ∀ left before : List Node,
    (∃ s : Spot left, s.Closed ∧ ∀ n rest, n.isSolid = true →
      findFrom? before (left ++ n :: rest) = some (s.inside before (n :: rest))) ∨
    ∀ n rest, n.isSolid = true →
      findFrom? before (left ++ n :: rest) = findFrom? (left.reverse ++ before) (n :: rest)
  | [], before => .inr fun _ _ _ => rfl
  | k :: left, before => by
    let probe : Node := .value ⟨none, none, 0⟩ .null
    have hprobe : probe.isSolid = true := rfl
    have hsame (n : Node) (rest : List Node) (hn : n.isSolid = true) :
        here? before.head? (k :: left ++ n :: rest) = here? before.head? (k :: left ++ [probe]) :=
      here?_append_solid hn hprobe k []
    cases hhere : here? before.head? (k :: left ++ [probe]) with
    | some found =>
      obtain ⟨rule, redex⟩ := found
      have hfits := Rule.fitsWithin hprobe (redex?_of_here? hhere)
      obtain ⟨init, last, back, hsplit, hwidth, hlast⟩ := hfits.window
      have hsplit' : k :: left = (init ++ [last]) ++ back := by simp [hsplit]
      have hdrop (n : Node) (rest : List Node) :
          (k :: left ++ n :: rest).drop rule.width = back ++ n :: rest := by
        rw [hsplit', ← hwidth, List.append_assoc]
        exact List.drop_left' (by simp)
      have hraw : ∃ a ∈ init ++ [last], a.isRaw = true := by
        obtain ⟨a, ha, hraw⟩ := Rule.exists_raw (redex?_of_here? hhere)
        refine ⟨a, ?_, hraw⟩
        rwa [hsplit', ← hwidth, List.append_assoc, List.take_left' (by simp)] at ha
      refine .inl ⟨⟨rule, redex, k.pos, [], init ++ [last], back, hsplit', hraw⟩, ⟨init, last, rfl, hlast⟩, ?_⟩
      intro n rest hn
      have hdrop := hdrop n rest
      rw [List.cons_append] at hdrop ⊢
      rw [findFrom?, ← List.cons_append, hsame n rest hn, hhere]
      simp [Spot.inside, hdrop]
    | none =>
      have hpass (n : Node) (rest : List Node) (hn : n.isSolid = true) :
          findFrom? before (k :: left ++ n :: rest) = findFrom? (k :: before) (left ++ n :: rest) := by
        rw [List.cons_append, findFrom?, ← List.cons_append, hsame n rest hn, hhere]
      rcases findFrom?_append_solid left (k :: before) with ⟨s, hclosed, hfound⟩ | hquiet
      · refine .inl ⟨s.behind k, hclosed, fun n rest hn => ?_⟩
        rw [hpass n rest hn, hfound n rest hn, s.inside_behind]
      · refine .inr fun n rest hn => ?_
        rw [hpass n rest hn, hquiet n rest hn]
        simp

/-- A search finds no rule in `left` in front of a solid node. -/
def Quiet (left : List Node) : Prop := ∀ n rest, n.isSolid = true → PassedOver left (n :: rest)

theorem Quiet.nil : Quiet [] := fun _ _ _ => rfl

/-- **In front of a solid node** the same rule fits whatever is there, or none
does. -/
theorem spot_or_quiet (left : List Node) :
    (∃ s : Spot left, s.Closed ∧ ∀ n rest, n.isSolid = true →
      Match.find? (left ++ n :: rest) = some (s.inside [] (n :: rest))) ∨ Quiet left := by
  refine (Match.findFrom?_append_solid left []).imp_right fun h n rest hn => ?_
  rw [PassedOver, Match.find?, h n rest hn, List.append_nil]

/-! ### Behind a value -/

theorem Match.here?_behind_value (p p' : Position) (v v' : Value) (nodes : List Node) :
    here? (some (.value p v)) nodes = here? (some (.value p' v')) nodes := rfl

/-- **A search behind a value** does not depend on that value or on what is in
front of it. -/
theorem Match.findFrom?_behind_value : ∀ right passed : List Node,
    (∃ s : Spot right, ∀ p v before, findFrom? (passed ++ .value p v :: before) right =
      some (s.inside (passed ++ .value p v :: before) [])) ∨
    ∀ p v before, findFrom? (passed ++ .value p v :: before) right = none
  | [], passed => .inr fun _ _ _ => rfl
  | k :: right, passed => by
    let probe : Node := .value ⟨none, none, 0⟩ .null
    have hsame (p : Position) (v : Value) (before : List Node) :
        here? (passed ++ .value p v :: before).head? (k :: right) =
          here? (passed ++ [probe]).head? (k :: right) := by
      cases passed with
      | nil => exact here?_behind_value ..
      | cons a passed => rfl
    cases hhere : here? (passed ++ [probe]).head? (k :: right) with
    | some found =>
      obtain ⟨rule, redex⟩ := found
      refine .inl ⟨⟨rule, redex, k.pos, [], (k :: right).take rule.width, (k :: right).drop rule.width,
        (List.take_append_drop ..).symm, Rule.exists_raw (redex?_of_here? hhere)⟩, fun p v before => ?_⟩
      rw [findFrom?, hsame, hhere]
      simp [Spot.inside]
    | none =>
      have hpass (p : Position) (v : Value) (before : List Node) :
          findFrom? (passed ++ .value p v :: before) (k :: right) =
            findFrom? (k :: passed ++ .value p v :: before) right := by
        rw [findFrom?, hsame, hhere]
        rfl
      rcases findFrom?_behind_value right (k :: passed) with ⟨s, hfound⟩ | hquiet
      · refine .inl ⟨s.behind k, fun p v before => ?_⟩
        rw [hpass, hfound, s.inside_behind, List.cons_append]
      · exact .inr fun p v before => (hpass p v before).trans (hquiet p v before)

/-! ### At a number -/

/-- What starts at a number: nothing, a capture, or a rule that fails, and on the
same machine whatever the number and its place. -/
inductive AtNumber (right : List Node) : Prop
  | nothing (h : ∀ before p x, Match.here? before (.value p (.number x) :: right) = none)
  | capture (q w : Position) (name : String) (rest : List Node)
    (hright : right = .symbol q "$" :: .word w name :: rest)
    (h : ∀ before p x, Match.here? before (.value p (.number x) :: right) =
      some (.assignmentDollar, .capture (.number x) name))
  | failure (rule : Rule) (redex : Position → Float → Redex)
    (h : ∀ before p x, Match.here? before (.value p (.number x) :: right) = some (rule, redex p x))
    (hfails : ∀ e ctx p x p' x', Eval.FailTogether ((redex p x).run e ctx) ((redex p' x').run e ctx))

/-- No rule but those for values starts at a value. -/
theorem Match.here?_value {before : Option Node} {p : Position} {v : Value} {right : List Node}
    (hcapture : Rule.assignmentDollar.redex? before (.value p v :: right) = none)
    (hmember : Rule.member.redex? before (.value p v :: right) = none)
    (hspan : ∀ q (k : Bracket) body rest, right ≠ .span q k.delimiter body :: rest) :
    here? before (.value p v :: right) = none := by
  simp only [here?, List.findSome?_eq_none_iff]
  intro r _
  rw [Option.map_eq_none_iff]
  cases r
  case assignmentDollar => exact hcapture
  case member => exact hmember
  case invoke =>
    simp only [Rule.redex?]
    split
    · exact absurd (List.cons.inj ‹_›).2 (hspan _ .paren _ _)
    · rfl
  case invokeCallback =>
    simp only [Rule.redex?]
    split
    · exact absurd (List.cons.inj ‹_›).2 (hspan _ .brace _ _)
    · rfl
  case index =>
    simp only [Rule.redex?]
    split
    · exact absurd (List.cons.inj ‹_›).2 (hspan _ .bracket _ _)
    · rfl
  all_goals
    simp [Rule.redex?, Rule.signNumber?, Rule.signWord?, Rule.signParen?, Rule.signed?, Node.isSymbolText]

/-- A number is not called, indexed or accessed. -/
theorem atNumber (right : List Node) : AtNumber right := by
  rcases right with _ | ⟨n, rest⟩
  · exact .nothing fun _ _ _ => rfl
  cases n with
  | span q d body =>
    cases d with
    | paren =>
      exact .failure .invoke (fun p x => .invoke (.number x) p body q) (fun _ _ _ => rfl)
        fun _ ctx p _ p' _ => Eval.FailTogether.andThen (.fail ctx p p' _ _) _ _
    | brace =>
      exact .failure .invokeCallback (fun p x => .invokeBlock (.number x) p body q) (fun _ _ _ => rfl)
        fun _ ctx p _ p' _ => Eval.FailTogether.andThen (.fail ctx p p' _ _) _ _
    | bracket =>
      exact .failure .index (fun p x => .index (.number x) body q) (fun _ _ _ => rfl)
        fun e ctx _ _ _ _ => .bind (evaluateValue e ctx body q) fun _ => .fail ctx q q _ _
    | other text =>
      exact .nothing fun _ _ _ => Match.here?_value rfl rfl (by rintro _ (_ | _ | _) _ _ ⟨⟩)
  | symbol q t =>
    by_cases hdollar : t = "$"
    · subst hdollar
      rcases rest with _ | ⟨w, rest⟩
      · exact .nothing fun _ _ _ => Match.here?_value rfl rfl (by simp)
      · cases w with
        | word w name => exact .capture q w name rest rfl fun _ _ _ => rfl
        | _ => exact .nothing fun _ _ _ => Match.here?_value rfl rfl (by simp)
    by_cases hdot : t = "."
    · subst hdot
      rcases rest with _ | ⟨w, rest⟩
      · exact .nothing fun _ _ _ => Match.here?_value rfl rfl (by simp)
      · cases w with
        | word w key =>
          exact .failure .member (fun _ x => .member (.number x) q key w) (fun _ _ _ => rfl)
            fun _ ctx _ _ _ _ => .fail ctx q q _ _
        | _ => exact .nothing fun _ _ _ => Match.here?_value rfl rfl (by simp)
    · refine .nothing fun before p x => Match.here?_value ?_ ?_ (by simp)
      all_goals
        simp only [Rule.redex?]
        split
        · simp_all
        · rfl
  | _ => exact .nothing fun _ _ _ => Match.here?_value rfl rfl (by simp)

/-! ### Signed values -/

theorem Sign.isSolid_node (s : Sign) : s.node.isSolid = true := by
  obtain ⟨pos, op, hop⟩ := s
  revert hop
  cases op <;> first | exact fun _ => rfl | (intro h; cases h)

theorem Signed.exists_solid (x : Signed) : ∃ n rest, x.nodes = n :: rest ∧ n.isSolid = true := by
  obtain ⟨_ | s, pos, v⟩ := x
  · exact ⟨_, _, rfl, rfl⟩
  · exact ⟨_, _, rfl, s.isSolid_node⟩

/-- The result of a rule behind a signed value. -/
theorem Spot.result_behind {right : List Node} (s : Spot right) (x : Signed) (left : List Node) (w : Value) :
    (s.inside (.value x.pos x.value :: ((x.sign.map Sign.node).toList ++ left.reverse)) []).result w =
      left ++ (x.nodes ++ s.result w) := by
  rw [s.result_inside]
  obtain ⟨_ | s', pos, v⟩ := x <;> simp [Signed.nodes]

/-- Whether a sign leaves the node behind it to what is applied to that: the
node is no literal number, and if it is a word or a parenthesis, then something
is applied to it. A hash takes a word. -/
def Sign.Leaves (s : Sign) (k : Node) (after : List Node) : Prop :=
  match k with
  | .number .. => False
  | .word .. => s.op ≠ .hash ∧ hasPostfix after = true
  | .span _ .paren _ => hasPostfix after = true
  | _ => True

/-- No rule starts at a sign that leaves the node behind it. -/
theorem Match.here?_sign (before : Option Node) {s : Sign} {k : Node} {after : List Node}
    (hk : s.Leaves k after) : here? before (s.node :: k :: after) = none := by
  have hsigned (text : String) : Rule.signed? text before (s.node :: k :: after) = none ∨
      Rule.signed? text before (s.node :: k :: after) = some (k :: after) := by
    unfold Rule.signed?
    dsimp only
    split
    · exact .inr rfl
    · exact .inl rfl
  have hnumber (text : String) : Rule.signNumber? text before (s.node :: k :: after) = none := by
    unfold Rule.signNumber?
    rcases hsigned text with h | h <;> rw [h]
    cases k <;> first | rfl | exact hk.elim
  have hword (text : String) : Rule.signWord? text before (s.node :: k :: after) = none := by
    unfold Rule.signWord?
    rcases hsigned text with h | h <;> rw [h]
    cases k <;> first | rfl | exact if_pos hk.2
  have hparen (text : String) : Rule.signParen? text before (s.node :: k :: after) = none := by
    unfold Rule.signParen?
    rcases hsigned text with h | h <;> rw [h]
    cases k with
    | span p d body => cases d <;> first | rfl | exact if_pos hk
    | _ => rfl
  have hat : s.op.symbol ≠ "@" := by cases s.op <;> decide
  simp only [here?, List.findSome?_eq_none_iff]
  intro r _
  rw [Option.map_eq_none_iff]
  cases r
  case negativeNumber | positiveNumber => exact hnumber _
  case negativeWord | positiveWord => exact hword _
  case negativeParenthesis | positiveParenthesis => exact hparen _
  case functionNamed | functionAnonymous =>
    simp only [Rule.redex?, Sign.node]
    split
    · rename_i heq
      simp only [List.cons.injEq, Node.symbol.injEq] at heq
      exact if_neg (heq.1.2 ▸ hat)
    · rfl
  case wordString =>
    simp only [Rule.redex?, Sign.node]
    split
    · rename_i heq
      simp only [List.cons.injEq, Node.symbol.injEq] at heq
      obtain ⟨⟨-, rfl⟩, rfl, -⟩ := heq
      have hhash : s.op.symbol ≠ "#" := by
        have hop : s.op ≠ .hash := hk.1
        revert hop
        cases s.op <;> decide
      exact if_neg hhash
    · rfl
  all_goals rfl

/-- A search that finds nothing in front of a signed value comes to the value. -/
theorem Quiet.find?_signed {left : List Node} (h : Quiet left) (x : Signed) (right : List Node) :
    Match.find? (left ++ (x.nodes ++ right)) =
      Match.findFrom? ((x.sign.map Sign.node).toList ++ left.reverse) (.value x.pos x.value :: right) := by
  obtain ⟨_ | s, pos, v⟩ := x
  · exact h _ _ rfl
  · refine (h s.node (.value pos v :: right) s.isSolid_node).trans ?_
    rw [Match.findFrom?, Match.here?_sign _ (k := .value pos v) trivial]
    rfl

end RuleScript
