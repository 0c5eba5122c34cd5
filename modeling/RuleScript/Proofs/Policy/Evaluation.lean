/-
# Evaluation keeps to a policy

Every rule and every operator takes its values from the buffer, from the scope
it runs in, from nested evaluation and from calls, and puts them back into the
buffer, into the heap or into a function that closes over the scope. So if the
engine below keeps to a policy, then so do the rules, the operators, the
reduction of a buffer, statement lists and calls (`Policy.Obeys.next`), and
with that every level (`Policy.obeys_level`).

A declaration leaves the mark of a missing value in the buffer. It is the last
node there, and no rule reads the last node as a value; an operator that reads
it fails or makes a scalar of it. So the mark is never stored.

Key definitions: `Policy.redex`.
Key theorems: `Rule.redex?_redex`, `Redex.run_keeps`, `Application.run_keeps`,
`Disguise.call_keeps`, `Policy.Obeys.nextIn`, `Policy.obeys_level`.
-/
import RuleScript.Proofs.Policy.Library
import RuleScript.Proofs.Reduction.Progress

namespace RuleScript

open Eval (Looks)
open Policy

/-! ### Buffers -/

namespace Policy.Buffer

variable {P : Policy} {h : Heap} {n : Node} {b b' rest : List Node}

theorem append (hb : P.nodes h b) (hb' : P.Buffer h b') : P.Buffer h (b ++ b') := by
  induction b with
  | nil => exact hb'
  | cons n b ih =>
    obtain ⟨hn, hrest⟩ := List.forall_mem_cons.mp hb
    exact .cons hn (ih hrest)

theorem of_nodes (hb : P.nodes h b) : P.Buffer h b := by
  have hb' := append hb (.nil (h := h))
  rwa [List.append_nil] at hb'

theorem tail (hb : P.Buffer h (n :: rest)) : P.Buffer h rest := by
  cases hb with
  | absent pos => exact .nil
  | cons _ hrest => exact hrest

theorem drop : ∀ (k : Nat) {b : List Node}, P.Buffer h b → P.Buffer h (b.drop k)
  | 0, _, hb => hb
  | _ + 1, [], hb => hb
  | k + 1, _ :: _, hb => drop k hb.tail

/-- All but the last node are nodes of a program. -/
theorem head {m : Node} (hb : P.Buffer h (n :: m :: rest)) : P.node h n := by
  cases hb with
  | cons hn _ => exact hn

theorem first (hb : P.Buffer h (n :: rest)) : P.Buffer h [n] := by
  cases hb with
  | absent pos => exact .absent pos
  | cons hn _ => exact .cons hn .nil

theorem split : ∀ {b : List Node}, P.Buffer h (b ++ n :: rest) →
    P.nodes h b ∧ P.Buffer h (n :: rest)
  | [], hb => ⟨by rintro _ ⟨⟩, hb⟩
  | k :: b, hb => by
    have hk : P.node h k := by
      cases b with
      | nil => exact head hb
      | cons _ _ => exact head hb
    obtain ⟨hb', hrest⟩ := split (b := b) hb.tail
    exact ⟨List.forall_mem_cons.mpr ⟨hk, hb'⟩, hrest⟩

theorem span {pos : Position} {d : Delimiter} {body : List Node}
    (hb : P.Buffer h (.span pos d body :: rest)) : P.nodes h body := by
  cases hb with
  | cons hn _ =>
    cases hn with
    | span _ _ hbody => exact hbody

theorem value {pos : Position} {v : Value} {m : Node} (hb : P.Buffer h (.value pos v :: m :: rest)) :
    P.value h v := by
  cases hb.head with
  | value _ hv => exact hv

theorem number {pos : Position} {text suffix : String}
    (hb : P.Buffer h (.number pos text suffix :: rest)) : P.literal text suffix := by
  cases hb with
  | cons hn _ =>
    cases hn with
    | number _ hl => exact hl

theorem splitOnFrom (text : String) : ∀ {b part : List Node}, P.nodes h part → P.Buffer h b →
    ∀ p ∈ Node.splitOnFrom text part b, P.Buffer h p
  | [], part, hpart, _ => by
    intro p hp
    rw [List.mem_singleton.mp hp]
    exact of_nodes fun n hn => hpart n (List.mem_reverse.mp hn)
  | n :: rest, part, hpart, hb => by
    intro p hp
    unfold Node.splitOnFrom at hp
    split at hp
    · rcases List.mem_cons.mp hp with rfl | hp
      · exact of_nodes fun n hn => hpart n (List.mem_reverse.mp hn)
      · exact splitOnFrom text (by rintro _ ⟨⟩) hb.tail p hp
    · cases hb with
      | absent pos =>
        rw [List.mem_singleton.mp hp, List.reverse_cons]
        exact append (fun n hn => hpart n (List.mem_reverse.mp hn)) (.absent pos)
      | cons hn hrest => exact splitOnFrom text (List.forall_mem_cons.mpr ⟨hn, hpart⟩) hrest p hp

theorem splitOn (text : String) (hb : P.Buffer h b) : ∀ p ∈ Node.splitOn text b, P.Buffer h p := by
  unfold Node.splitOn
  split
  · rintro _ ⟨⟩
  · exact splitOnFrom text (by rintro _ ⟨⟩) hb

end Policy.Buffer

namespace Node

/-- What is cut from a node list is part of it. -/
theorem mem_of_mem_splitOnFrom (text : String) : ∀ {b part p : List Node} {n : Node},
    p ∈ splitOnFrom text part b → n ∈ p → n ∈ part ∨ n ∈ b
  | [], part, p, n, hp, hn => by
    rw [List.mem_singleton.mp hp] at hn
    exact .inl (List.mem_reverse.mp hn)
  | k :: rest, part, p, n, hp, hn => by
    unfold splitOnFrom at hp
    split at hp
    · rcases List.mem_cons.mp hp with rfl | hp
      · exact .inl (List.mem_reverse.mp hn)
      · exact .inr (List.mem_cons_of_mem _ ((mem_of_mem_splitOnFrom text hp hn).resolve_left (by simp)))
    · rcases mem_of_mem_splitOnFrom text hp hn with hn | hn
      · rcases List.mem_cons.mp hn with rfl | hn
        · exact .inr List.mem_cons_self
        · exact .inl hn
      · exact .inr (List.mem_cons_of_mem _ hn)

theorem mem_of_mem_splitOn {text : String} {b p : List Node} {n : Node} (hp : p ∈ splitOn text b)
    (hn : n ∈ p) : n ∈ b := by
  unfold splitOn at hp
  split at hp
  · cases hp
  · exact (mem_of_mem_splitOnFrom text hp hn).resolve_left (by simp)

end Node

/-- The parts of a dict entry are parts of it. -/
theorem entryParts?_subset {entry key values : List Node} {first : Node} {pos : Position}
    (h : entryParts? entry = some (first, key, pos, values)) : key ⊆ entry ∧ values ⊆ entry := by
  unfold entryParts? at h
  dsimp only at h
  split at h
  · rename_i colon v rest hkey hdrop
    obtain ⟨-, rfl, -, rfl⟩ := by simpa using h
    refine ⟨fun n hn => List.takeWhile_subset _ hn, fun n hn => ?_⟩
    have hn' : n ∈ entry.drop (entry.takeWhile fun n => !n.isSymbolText ":").length := by
      rw [hdrop]
      exact List.mem_cons_of_mem _ hn
    exact List.mem_of_mem_drop hn'
  · cases h

theorem mem_dictEntries {body entry : List Node} (h : entry ∈ dictEntries body) :
    entry ∈ Node.splitOn "," body := by
  unfold dictEntries at h
  dsimp only at h
  split at h
  · exact List.dropLast_subset _ h
  · exact h

theorem Operator.onNumbers?_isScalar {op : Operator} {f : Float → Float → Value}
    (h : op.onNumbers? = some f) (x y : Float) : (f x y).IsScalar := by
  cases op <;> cases h <;> exact trivial

/-! ### What a rule takes from a buffer -/

namespace Policy

variable (P : Policy)

/-- A sign's operand that may be evaluated. -/
def signOperand (h : Heap) : SignOperand → Prop
  | .number _ text suffix => P.literal text suffix
  | .word _ _ => True
  | .paren _ body => P.nodes h body

/-- A redex that may be evaluated. -/
def redex (h : Heap) : Redex → Prop
  | .function _ _ _ body => P.nodes h body
  | .declaration _ _ body => P.nodes h body
  | .capture v _ => P.value h v
  | .invoke _ _ args _ => P.nodes h args
  | .invokeBlock _ _ block _ => P.nodes h block
  | .index _ body _ => P.nodes h body
  | .sign _ operand => P.signOperand h operand
  | .number _ text suffix => P.literal text suffix
  | .paren _ body => P.nodes h body
  | .array _ body => P.nodes h body
  | .dict _ body => P.nodes h body
  | .wordString _ | .member .. | .word .. | .quoted _ => True

end Policy

/-- Whether a redex gives no value. -/
def Redex.IsDeclaration (x : Redex) : Prop := ∃ name pos body, x = .declaration name pos body

namespace Rule

variable {P : Policy} {h : Heap} {before : Option Node} {nodes : List Node} {x : Redex}

theorem sign_redex {text : String} (hx : signNumber? text before nodes = some x ∨
    signWord? text before nodes = some x ∨ signParen? text before nodes = some x)
    (hb : P.Buffer h nodes) : P.redex h x := by
  rcases hx with hx | hx | hx
  · unfold signNumber? at hx
    split at hx
    · rename_i hs
      obtain ⟨n, rfl⟩ := signed?_eq_some hs
      obtain rfl := Option.some.inj hx
      exact hb.tail.number
    · cases hx
  · unfold signWord? at hx
    split at hx
    · split at hx
      · cases hx
      · obtain rfl := Option.some.inj hx
        exact trivial
    · cases hx
  · unfold signParen? at hx
    split at hx
    · rename_i hs
      obtain ⟨n, rfl⟩ := signed?_eq_some hs
      split at hx
      · cases hx
      · obtain rfl := Option.some.inj hx
        exact hb.tail.span
    · cases hx

/-- What a rule takes from a buffer may be evaluated. -/
theorem redex?_redex {r : Rule} (hx : r.redex? before nodes = some x) (hb : P.Buffer h nodes) :
    P.redex h x := by
  cases r
  case negativeNumber | positiveNumber => exact sign_redex (.inl hx) hb
  case negativeWord | positiveWord => exact sign_redex (.inr (.inl hx)) hb
  case negativeParenthesis | positiveParenthesis => exact sign_redex (.inr (.inr hx)) hb
  case functionNamed | functionAnonymous | wordString | assignmentEqual | assignmentDollar | member
      | word =>
    simp only [redex?] at hx
    split at hx
    · split at hx
      · obtain rfl := Option.some.inj hx
        first
          | exact trivial
          | exact hb.value
          | exact hb.tail.tail.span
          | exact hb.tail.tail.tail.span
      · cases hx
    · cases hx
  all_goals
    simp only [redex?] at hx
    split at hx
    · obtain rfl := Option.some.inj hx
      first
        | exact trivial
        | exact hb.span
        | exact hb.number
        | exact hb.tail.span
    · cases hx

/-- A declaration takes everything to the end of the buffer. -/
theorem drop_width_of_declaration {r : Rule} (hx : r.redex? before nodes = some x)
    (hdecl : x.IsDeclaration) : nodes.drop r.width = [] := by
  obtain ⟨name, pos, body, rfl⟩ := hdecl
  cases r
  case negativeNumber | positiveNumber =>
    simp only [redex?, signNumber?] at hx
    split at hx <;> cases hx
  case negativeWord | positiveWord =>
    simp only [redex?, signWord?] at hx
    split at hx
    · split at hx <;> cases hx
    · cases hx
  case negativeParenthesis | positiveParenthesis =>
    simp only [redex?, signParen?] at hx
    split at hx
    · split at hx <;> cases hx
    · cases hx
  case assignmentEqual =>
    simp only [redex?] at hx
    split at hx
    · rfl
    · cases hx
  all_goals
    simp only [redex?] at hx
    split at hx
    · first
        | cases hx
        | split at hx <;> cases hx
    · cases hx

end Rule

namespace Match

/-- A match splits its buffer where its rule fits. -/
theorem findFrom?_redex? : ∀ {nodes before : List Node} {m : Match}, findFrom? before nodes = some m →
    ∃ n rest prev, before.reverse ++ nodes = m.before ++ n :: rest ∧
      m.rule.redex? prev (n :: rest) = some m.redex ∧ m.after = (n :: rest).drop m.rule.width
  | [], _, _, h => by cases h
  | n :: rest, before, m, h => by
    unfold findFrom? at h
    split at h
    · rename_i rule redex hhere
      obtain rfl := Option.some.inj h
      exact ⟨n, rest, before.head?, rfl, redex?_of_here? hhere, rfl⟩
    · obtain ⟨n', rest', prev, hnodes, hredex⟩ := findFrom?_redex? h
      exact ⟨n', rest', prev, by simpa using hnodes, hredex⟩

end Match

/-! ### Steps that look -/

section Looks

variable (ctx : Context)

instance parameterNames_looks (pos : Position) : ∀ parts, Looks (parameterNames ctx pos parts)
  | [] => inferInstanceAs (Looks (pure []))
  | part :: rest => by
    have := parameterNames_looks pos rest
    unfold parameterNames
    split <;> infer_instance

instance (v : Value) (pos : Position) : Looks (expectFunction ctx v pos) := by
  unfold expectFunction
  split <;> infer_instance

instance {α : Type} (xs : List α) (index : Float) (pos : Position) :
    Looks (elementAt ctx xs index pos) := by
  unfold elementAt
  dsimp only
  split <;> infer_instance

instance (a : Application) (side : String) (p : Value × Node) : Looks (a.numberOf ctx side p) := by
  unfold Application.numberOf
  split <;> infer_instance

instance (a : Application) (side : String) (p : Value × Node) : Looks (a.boolOf ctx side p) := by
  unfold Application.boolOf
  split <;> infer_instance

theorem elementAt_mem {α : Type} {ctx : Context} {xs : List α} {index : Float} {pos : Position} :
    Eval.Returns (· ∈ xs) (elementAt ctx xs index pos) := by
  unfold elementAt
  dsimp only
  split
  · rename_i x hx
    obtain ⟨k, -, hk⟩ := Option.bind_eq_some_iff.mp hx
    split at hk
    · cases hk
    · exact .pure (List.mem_of_getElem? hk)
  · exact .fail _ _ _

end Looks

section Evaluation

variable {P : Policy} [P.Lawful] {m : Machine} {ctx : Context}

theorem readVariable_does (pos : Position) (name : String) :
    P.Does m (readVariable ctx pos name) P.value := by
  refine .onHeap fun hh => ?_
  split
  · rename_i v hv
    exact .pure (hh.read? hv)
  · exact .fail _ _ _

theorem evaluateLiteral_does (pos : Position) {text suffix : String} (hl : P.literal text suffix) :
    P.Does m (evaluateLiteral ctx pos text suffix) P.value := by
  unfold evaluateLiteral
  split
  · exact .pure (Lawful.scalar trivial)
  · exact .fail _ _ _
  · exact .fail _ _ _
  · rename_i e he
    exact .throw (Lawful.literal hl he)

theorem finish_does {b : List Node} (hb : P.Buffer m.heap b) : P.Does m (finish ctx b) P.result := by
  unfold finish
  split
  · cases hb with
    | absent pos => exact .pure (.inl rfl)
    | cons hn _ =>
      cases hn with
      | value _ hv => exact .pure (.inr hv)
  · split
    · exact .fail _ _ _
    · exact .pure (.inl rfl)

omit [P.Lawful] in
theorem fire_does (what name : String) (pos : Position) :
    P.Does m (Eval.fire ctx what name pos) fun _ _ => True := by
  refine Keeps.bind (.aside rfl fun hm => hm.hosts) fun _ _ _ _ => ?_
  unfold Eval.note
  exact .ite (.aside rfl fun hm => hm.hosts) (.pure trivial)

theorem bindParameters_table {h : Heap} : ∀ (ps : List String) {vs : List Value} {t : Table Value},
    P.values h vs → P.table h t → P.table h (bindParameters ps vs t)
  | [], _, _, _, ht => ht
  | p :: ps, [], _, hvs, ht => bindParameters_table ps hvs (table_set ht p null)
  | p :: ps, v :: vs, _, hvs, ht => by
    obtain ⟨hv, hrest⟩ := List.forall_mem_cons.mp hvs
    exact bindParameters_table ps hrest (table_set ht p hv)

variable {e e' : Engine} (he : P.Obeys e e')

include he

/-! ### Nested expressions -/

theorem evaluateValue_keeps (hs : P.scope m.heap ctx.scope) {b : List Node} (hb : P.Buffer m.heap b)
    (pos : Position) : P.Keeps m (evaluateValue e ctx b pos) (evaluateValue e' ctx b pos) P.value := by
  cases b with
  | nil => exact .fail _ _ _
  | cons n rest =>
    refine (he.evaluate hs hb).bind fun v m' _ hv => ?_
    cases v
    case absent => exact .fail _ _ _
    all_goals exact .pure (hv.resolve_left (by rintro ⟨⟩))

theorem evaluateNode_keeps (hs : P.scope m.heap ctx.scope) {n : Node} (hn : P.Buffer m.heap [n]) :
    P.Keeps m (evaluateNode e ctx n) (evaluateNode e' ctx n) P.result := by
  have hvalue : P.Keeps m (evaluateValue e ctx [n] n.pos) (evaluateValue e' ctx [n] n.pos) P.result :=
    (evaluateValue_keeps he hs hn n.pos).weaken fun _ _ => .inr
  cases n
  case value pos v =>
    cases hn with
    | absent pos => exact .pure (.inl rfl)
    | cons hn _ =>
      cases hn with
      | value _ hv => exact .pure (.inr hv)
  case symbol pos text => exact .fail _ _ _
  all_goals exact hvalue

theorem evaluateParts_keeps (pos : Position) (missing : Cause) :
    ∀ {parts : List (List Node)} {m : Machine}, P.scope m.heap ctx.scope →
    (∀ p ∈ parts, P.nodes m.heap p) →
    P.Keeps m (evaluateParts e ctx pos missing parts) (evaluateParts e' ctx pos missing parts) P.values
  | [], _, _, _ => .pure values_nil
  | [] :: _, _, _, _ => .fail _ _ _
  | (n :: part) :: rest, m, hs, hparts => by
    obtain ⟨hpart, hrest⟩ := List.forall_mem_cons.mp hparts
    refine (evaluateValue_keeps he hs (.of_nodes hpart) _).bind fun v m' hg hv => ?_
    have hparts' := evaluateParts_keeps pos missing (hg.scope hs) fun p hp => hg.nodes (hrest p hp)
    exact hparts'.then_return fun _ _ hg' hvs => values_cons (hg'.value hv) hvs

theorem evaluateArguments_keeps (hs : P.scope m.heap ctx.scope) {args : List Node}
    (hargs : P.nodes m.heap args) (pos : Position) :
    P.Keeps m (evaluateArguments e ctx args pos) (evaluateArguments e' ctx args pos) P.values :=
  evaluateParts_keeps he pos _ hs fun _ hp n hn => hargs n (Node.mem_of_mem_splitOn hp hn)

/-! ### Rules -/

theorem applySign_keeps (hs : P.scope m.heap ctx.scope) (negative : Bool) {operand : SignOperand}
    (hop : P.signOperand m.heap operand) :
    P.Keeps m (applySign e ctx negative operand) (applySign e' ctx negative operand) P.value := by
  have hoperand : P.Keeps m (signOperand e ctx operand) (signOperand e' ctx operand)
      fun _ _ => True := by
    cases operand with
    | number pos text suffix => exact (evaluateLiteral_does pos hop).then_return fun _ _ _ _ => trivial
    | word pos name => exact (readVariable_does pos name).then_return fun _ _ _ _ => trivial
    | paren pos body =>
      exact (evaluateValue_keeps he hs (.of_nodes hop) pos).then_return fun _ _ _ _ => trivial
  refine hoperand.bind fun p m' _ _ => ?_
  obtain ⟨v, pos⟩ := p
  cases v
  case number x => exact .pure (Lawful.scalar trivial)
  all_goals exact .fail _ _ _

theorem applyIndex_keeps (hs : P.scope m.heap ctx.scope) (target : Value) {body : List Node}
    (hbody : P.nodes m.heap body) (pos : Position) :
    P.Keeps m (applyIndex e ctx target body pos) (applyIndex e' ctx target body pos) P.value := by
  refine (evaluateValue_keeps he hs (.of_nodes hbody) pos).bind fun index m' _ _ => ?_
  cases target
  case array r =>
    refine .onHeap fun hh => ?_
    cases index <;>
      exact .look fun i _ => .of_looks fun v hv => hh.items r v (elementAt_mem _ _ _ hv)
  case string s =>
    cases index <;>
      exact .look fun i _ => .look fun c _ => .pure (Lawful.scalar trivial)
  case dict d =>
    cases index
    case string key =>
      refine .onHeap fun hh => ?_
      split
      · rename_i v hv
        exact .pure (table_get? (hh.dict d) hv)
      · exact .fail _ _ _
    all_goals exact .fail _ _ _
  all_goals exact .fail _ _ _

theorem evaluateEntries_keeps (pos : Position) :
    ∀ {entries : List (List Node)} {t : Table Value} {m : Machine}, P.scope m.heap ctx.scope →
    (∀ p ∈ entries, P.nodes m.heap p) → P.table m.heap t →
    P.Keeps m (evaluateEntries e ctx pos entries t) (evaluateEntries e' ctx pos entries t) P.table
  | [], _, _, _, _, ht => .pure ht
  | entry :: rest, t, m, hs, hentries, ht => by
    obtain ⟨hentry, hrest⟩ := List.forall_mem_cons.mp hentries
    unfold evaluateEntries
    split
    · exact .fail _ _ _
    · rename_i first keyNodes colonPos valueNodes hparts
      obtain ⟨hkey, hvalue⟩ := entryParts?_subset hparts
      refine (evaluateValue_keeps he hs (.of_nodes fun n hn => hentry n (hkey hn)) _).bind
        fun k m₁ hg₁ _ => ?_
      cases k
      case string key _ =>
        have hvalue' : P.nodes m₁.heap valueNodes := hg₁.nodes fun n hn => hentry n (hvalue hn)
        refine (evaluateValue_keeps he (hg₁.scope hs) (.of_nodes hvalue') _).bind
          fun v m₂ hg₂ hv => ?_
        have hg := hg₁.trans hg₂
        exact evaluateEntries_keeps pos (hg.scope hs) (fun p hp => hg.nodes (hrest p hp))
          (table_set (hg.table ht) key hv)
      all_goals exact .fail _ _ _

/-- **Rules keep to a policy.** Only a declaration gives no value. -/
theorem Redex.run_keeps (hs : P.scope m.heap ctx.scope) {x : Redex} (hx : P.redex m.heap x) :
    P.Keeps m (x.run e ctx) (x.run e' ctx)
      fun h v => P.value h v ∨ v = .absent ∧ x.IsDeclaration := by
  have hplain {y y' : Eval Value} (h : P.Keeps m y y' P.value) : P.Keeps m y y'
      fun h v => P.value h v ∨ v = .absent ∧ x.IsDeclaration := h.weaken fun _ _ => .inl
  cases x with
  | function name paramsPos params body =>
    refine hplain (.look fun names _ => ?_)
    refine Keeps.bind (.newFunction ⟨hs, hx⟩) fun f m' hg hf => ?_
    cases name with
    | none => exact .pure hf
    | some n => exact Keeps.bind (.define (hg.scope hs) n hf) fun _ _ hg' _ => .pure (hg'.value hf)
  | wordString text => exact hplain (.pure (Lawful.scalar trivial))
  | declaration name pos body =>
    refine (evaluateValue_keeps he hs (.of_nodes hx) pos).bind fun v m' hg hv => ?_
    refine Keeps.bind (.assign (hg.scope hs) name hv) fun _ _ _ _ => .pure (.inr ⟨rfl, ?_⟩)
    exact ⟨name, pos, body, rfl⟩
  | capture v name =>
    exact hplain (Keeps.bind (.assign hs name hx) fun _ _ hg _ => .pure (hg.value hx))
  | member target dot key keyPos =>
    refine hplain ?_
    cases target
    case dict d =>
      refine .onHeap fun hh => ?_
      split
      · rename_i v hv
        exact .pure (table_get? (hh.dict d) hv)
      · exact .fail _ _ _
    all_goals exact .fail _ _ _
  | invoke callee calleePos args pos =>
    exact hplain (.look fun f _ => he.call f hs hx pos)
  | invokeBlock callee calleePos block pos =>
    refine hplain (.look fun f _ => Keeps.bind (.newFunction ⟨hs, hx⟩) fun callback m' hg hv => ?_)
    refine he.call f (hg.scope hs) ?_ pos
    exact List.forall_mem_singleton.mpr (.value pos hv)
  | index target body pos => exact hplain (applyIndex_keeps he hs target hx pos)
  | sign negative operand => exact hplain (applySign_keeps he hs negative hx)
  | number pos text suffix => exact hplain (evaluateLiteral_does pos hx)
  | word pos name => exact hplain (readVariable_does pos name)
  | quoted raw => exact hplain (.pure (Lawful.scalar trivial))
  | paren pos body => exact hplain (evaluateValue_keeps he hs (.of_nodes hx) pos)
  | array pos body =>
    refine hplain ((evaluateParts_keeps he pos _ hs fun p hp n hn => ?_).bind fun _ _ _ hvs =>
      .newArray hvs)
    exact hx n (Node.mem_of_mem_splitOn hp hn)
  | dict pos body =>
    refine hplain ((evaluateEntries_keeps he pos hs (fun p hp n hn => ?_) table_nil).bind
      fun _ _ _ ht => .newDict ht)
    exact hx n (Node.mem_of_mem_splitOn (mem_dictEntries hp) hn)

theorem applyRule_keeps (hs : P.scope m.heap ctx.scope) {b : List Node} (hb : P.Buffer m.heap b) :
    P.Keeps m (applyRule e ctx b) (applyRule e' ctx b) fun h o => ∀ b', o = some b' → P.Buffer h b' := by
  unfold applyRule
  split
  · exact .pure (by rintro _ ⟨⟩)
  · rename_i r hr
    obtain ⟨n, rest, prev, rfl, hredex, hafter⟩ := Match.findFrom?_redex? hr
    obtain ⟨hbefore, hwindow⟩ := Buffer.split hb
    refine Keeps.bind (fire_does _ _ _) fun _ m₁ hg₁ _ => ?_
    refine Keeps.then_return (Redex.run_keeps he (hg₁.scope hs)
      (Rule.redex?_redex hredex (hg₁.buffer hwindow))) fun h v hg hv => ?_
    rintro _ ⟨⟩
    have hg' := hg₁.trans hg
    refine Buffer.append (hg'.nodes hbefore) ?_
    rcases hv with hv | ⟨rfl, hdecl⟩
    · rw [hafter]
      exact .cons (.value _ hv) (Buffer.drop _ (hg'.buffer hwindow))
    · rw [hafter, Rule.drop_width_of_declaration hredex hdecl]
      exact .absent _

/-! ### Operators -/

namespace Application

variable {a : Application}

theorem operand_keeps (hs : P.scope m.heap ctx.scope) {side : List Node}
    (hside : P.Buffer m.heap side) :
    P.Keeps m (a.operand e ctx side) (a.operand e' ctx side) fun h p => P.result h p.1 := by
  cases side with
  | nil => exact .fail _ _ _
  | cons n rest => exact (evaluateNode_keeps he hs hside.first).then_return fun _ _ _ hv => hv

/-- The nodes around an operator: those before it are nodes of a program, those
behind it a buffer. -/
structure Around (P : Policy) (h : Heap) (a : Application) : Prop where
  before : P.nodes h a.before
  after : P.Buffer h a.after

omit he in
theorem Around.grows {h h' : Heap} (ha : a.Around P h) (hg : h.Grows P.closed P.emptying h') :
    a.Around P h' := ⟨hg.nodes ha.before, hg.buffer ha.after⟩

omit he [P.Lawful] in
theorem Around.between {h : Heap} (ha : a.Around P h) {v : Value} (hv : P.value h v) :
    P.Buffer h (a.between v) := by
  refine Buffer.append (fun n hn => ?_) (.cons (.value _ hv) (Buffer.drop 1 ha.after))
  exact ha.before n (List.mem_of_mem_drop (List.mem_reverse.mp hn))

omit he [P.Lawful] in
theorem Around.leading {h : Heap} (ha : a.Around P h) {v : Value} (hv : P.value h v) :
    P.Buffer h (a.leading v) := by
  refine Buffer.append (fun n hn => ?_) (.cons (.value _ hv) (Buffer.drop 1 ha.after))
  exact ha.before n (List.mem_reverse.mp hn)

theorem operands_keeps (hs : P.scope m.heap ctx.scope) (ha : a.Around P m.heap) :
    P.Keeps m (a.operands e ctx) (a.operands e' ctx) fun _ _ => True := by
  refine (operand_keeps he hs (.of_nodes ha.before)).bind fun l m' hg _ => ?_
  exact (operand_keeps he (hg.scope hs) (hg.buffer ha.after)).then_return fun _ _ _ _ => trivial

theorem applyPlusMinus_keeps (hs : P.scope m.heap ctx.scope) (ha : a.Around P m.heap)
    (sign : Float → Float) (op : Float → Float → Float) :
    P.Keeps m (a.applyPlusMinus e ctx sign op) (a.applyPlusMinus e' ctx sign op) P.Buffer := by
  refine (operand_keeps he hs ha.after).bind fun r m₁ hg₁ _ => .look fun y _ => ?_
  refine .ite (.pure ((ha.grows hg₁).leading (Lawful.scalar trivial))) ?_
  refine (operand_keeps he (hg₁.scope hs) (.of_nodes (hg₁.nodes ha.before))).bind fun l m₂ hg₂ _ => ?_
  refine .look fun x _ => .pure ((ha.grows (hg₁.trans hg₂)).between (Lawful.scalar trivial))

theorem applyHash_keeps (hs : P.scope m.heap ctx.scope) (ha : a.Around P m.heap) :
    P.Keeps m (a.applyHash e ctx) (a.applyHash e' ctx) P.Buffer := by
  unfold applyHash
  split
  · exact .fail _ _ _
  · exact .pure (ha.leading (Lawful.scalar trivial))
  · rename_i n rest _ hafter
    have hn : P.Buffer m.heap [n] := Buffer.first (hafter ▸ ha.after)
    refine (evaluateNode_keeps he hs hn).bind fun v m' hg _ => .onHeap fun _ => .pure ?_
    exact (ha.grows hg).leading (Lawful.scalar trivial)

theorem applyAssign_keeps (hs : P.scope m.heap ctx.scope) (ha : a.Around P m.heap) :
    P.Keeps m (a.applyAssign e ctx) (a.applyAssign e' ctx) P.Buffer := by
  unfold applyAssign
  split
  · exact .fail _ _ _
  · rename_i pos name rest hbefore
    refine (evaluateValue_keeps he hs ha.after a.pos).bind fun v m₁ hg₁ hv => ?_
    refine Keeps.bind (.assign (hg₁.scope hs) name hv) fun _ m₂ hg₂ _ => .pure ?_
    refine Buffer.append (fun n hn => ?_) (.cons (.value _ (hg₂.value hv)) .nil)
    refine (hg₁.trans hg₂).node (ha.before n ?_)
    rw [hbefore]
    exact List.mem_cons_of_mem _ (List.mem_reverse.mp hn)
  · exact .fail _ _ _

/-- **Operators keep to a policy.** -/
theorem run_keeps (hs : P.scope m.heap ctx.scope) (ha : a.Around P m.heap) :
    P.Keeps m (a.run e ctx) (a.run e' ctx) P.Buffer := by
  have hands := operands_keeps he hs ha
  -- what two operands give is a scalar in their place
  have hbetween {h : Heap} (hg : m.heap.Grows P.closed P.emptying h) {v : Value} (hv : v.IsScalar) :
      P.Buffer h (a.between v) := (ha.grows hg).between (Lawful.scalar hv)
  unfold run
  split
  · rename_i f hf
    refine hands.bind fun p m' hg _ => .look fun x _ => .look fun y _ => .pure (hbetween hg ?_)
    exact Operator.onNumbers?_isScalar hf x y
  · exact hands.bind fun p m' hg _ => .look fun x _ => .look fun y _ => .pure (hbetween hg trivial)
  · split
    · exact applyPlusMinus_keeps he hs ha _ _
    · exact applyPlusMinus_keeps he hs ha _ _
    · refine (operand_keeps he hs ha.after).bind fun r m' hg _ => .look fun b _ => .pure ?_
      exact (ha.grows hg).leading (Lawful.scalar trivial)
    · exact hands.then_return fun _ _ hg _ => hbetween hg trivial
    · exact hands.then_return fun _ _ hg _ => hbetween hg trivial
    · exact applyAssign_keeps he hs ha
    · exact applyHash_keeps he hs ha

end Application

theorem applyOperator_keeps (hs : P.scope m.heap ctx.scope) {b : List Node} (hb : P.Buffer m.heap b) :
    P.Keeps m (applyOperator e ctx b) (applyOperator e' ctx b)
      fun h o => ∀ b', o = some b' → P.Buffer h b' := by
  unfold applyOperator
  split
  · exact .pure (by rintro _ ⟨⟩)
  · rename_i a ha
    obtain ⟨text, rfl⟩ := Application.find?_window ha
    obtain ⟨hbefore, hafter⟩ := Buffer.split hb
    have haround : a.Around P m.heap :=
      ⟨fun n hn => hbefore n (List.mem_reverse.mpr hn), hafter.tail⟩
    refine Keeps.bind (fire_does _ _ _) fun _ m₁ hg₁ _ => ?_
    refine (Application.run_keeps he (hg₁.scope hs) (haround.grows hg₁)).then_return ?_
    rintro h b' _ hb' _ ⟨⟩
    exact hb'

/-! ### Statements -/

theorem reduceStep_keeps (hs : P.scope m.heap ctx.scope) {b : List Node} (hb : P.Buffer m.heap b) :
    P.Keeps m (reduceStep e ctx b) (reduceStep e' ctx b)
      fun h o => ∀ b', o = some b' → P.Buffer h b' := by
  refine (applyRule_keeps he hs hb).bind fun o m' hg ho => ?_
  cases o with
  | some b' => exact .pure ho
  | none => exact applyOperator_keeps he (hg.scope hs) (hg.buffer hb)

theorem reduceFor_keeps : ∀ (steps : Nat) {m : Machine} {b : List Node}, P.scope m.heap ctx.scope →
    P.Buffer m.heap b → P.Keeps m (reduceFor e ctx steps b) (reduceFor e' ctx steps b) P.result
  | 0, _, _, _, hb => finish_does hb
  | steps + 1, m, b, hs, hb => by
    refine (reduceStep_keeps he hs hb).bind fun o m' hg ho => ?_
    cases o with
    | some b' => exact reduceFor_keeps steps (hg.scope hs) (ho b' rfl)
    | none => exact finish_does (hg.buffer hb)

theorem evaluateStatement_keeps (hs : P.scope m.heap ctx.scope) {b : List Node}
    (hb : P.Buffer m.heap b) :
    P.Keeps m (evaluateStatement e ctx b) (evaluateStatement e' ctx b) P.result := by
  cases b with
  | nil => exact .pure (.inl rfl)
  | cons n b => exact reduceFor_keeps he _ hs hb

theorem evaluateStatements_keeps : ∀ {statements : List (List Node)} {last : Value} {m : Machine},
    P.scope m.heap ctx.scope → (∀ b ∈ statements, P.Buffer m.heap b) → P.result m.heap last →
    P.Keeps m (evaluateStatements e ctx last statements) (evaluateStatements e' ctx last statements)
      P.result
  | [], _, _, _, _, hlast => .pure hlast
  | b :: rest, _, m, hs, hstatements, _ => by
    obtain ⟨hb, hrest⟩ := List.forall_mem_cons.mp hstatements
    refine (evaluateStatement_keeps he hs hb).bind fun v m' hg hv => ?_
    exact evaluateStatements_keeps (hg.scope hs) (fun b hb => hg.buffer (hrest b hb)) hv

/-- **Statement lists keep to a policy.** -/
theorem evaluateList_keeps (hs : P.scope m.heap ctx.scope) {b : List Node} (hb : P.Buffer m.heap b) :
    P.Keeps m (evaluateList e ctx b) (evaluateList e' ctx b) P.result :=
  evaluateStatements_keeps he hs (Buffer.splitOn ";" hb) (.inl rfl)

end Evaluation

section Calls

variable {P : Policy} [P.Nests] {m : Machine} {ctx : Context} {e e' : Engine} (he : P.Obeys e e')

include he

/-! ### Calls -/

theorem callScript_keeps (hs : P.scope m.heap ctx.scope) {f : ScriptFunction}
    (hf : P.function m.heap (.script f)) {args : List Node} (hargs : P.nodes m.heap args)
    (pos : Position) :
    P.Keeps m (callScript e ctx f args pos) (callScript e' ctx f args pos) P.value := by
  refine (evaluateArguments_keeps he hs hargs pos).bind fun values m₁ hg₁ hvalues => ?_
  have hown : P.Does m₁ (pure f.scope) P.scope := .pure (hg₁.scope hf.1)
  have hfresh : P.Does m₁ (Eval.allocate
      (·.newScope (some f.scope) (bindParameters f.params values []))) P.scope := by
    refine .allocate ?_ ?_ ?_
    · refine fun hh => hh.newScope ?_ (bindParameters_table _ hvalues table_nil)
      rintro _ ⟨⟩
      exact Nests.nest (hg₁.scope hf.1)
    · exact fun _ => m₁.heap.grows_newScope P.closed P.emptying _ _
    · exact fun hh => Nests.newScope m₁.heap _ _ hh.closed
  refine .ite (.fail _ _ _) (.ite (hown.bind fun scope m₂ hg₂ hscope => ?_)
    (hfresh.bind fun scope m₂ hg₂ hscope => ?_))
  all_goals
    have hnodes := (hg₁.trans hg₂).nodes hf.2
    refine (he.evaluate hscope (.of_nodes hnodes)).bind fun v _ _ hv => ?_
    cases v
    case absent => exact .pure null
    all_goals exact .pure (hv.resolve_left (by rintro ⟨⟩))

section Disguised

variable {D : Disguise} (hD : D.initialises = true → P.emptying)

include hD

theorem Disguise.callBody_keeps (hs : P.scope m.heap ctx.scope) {f : Function}
    (hf : P.function m.heap f) {args : List Node} (hargs : P.nodes m.heap args) (pos : Position) :
    P.Keeps m (D.callBody e ctx f args pos) (D.callBody e' ctx f args pos) P.value := by
  cases f with
  | script f => exact callScript_keeps he hs hf hargs pos
  | native f =>
    refine (evaluateArguments_keeps he hs hargs pos).bind fun values m' hg hvalues => ?_
    exact D.callNative_keeps hD he pos (hg.scope hs) hvalues (operation_mono hg.extend hf)

/-- **Calls keep to a policy**, in every disguise. -/
theorem Disguise.call_keeps (hs : P.scope m.heap ctx.scope) (ref : FunctionRef) {args : List Node}
    (hargs : P.nodes m.heap args) (pos : Position) :
    P.Keeps m (callThrough ctx ref pos fun f => D.callBody e ctx f args pos)
      (callThrough ctx ref pos fun f => D.callBody e' ctx f args pos) P.value := by
  refine .using_holds fun hm => .look fun m' hm' => ?_
  obtain rfl : m = m' := Except.ok.inj (congrArg Prod.fst hm')
  refine .ite (.fail _ _ _) ?_
  split
  · exact .fail _ _ _
  · rename_i f hf
    refine .withFrame (D.callBody_keeps he hD ?_ ?_ ?_ pos)
    · exact hs
    · exact hm.heap.functions ref f hf
    · exact hargs

/-! ### Levels -/

/-- **The level above an engine keeps to a policy if the engine does**, in every
disguise. -/
theorem Policy.Obeys.nextIn : P.Obeys (e.nextIn D) (e'.nextIn D) where
  evaluate hs hb := evaluateList_keeps he hs hb
  call ref _ hs hargs pos := D.call_keeps he hD hs ref hargs pos

end Disguised

theorem Policy.Obeys.next [P.Empties] : P.Obeys e.next e'.next := by
  have hplain := he.nextIn (D := .plain) fun _ => Empties.emptying
  rwa [Engine.nextIn_plain, Engine.nextIn_plain] at hplain

end Calls

theorem Policy.obeys_exhausted (P : Policy) [P.Lawful] : P.Obeys .exhausted .exhausted where
  evaluate _ _ := .throw Lawful.exhausted
  call _ _ _ _ _ := .throw Lawful.exhausted

/-- **Every level keeps to a lawful policy in disguise**, if scopes may be emptied
wherever initialisers have their effect. -/
theorem Policy.obeys_disguised (P : Policy) [P.Nests] {D : Disguise}
    (hD : D.initialises = true → P.emptying) :
    ∀ n, P.Obeys (Engine.disguised D n) (Engine.disguised D n)
  | 0 => P.obeys_exhausted
  | n + 1 => (P.obeys_disguised hD n).nextIn hD

/-- **So does every level of the engine itself.** -/
theorem Policy.obeys_level (P : Policy) [P.Nests] [P.Empties] (n : Nat) :
    P.Obeys (Engine.level n) (Engine.level n) := by
  have hplain := P.obeys_disguised (D := .plain) (fun _ => Empties.emptying) n
  rwa [Engine.disguised_plain] at hplain

end RuleScript
