/-
# Evaluation keeps to a realm

Rules and operators take their values from the buffer, from the scope they run
in, from nested evaluation and from calls; they fault at nodes of the buffer
and call at its spans. So if two engines keep to a realm side by side, then so
do the levels above them (`Realm.Engines.next`), and with that all levels
(`Realm.engines_level`). The second engine may carry out native calls in a way
of its own (`Engine.nextBy`).

Nested evaluation and calls come after something has fired. So the engine
below is only asked to keep to the realm from there on, while a statement list
keeps to it from the beginning (`Realm.evaluateList_keeps`).

Key definitions: `Realm.redex`, `Engine.nextBy`.
Key theorems: `Realm.redex?_redex`, `Realm.Redex.run_keeps`,
`Realm.Application.run_keeps`, `Realm.evaluateList_keeps`,
`Realm.Engines.nextBy`, `Realm.engines_level`.
-/
import RuleScript.Proofs.Policy.Evaluation
import RuleScript.Proofs.Realm.Library

namespace RuleScript

open Eval (Reads)

/-- What a call does while it is active, with native calls carried out in a
given way. -/
def callBodyBy (native : Site → NativeFunction → List Value → Eval Value) (e : Engine)
    (ctx : Context) (f : Function) (args : List Node) (pos : Position) : Eval Value :=
  match f with
  | .script g => callScript e ctx g args pos
  | .native g => do
    let values ← evaluateArguments e ctx args pos
    native ⟨e, ctx, pos⟩ g values

/-- The level above an engine that carries out native calls in a given way;
`Engine.next` does it by `callNative`. -/
def Engine.nextBy (native : Site → NativeFunction → List Value → Eval Value) (e : Engine) :
    Engine where
  evaluate ctx nodes := evaluateList e ctx nodes
  call ctx ref args pos := do
    let m ← get
    if !ctx.settings.admitsCall m.calls.length then Eval.fail ctx pos .depthExceeded
    else
      match m.heap.function? ref with
      | none => Eval.fail ctx pos (.notCallable "function")
      | some f => Eval.withFrame (callFrame ctx f pos) (callBodyBy native e ctx f args pos)

theorem Engine.next_eq_nextBy (e : Engine) : e.next = e.nextBy callNative := by
  have hbody : callBodyBy callNative e = callBody e := by
    funext ctx f args pos
    cases f <;> rfl
  unfold nextBy
  rw [hbody]
  rfl

/-- A match stands at a node of its buffer. -/
theorem Match.findFrom?_pos : ∀ {nodes before : List Node} {m : Match},
    findFrom? before nodes = some m → ∃ n ∈ nodes, m.pos = n.pos
  | [], _, _, h => by cases h
  | n :: rest, before, m, h => by
    unfold findFrom? at h
    split at h
    · obtain rfl := Option.some.inj h
      exact ⟨n, List.mem_cons_self, rfl⟩
    · obtain ⟨n', hn', hpos⟩ := findFrom?_pos h
      exact ⟨n', List.mem_cons_of_mem _ hn', hpos⟩

instance {ctx : Context} (v : Value) (pos : Position) : Reads pos (expectFunction ctx v pos) := by
  unfold expectFunction
  split <;> infer_instance

instance {ctx : Context} {α : Type} (xs : List α) (index : Float) (pos : Position) :
    Reads pos (elementAt ctx xs index pos) := by
  unfold elementAt
  dsimp only
  split <;> infer_instance

instance {ctx : Context} (a : Application) (side : String) (p : Value × Node) :
    Reads p.2.pos (a.numberOf ctx side p) := by
  obtain ⟨v, n⟩ := p
  cases v <;> (unfold Application.numberOf; infer_instance)

instance {ctx : Context} (a : Application) (side : String) (p : Value × Node) :
    Reads p.2.pos (a.boolOf ctx side p) := by
  obtain ⟨v, n⟩ := p
  cases v <;> (unfold Application.boolOf; infer_instance)

theorem expectFunction_eq {ctx : Context} {v : Value} {pos : Position} {m m' : Machine}
    {f : FunctionRef} (h : expectFunction ctx v pos m = (.ok f, m')) : v = .function f := by
  cases v <;> cases h
  rfl

/-- The first node and the colon of a dict entry are nodes of it. -/
theorem entryParts?_pos {entry key values : List Node} {first : Node} {pos : Position}
    (h : entryParts? entry = some (first, key, pos, values)) :
    first ∈ entry ∧ ∃ colon ∈ entry, pos = colon.pos := by
  unfold entryParts? at h
  dsimp only at h
  split at h
  · rename_i keys colon v rest hkey hdrop
    obtain ⟨rfl, -, rfl, -⟩ := by simpa using h
    refine ⟨List.takeWhile_subset _ (hkey ▸ List.mem_cons_self), colon, ?_, rfl⟩
    have hmem : colon ∈ entry.drop (entry.takeWhile fun n => !n.isSymbolText ":").length := by
      rw [hdrop]
      exact List.mem_cons_self
    exact List.mem_of_mem_drop hmem
  · cases h

namespace Realm

/-! ### What a rule takes from a buffer -/

section Redexes

variable (R : Realm)

/-- A sign's operand that may be evaluated. -/
def signOperand : SignOperand → Prop
  | .number pos _ _ | .word pos _ => R.place pos
  | .paren pos body => R.place pos ∧ R.terms body

/-- A redex that may be evaluated. -/
def redex : Redex → Prop
  | .function _ paramsPos params body => R.place paramsPos ∧ R.terms params ∧ R.terms body
  | .declaration _ pos body => R.place pos ∧ R.terms body
  | .capture v _ => R.value v
  | .member target dot _ keyPos => R.value target ∧ R.place dot ∧ R.place keyPos
  | .invoke callee calleePos body pos | .invokeBlock callee calleePos body pos =>
    R.value callee ∧ R.place calleePos ∧ R.terms body ∧ R.site pos
  | .index target body pos => R.value target ∧ R.terms body ∧ R.place pos
  | .sign _ operand => R.signOperand operand
  | .number pos _ _ | .word pos _ => R.place pos
  | .paren pos body | .array pos body | .dict pos body => R.place pos ∧ R.terms body
  | .wordString _ | .quoted _ => True

variable {R} {before : Option Node} {nodes : List Node} {x : Redex}

theorem sign_redex {text : String} (hx : Rule.signNumber? text before nodes = some x ∨
    Rule.signWord? text before nodes = some x ∨ Rule.signParen? text before nodes = some x)
    (hb : R.terms nodes) : R.redex x := by
  have hplace := @R.place_of_site
  rcases hx with hx | hx | hx
  · unfold Rule.signNumber? at hx
    split at hx
    · rename_i hs
      obtain ⟨n, rfl⟩ := Rule.signed?_eq_some hs
      obtain rfl := Option.some.inj hx
      simp only [terms_cons, term_number] at hb
      exact hb.2.1
    · cases hx
  · unfold Rule.signWord? at hx
    split at hx
    · rename_i hs
      obtain ⟨n, rfl⟩ := Rule.signed?_eq_some hs
      simp only [terms_cons, term_word] at hb
      split at hx
      · cases hx
      · obtain rfl := Option.some.inj hx
        exact hb.2.1
    · cases hx
  · unfold Rule.signParen? at hx
    split at hx
    · rename_i hs
      obtain ⟨n, rfl⟩ := Rule.signed?_eq_some hs
      simp only [terms_cons, term_span] at hb
      split at hx
      · cases hx
      · obtain rfl := Option.some.inj hx
        exact ⟨hplace hb.2.1.1, hb.2.1.2⟩
    · cases hx

/-- What a rule takes from a buffer may be evaluated. -/
theorem redex?_redex {r : Rule} (hx : r.redex? before nodes = some x) (hb : R.terms nodes) :
    R.redex x := by
  have hplace := @R.place_of_site
  cases r
  case negativeNumber | positiveNumber => exact sign_redex (.inl hx) hb
  case negativeWord | positiveWord => exact sign_redex (.inr (.inl hx)) hb
  case negativeParenthesis | positiveParenthesis => exact sign_redex (.inr (.inr hx)) hb
  case functionNamed | functionAnonymous | wordString | assignmentEqual | assignmentDollar | member
      | word =>
    simp only [Rule.redex?] at hx
    split at hx
    · split at hx
      · obtain rfl := Option.some.inj hx
        simp only [terms_cons, term_word, term_symbol, term_value, term_span] at hb
        grind [redex]
      · cases hx
    · cases hx
  all_goals
    simp only [Rule.redex?] at hx
    split at hx
    · obtain rfl := Option.some.inj hx
      simp only [terms_cons, term_number, term_value, term_span] at hb
      grind [redex]
    · cases hx

end Redexes

section Evaluation

variable {R : Realm} {T : Twin} {ctx : Context}

/-! ### Steps that call nothing -/

theorem readVariable_keeps (hctx : R.Runs T ctx) {pos : Position} (hpos : R.place pos)
    (name : String) : R.Does T (readVariable ctx pos name) R.value := by
  refine .onHeap fun h hh => ?_
  split
  · rename_i v hv
    exact .pure (hh.read? hctx.scope hv)
  · exact .fail hpos _ _

theorem evaluateLiteral_keeps {pos : Position} (hpos : R.place pos) (text suffix : String) :
    R.Does T (evaluateLiteral ctx pos text suffix) R.value := by
  unfold evaluateLiteral
  split
  · exact .pure trivial
  · exact .fail hpos _ _
  · exact .fail hpos _ _
  · exact .internal _

theorem parameterNames_keeps {pos : Position} (hpos : R.place pos) : ∀ {parts : List (List Node)},
    (∀ p ∈ parts, R.terms p) → R.Does T (parameterNames ctx pos parts) fun _ => True
  | [], _ => .pure trivial
  | part :: rest, hparts => by
    obtain ⟨hpart, hrest⟩ := List.forall_mem_cons.mp hparts
    unfold parameterNames
    split
    · exact (parameterNames_keeps hpos hrest).then_return fun _ _ => trivial
    · exact .fail (hpart _ List.mem_cons_self).place _ _
    · exact .fail hpos _ _

theorem finish_keeps {b : List Node} (hb : R.terms b) : R.Does T (finish ctx b) R.value := by
  unfold finish
  split
  · exact .pure (term_value.mp (hb _ List.mem_cons_self)).2
  · split
    · rename_i n hn
      have hmem : n ∈ b := by
        rcases Option.or_eq_some_iff.mp hn with hn | ⟨-, hn⟩
        · exact List.mem_of_find?_eq_some hn
        · exact List.mem_of_getElem? hn
      exact .fail (hb n hmem).place _ _
    · exact .pure trivial

theorem bindParameters_table : ∀ (ps : List String) {vs : List Value} {t : Table Value},
    R.values vs → R.table t → R.table (bindParameters ps vs t)
  | [], _, _, _, ht => ht
  | p :: ps, [], _, hvs, ht => bindParameters_table ps hvs (table_set ht p trivial)
  | p :: ps, v :: vs, _, hvs, ht => by
    obtain ⟨hv, hrest⟩ := List.forall_mem_cons.mp hvs
    exact bindParameters_table ps hrest (table_set ht p hv)

variable {e e' : Engine}

section Nested

variable [T.Started] (he : R.Engines T e e') (hctx : R.Runs T ctx)

include he hctx

/-! ### Nested expressions -/

omit [T.Started] in
theorem evaluateValue_keeps {b : List Node} (hb : R.terms b) {pos : Position} (hpos : R.place pos) :
    R.Keeps T (evaluateValue e ctx b pos) (evaluateValue e' ctx b pos) R.value := by
  cases b with
  | nil => exact .fail hpos _ _
  | cons n rest =>
    refine (he.evaluate hctx hb).bind fun v hv => ?_
    cases v
    case absent => exact .fail (hb n List.mem_cons_self).place _ _
    all_goals exact .pure hv

omit [T.Started] in
theorem evaluateNode_keeps {n : Node} (hn : R.Term n) :
    R.Keeps T (evaluateNode e ctx n) (evaluateNode e' ctx n) R.value := by
  have hvalue := evaluateValue_keeps he hctx (terms_cons.mpr ⟨hn, terms_nil⟩) hn.place
  cases n
  case value pos v => exact .pure (term_value.mp hn).2
  case symbol pos text => exact .fail hn.place _ _
  all_goals exact hvalue

omit [T.Started] in
theorem evaluateParts_keeps {pos : Position} (hpos : R.place pos) (missing : Cause) :
    ∀ {parts : List (List Node)}, (∀ p ∈ parts, R.terms p) →
    R.Keeps T (evaluateParts e ctx pos missing parts) (evaluateParts e' ctx pos missing parts) R.values
  | [], _ => .pure values_nil
  | [] :: _, _ => .fail hpos _ _
  | (n :: part) :: rest, hparts => by
    obtain ⟨hpart, hrest⟩ := List.forall_mem_cons.mp hparts
    refine (evaluateValue_keeps he hctx hpart (hpart n List.mem_cons_self).place).bind fun v hv => ?_
    exact (evaluateParts_keeps hpos missing hrest).then_return fun _ hvs => values_cons hv hvs

omit [T.Started] he hctx in
theorem splitOn_terms {text : String} {b : List Node} (hb : R.terms b) :
    ∀ p ∈ Node.splitOn text b, R.terms p := fun _ hp n hn => hb n (Node.mem_of_mem_splitOn hp hn)

omit [T.Started] in
theorem evaluateArguments_keeps {args : List Node} (hargs : R.terms args) {pos : Position}
    (hpos : R.place pos) :
    R.Keeps T (evaluateArguments e ctx args pos) (evaluateArguments e' ctx args pos) R.values :=
  evaluateParts_keeps he hctx hpos _ (splitOn_terms hargs)

/-! ### Rules -/

omit [T.Started] in
theorem applySign_keeps (negative : Bool) {operand : SignOperand} (hop : R.signOperand operand) :
    R.Keeps T (applySign e ctx negative operand) (applySign e' ctx negative operand) R.value := by
  have hoperand : R.Keeps T (RuleScript.signOperand e ctx operand)
      (RuleScript.signOperand e' ctx operand) fun p => R.place p.2 := by
    cases operand with
    | number pos text suffix => exact (evaluateLiteral_keeps hop _ _).then_return fun _ _ => hop
    | word pos name => exact (readVariable_keeps hctx hop name).then_return fun _ _ => hop
    | paren pos body => exact (evaluateValue_keeps he hctx hop.2 hop.1).then_return fun _ _ => hop.1
  refine hoperand.bind fun p hp => ?_
  obtain ⟨v, pos⟩ := p
  cases v
  case number x => exact .pure trivial
  all_goals exact .fail hp _ _

theorem applyIndex_keeps {target : Value} (htarget : R.value target) {body : List Node}
    (hbody : R.terms body) {pos : Position} (hpos : R.place pos) :
    R.Keeps T (applyIndex e ctx target body pos) (applyIndex e' ctx target body pos) R.value := by
  refine (evaluateValue_keeps he hctx hbody hpos).bind fun index _ => ?_
  cases target
  case array r =>
    refine .onHeap fun h hh => ?_
    cases index <;>
      exact .look hpos fun i _ _ _ => .of_reads hpos fun v m _ hv =>
        hh.items htarget v (elementAt_mem _ _ _ hv)
  case string s =>
    cases index <;>
      exact .look hpos fun i _ _ _ => .look hpos fun c _ _ _ => .pure trivial
  case dict d =>
    cases index
    case string key =>
      refine .onHeap fun h hh => ?_
      split
      · rename_i v hv
        exact .pure (table_get? (hh.dict htarget) hv)
      · exact .fail hpos _ _
    all_goals exact .fail hpos _ _
  all_goals exact .fail hpos _ _

omit [T.Started] in
theorem evaluateEntries_keeps {pos : Position} (hpos : R.place pos) :
    ∀ {entries : List (List Node)} {t : Table Value}, (∀ p ∈ entries, R.terms p) → R.table t →
    R.Keeps T (evaluateEntries e ctx pos entries t) (evaluateEntries e' ctx pos entries t) R.table
  | [], _, _, ht => .pure ht
  | entry :: rest, t, hentries, ht => by
    obtain ⟨hentry, hrest⟩ := List.forall_mem_cons.mp hentries
    unfold evaluateEntries
    split
    · refine .fail ?_ _ _
      cases entry with
      | nil => exact hpos
      | cons n ns => exact (hentry n List.mem_cons_self).place
    · rename_i first keyNodes colonPos valueNodes hparts
      obtain ⟨hkey, hvalue⟩ := entryParts?_subset hparts
      obtain ⟨hfirst, hcolon⟩ := entryParts?_pos hparts
      have hplace : R.place first.pos := (hentry first hfirst).place
      refine (evaluateValue_keeps he hctx (terms_of_subset hentry hkey) hplace).bind fun k _ => ?_
      cases k
      case string key _ =>
        obtain ⟨colon, hmem, rfl⟩ := hcolon
        refine (evaluateValue_keeps he hctx (terms_of_subset hentry hvalue)
          (hentry colon hmem).place).bind fun v hv => ?_
        exact evaluateEntries_keeps hpos hrest (table_set ht key hv)
      all_goals exact .fail hplace _ _

/-- **Rules keep to a realm.** -/
theorem Redex.run_keeps {x : Redex} (hx : R.redex x) :
    R.Keeps T (x.run e ctx) (x.run e' ctx) R.value := by
  have hs := hctx.scope
  cases x with
  | function name paramsPos params body =>
    obtain ⟨hpos, hparams, hbody⟩ := hx
    refine (parameterNames_keeps hpos (splitOn_terms hparams)).bind fun names _ => ?_
    refine Keeps.bind (.newFunction ⟨hs, hbody⟩) fun f hf => ?_
    cases name with
    | none => exact .pure hf
    | some n => exact (Keeps.define hs n hf).bind fun _ _ => .pure hf
  | wordString text => exact .pure trivial
  | declaration name pos body =>
    refine (evaluateValue_keeps he hctx hx.2 hx.1).bind fun v hv => ?_
    exact (Keeps.assign hs name hv).bind fun _ _ => .pure trivial
  | capture v name => exact (Keeps.assign hs name hx).bind fun _ _ => .pure hx
  | member target dot key keyPos =>
    obtain ⟨htarget, hdot, hkey⟩ := hx
    cases target
    case dict d =>
      refine .onHeap fun h hh => ?_
      split
      · rename_i v hv
        exact .pure (table_get? (hh.dict htarget) hv)
      · exact .fail hkey _ _
    all_goals exact .fail hdot _ _
  | invoke callee calleePos args pos =>
    obtain ⟨hcallee, hcalleePos, hargs, hpos⟩ := hx
    refine .look hcalleePos fun f m _ hf => he.call hctx ?_ hargs hpos
    rwa [expectFunction_eq hf] at hcallee
  | invokeBlock callee calleePos block pos =>
    obtain ⟨hcallee, hcalleePos, hblock, hpos⟩ := hx
    refine .look hcalleePos fun f m _ hf => ?_
    rw [expectFunction_eq hf] at hcallee
    refine Keeps.bind (.newFunction ⟨hs, hblock⟩) fun callback hv => ?_
    refine he.call hctx hcallee (terms_cons.mpr ⟨.value (R.place_of_site hpos) hv, terms_nil⟩) hpos
  | index target body pos => exact applyIndex_keeps he hctx hx.1 hx.2.1 hx.2.2
  | sign negative operand => exact applySign_keeps he hctx negative hx
  | number pos text suffix => exact evaluateLiteral_keeps hx text suffix
  | word pos name => exact readVariable_keeps hctx hx name
  | quoted raw => exact .pure trivial
  | paren pos body => exact evaluateValue_keeps he hctx hx.2 hx.1
  | array pos body =>
    exact (evaluateParts_keeps he hctx hx.1 _ (splitOn_terms hx.2)).bind fun _ hvs => .newArray hvs
  | dict pos body =>
    refine (evaluateEntries_keeps he hctx hx.1 (fun p hp => ?_) table_nil).bind
      fun _ ht => .newDict ht
    exact splitOn_terms hx.2 p (mem_dictEntries hp)

/-! ### Operators -/

/-- The nodes around an operator may be evaluated. -/
structure Around (R : Realm) (a : Application) : Prop where
  before : R.terms a.before
  pos : R.place a.pos
  after : R.terms a.after

variable {a : Application} (ha : R.Around a)

include ha

omit [T.Started] he hctx in
theorem Around.between {v : Value} (hv : R.value v) : R.terms (a.between v) := by
  refine terms_append (fun n hn => ?_) (terms_cons.mpr ⟨.value ha.pos hv, fun n hn => ?_⟩)
  · exact ha.before n (List.mem_of_mem_drop (List.mem_reverse.mp hn))
  · exact ha.after n (List.mem_of_mem_drop hn)

omit [T.Started] he hctx in
theorem Around.leading {v : Value} (hv : R.value v) : R.terms (a.leading v) := by
  refine terms_append (fun n hn => ?_) (terms_cons.mpr ⟨.value ha.pos hv, fun n hn => ?_⟩)
  · exact ha.before n (List.mem_reverse.mp hn)
  · exact ha.after n (List.mem_of_mem_drop hn)

omit [T.Started] in
theorem operand_keeps {side : List Node} (hside : R.terms side) :
    R.Keeps T (a.operand e ctx side) (a.operand e' ctx side)
      fun p => R.value p.1 ∧ R.place p.2.pos := by
  cases side with
  | nil => exact .fail ha.pos _ _
  | cons n rest =>
    have hn := hside n List.mem_cons_self
    exact (evaluateNode_keeps he hctx hn).then_return fun _ hv => ⟨hv, hn.place⟩

omit [T.Started] in
theorem operands_keeps :
    R.Keeps T (a.operands e ctx) (a.operands e' ctx)
      fun p => R.place p.1.2.pos ∧ R.place p.2.2.pos := by
  refine (operand_keeps he hctx ha ha.before).bind fun l hl => ?_
  exact (operand_keeps he hctx ha ha.after).then_return fun r hr => ⟨hl.2, hr.2⟩

theorem applyPlusMinus_keeps (sign : Float → Float) (op : Float → Float → Float) :
    R.Keeps T (a.applyPlusMinus e ctx sign op) (a.applyPlusMinus e' ctx sign op) R.terms := by
  refine (operand_keeps he hctx ha ha.after).bind fun r hr => .look hr.2 fun y _ _ _ => ?_
  refine .ite (.pure (ha.leading trivial)) ?_
  refine (operand_keeps he hctx ha ha.before).bind fun l hl => .look hl.2 fun x _ _ _ => ?_
  exact .pure (ha.between trivial)

omit [T.Started] in
theorem applyHash_keeps : R.Keeps T (a.applyHash e ctx) (a.applyHash e' ctx) R.terms := by
  unfold Application.applyHash
  split
  · exact .fail ha.pos _ _
  · exact .pure (ha.leading trivial)
  · rename_i n rest _ hafter
    have hn : R.Term n := ha.after n (hafter ▸ List.mem_cons_self)
    exact (evaluateNode_keeps he hctx hn).bind fun v _ => .onHeap fun _ _ =>
      .pure (ha.leading trivial)

omit [T.Started] in
theorem applyAssign_keeps : R.Keeps T (a.applyAssign e ctx) (a.applyAssign e' ctx) R.terms := by
  have hbefore := ha.before
  unfold Application.applyAssign
  split
  · exact .fail ha.pos _ _
  · rename_i pos name rest heq
    rw [heq] at hbefore
    refine (evaluateValue_keeps he hctx ha.after ha.pos).bind fun v hv => ?_
    refine (Keeps.assign hctx.scope name hv).bind fun _ _ => .pure (terms_append (fun n hn => ?_) ?_)
    · exact hbefore n (List.mem_cons_of_mem _ (List.mem_reverse.mp hn))
    · exact terms_cons.mpr ⟨.value (hbefore _ List.mem_cons_self).place hv, terms_nil⟩
  · rename_i n rest _ heq
    exact .fail (hbefore n (heq ▸ List.mem_cons_self)).place _ _

/-- **Operators keep to a realm.** -/
theorem Application.run_keeps : R.Keeps T (a.run e ctx) (a.run e' ctx) R.terms := by
  have hands := operands_keeps he hctx ha
  unfold Application.run
  split
  · rename_i f hf
    refine hands.bind fun p hp => .look hp.1 fun x _ _ _ => .look hp.2 fun y _ _ _ => ?_
    exact .pure (ha.between (value_of_isScalar (Operator.onNumbers?_isScalar hf x y)))
  · exact hands.bind fun p hp => .look hp.1 fun x _ _ _ => .look hp.2 fun y _ _ _ =>
      .pure (ha.between trivial)
  · split
    · exact applyPlusMinus_keeps he hctx ha _ _
    · exact applyPlusMinus_keeps he hctx ha _ _
    · refine (operand_keeps he hctx ha ha.after).bind fun r hr => .look hr.2 fun b _ _ _ => ?_
      exact .pure (ha.leading trivial)
    · exact hands.then_return fun _ _ => ha.between trivial
    · exact hands.then_return fun _ _ => ha.between trivial
    · exact applyAssign_keeps he hctx ha
    · exact applyHash_keeps he hctx ha

end Nested

/-! ### Statements -/

section Statements

variable (he : R.Engines T.started e e') (hctx : R.Runs T ctx)

include he hctx

theorem applyRule_keeps {b : List Node} (hb : R.terms b) :
    R.Keeps T (applyRule e ctx b) (applyRule e' ctx b) fun o => ∀ b', o = some b' → R.terms b' := by
  unfold applyRule
  split
  · exact .pure (by rintro _ ⟨⟩)
  · rename_i r hr
    obtain ⟨k, hk, hpos⟩ := Match.findFrom?_pos hr
    obtain ⟨n, rest, prev, rfl, hredex, hafter⟩ := Match.findFrom?_redex? hr
    have hplace : R.place r.pos := hpos ▸ (hb k hk).place
    have hwindow : R.terms (n :: rest) := terms_of_subset hb (List.subset_append_right _ _)
    refine .fire hplace _ _ _ ?_
    refine (Redex.run_keeps he ⟨hctx.scope, hctx.depth⟩ (redex?_redex hredex hwindow)).then_return ?_
    rintro v hv _ ⟨⟩
    refine terms_append (terms_of_subset hb (List.subset_append_left _ _)) ?_
    refine terms_cons.mpr ⟨.value hplace hv, ?_⟩
    rw [hafter]
    exact terms_of_subset hwindow (List.drop_subset _ _)

theorem applyOperator_keeps {b : List Node} (hb : R.terms b) :
    R.Keeps T (applyOperator e ctx b) (applyOperator e' ctx b)
      fun o => ∀ b', o = some b' → R.terms b' := by
  unfold applyOperator
  split
  · exact .pure (by rintro _ ⟨⟩)
  · rename_i a ha
    obtain ⟨text, rfl⟩ := Application.find?_window ha
    obtain ⟨hbefore, hrest⟩ := List.forall_mem_append.mp hb
    obtain ⟨hsymbol, hafter⟩ := terms_cons.mp hrest
    have haround : R.Around a :=
      ⟨fun n hn => hbefore n (List.mem_reverse.mpr hn), hsymbol.place, hafter⟩
    refine .fire haround.pos _ _ _ ?_
    refine (Application.run_keeps he ⟨hctx.scope, hctx.depth⟩ haround).then_return ?_
    rintro b' hb' _ ⟨⟩
    exact hb'

theorem reduceStep_keeps {b : List Node} (hb : R.terms b) :
    R.Keeps T (reduceStep e ctx b) (reduceStep e' ctx b)
      fun o => ∀ b', o = some b' → R.terms b' := by
  refine (applyRule_keeps he hctx hb).bind fun o ho => ?_
  cases o with
  | some b' => exact .pure ho
  | none => exact applyOperator_keeps he hctx hb

theorem reduceFor_keeps : ∀ (steps : Nat) {b : List Node}, R.terms b →
    R.Keeps T (reduceFor e ctx steps b) (reduceFor e' ctx steps b) R.value
  | 0, _, hb => finish_keeps hb
  | steps + 1, b, hb => by
    refine (reduceStep_keeps he hctx hb).bind fun o ho => ?_
    cases o with
    | some b' => exact reduceFor_keeps steps (ho b' rfl)
    | none => exact finish_keeps hb

theorem evaluateStatement_keeps {b : List Node} (hb : R.terms b) :
    R.Keeps T (evaluateStatement e ctx b) (evaluateStatement e' ctx b) R.value := by
  cases b with
  | nil => exact .pure trivial
  | cons n b => exact reduceFor_keeps he hctx _ hb

theorem evaluateStatements_keeps : ∀ {statements : List (List Node)} {last : Value},
    (∀ b ∈ statements, R.terms b) → R.value last →
    R.Keeps T (evaluateStatements e ctx last statements) (evaluateStatements e' ctx last statements)
      R.value
  | [], _, _, hlast => .pure hlast
  | b :: rest, _, hstatements, _ => by
    obtain ⟨hb, hrest⟩ := List.forall_mem_cons.mp hstatements
    exact (evaluateStatement_keeps he hctx hb).bind fun v hv => evaluateStatements_keeps hrest hv

/-- **Statement lists keep to a realm.** -/
theorem evaluateList_keeps {b : List Node} (hb : R.terms b) :
    R.Keeps T (evaluateList e ctx b) (evaluateList e' ctx b) R.value :=
  evaluateStatements_keeps he hctx (splitOn_terms hb) trivial

end Statements

/-! ### Calls -/

section Calls

variable (he : R.Engines T e e') (hctx : R.Runs T ctx) {args : List Node} (hargs : R.terms args)
  {pos : Position} (hpos : R.site pos)

include he hctx hargs hpos

theorem callScript_keeps {f : ScriptFunction} (hf : R.code (.script f)) :
    R.Keeps T (callScript e ctx f args pos) (callScript e' ctx f args pos) R.value := by
  have hplace := R.place_of_site hpos
  refine (evaluateArguments_keeps he hctx hargs hplace).bind fun values hvalues => ?_
  have hfresh := Keeps.newScope (T := T) hf.1 (bindParameters_table f.params hvalues table_nil)
  have hown : R.Does T (pure f.scope) R.scope := .pure hf.1
  refine .ite (.fail hplace _ _) (.ite (hown.bind fun scope hscope => ?_)
    (hfresh.bind fun scope hscope => ?_))
  all_goals
    refine (he.evaluate (hctx.within hscope f.source) hf.2).bind fun v hv => ?_
    cases v
    case absent => exact .pure trivial
    all_goals exact .pure hv

/-- What a call does keeps to a realm if native calls do. -/
theorem callBodyBy_keeps {native : Site → NativeFunction → List Value → Eval Value} {f : Function}
    (hf : R.code f) (hnative : ∀ {g : NativeFunction} {values : List Value}, R.operation g.operation →
      R.values values →
      R.Keeps T (callNative ⟨e, ctx, pos⟩ g values) (native ⟨e', ctx, pos⟩ g values) R.value) :
    R.Keeps T (callBody e ctx f args pos) (callBodyBy native e' ctx f args pos) R.value := by
  cases f with
  | script f => exact callScript_keeps he hctx hargs hpos hf
  | native g =>
    exact (evaluateArguments_keeps he hctx hargs (R.place_of_site hpos)).bind fun values hvalues =>
      hnative hf hvalues

end Calls

/-- **The levels above two engines keep to a realm** if the engines do, and if
native calls on them do. -/
theorem Engines.nextBy {R : Realm} {T : Twin} {e e' : Engine} (he : R.Engines T.started e e')
    {native : Site → NativeFunction → List Value → Eval Value}
    (hnative : ∀ {ctx : Context} {pos : Position} {g : NativeFunction} {values : List Value},
      R.Runs T.started ctx → R.site pos → R.operation g.operation → R.values values →
      R.Keeps T.started (callNative ⟨e, ctx, pos⟩ g values) (native ⟨e', ctx, pos⟩ g values) R.value) :
    R.Engines T.started e.next (e'.nextBy native) where
  evaluate hctx hb := evaluateList_keeps (T := T.started) he hctx hb
  call {ctx f args pos} hctx hf hargs hpos := by
    intro m m' hm hb
    have hplace := R.place_of_site hpos
    have hframe (g : Function) : R.frame (callFrame ctx g pos) := ⟨pos, hpos, rfl, rfl⟩
    have hget (m : Machine) {k : Machine → Eval Value} : (get >>= k) m = k m m := rfl
    have hadmits : ctx.settings.admitsCall m'.calls.length =
        ctx.settings.admitsCall m.calls.length := by
      rcases hctx.depth with haligned | hdepth
      · rw [hb.calls haligned]
      · unfold Settings.admitsCall
        rw [hdepth]
    unfold Engine.next Engine.nextBy callFunction
    dsimp only
    rw [hget, hget, hadmits, hb.heap]
    cases ctx.settings.admitsCall m.calls.length with
    | false => exact Keeps.fail hplace ctx .depthExceeded hm hb
    | true =>
      cases hg : m.heap.function? f with
      | none => exact Keeps.fail hplace ctx _ hm hb
      | some g =>
        have hbody := callBodyBy_keeps he hctx hargs hpos (hm.heap.functions hf hg)
          fun hop hvalues => hnative hctx hpos hop hvalues
        exact Keeps.withFrame (hframe g) hbody hm hb

theorem engines_exhausted {R : Realm} {T : Twin} : R.Engines T.started .exhausted .exhausted where
  evaluate _ _ := .exhausted
  call _ _ _ _ := .exhausted

/-- **Every level keeps to every realm.** -/
theorem engines_level {R : Realm} {T : Twin} (hT : T.Echoes) : ∀ n,
    R.Engines T.started (Engine.level n) (Engine.level n)
  | 0 => engines_exhausted
  | n + 1 => by
    have he : R.Engines T.started (Engine.level n) (Engine.level n) := engines_level hT n
    have hnext : R.Engines T.started (Engine.level n).next ((Engine.level n).nextBy callNative) :=
      he.nextBy fun hctx hpos hop hvalues => callNative_keeps he hctx hpos hvalues hop fun _ => hT
    rwa [← Engine.next_eq_nextBy] at hnext

end Evaluation

end Realm

end RuleScript
