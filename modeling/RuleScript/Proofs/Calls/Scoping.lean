/-
# Calls are lexically scoped

A call with values hands them over as nodes, which are split at commas and
evaluated in the caller's context like any arguments. But a node that carries
a value is evaluated to that value by any engine, whatever the scope
(`evaluate_value_inScope`), and the body of the function is evaluated in a
scope that the function brings along. So it makes no difference in which scope
such a call stands.

A function that is no block brings along the scope inside which it was made,
and gets a fresh scope in it. What is bound there is said of the parameters
alone: each one is bound once, in order, to the value at the last place where
its name stands (`names_bindParameters`, `get?_bindParameters`).

Key definitions: `Context.inScope`.
Key theorems: `evaluateArguments_inScope`, `evaluateArguments_valueNodes`,
`callWithValues_entered`, `names_bindParameters`, `get?_bindParameters`,
`calls_are_lexically_scoped`.
-/
import RuleScript.Proofs.Heap.WellFormed
import RuleScript.Proofs.Hosts.Binding
import RuleScript.Proofs.Reduction.Operand

namespace RuleScript

/-- The context in another scope. -/
def Context.inScope (ctx : Context) (scope : ScopeRef) : Context := { ctx with scope }

/-! ### Values as arguments -/

/-- Values with commas between them are as many parts. -/
theorem splitOn_valueNodes (pos : Position) : ∀ vs : List Value,
    Node.splitOn "," (valueNodes pos vs) = vs.map fun v => [.value pos v]
  | [] => rfl
  | [_] => rfl
  | v :: w :: vs => by
    have ih := splitOn_valueNodes pos (w :: vs)
    have hcons : Node.splitOn "," (valueNodes pos (v :: w :: vs)) =
        [.value pos v] :: Node.splitOnFrom "," [] (valueNodes pos (w :: vs)) := by
      simp [valueNodes, Node.splitOn, Node.splitOnFrom, Node.isSymbolText]
    have hrest : Node.splitOnFrom "," [] (valueNodes pos (w :: vs)) =
        Node.splitOn "," (valueNodes pos (w :: vs)) := by
      cases vs <;> rfl
    rw [hcons, hrest, ih]
    rfl

section Arguments

variable (n : Nat) (ctx : Context) (pos : Position)

/-- A value is its own value on all but the lowest level. -/
theorem evaluate_value (v : Value) : (Engine.level (n + 1)).evaluate ctx [.value pos v] = pure v := by
  have hstatement : (Engine.level (n + 1)).evaluate ctx [.value pos v] =
      reduce (Engine.level n) ctx [.value pos v] >>= pure := rfl
  rw [hstatement, reduce_value, bind_pure]

/-- A value is evaluated alike in all scopes. -/
theorem evaluate_value_inScope (scope : ScopeRef) (v : Value) :
    (Engine.level n).evaluate (ctx.inScope scope) [.value pos v] =
      (Engine.level n).evaluate ctx [.value pos v] := by
  cases n with
  | zero => rfl
  | succ n => rw [evaluate_value, evaluate_value]

theorem evaluateParts_inScope (scope : ScopeRef) (missing : Cause) : ∀ vs : List Value,
    evaluateParts (Engine.level n) (ctx.inScope scope) pos missing (vs.map fun v => [.value pos v]) =
      evaluateParts (Engine.level n) ctx pos missing (vs.map fun v => [.value pos v])
  | [] => rfl
  | v :: vs => by
    have hvalue : evaluateValue (Engine.level n) (ctx.inScope scope) [.value pos v] pos =
        evaluateValue (Engine.level n) ctx [.value pos v] pos := by
      unfold evaluateValue
      rw [evaluate_value_inScope]
      rfl
    have ih := evaluateParts_inScope scope missing vs
    simp only [List.map_cons, evaluateParts, Node.pos, hvalue, ih]

/-- **Values are handed over alike in all scopes.** -/
theorem evaluateArguments_inScope (scope : ScopeRef) (vs : List Value) :
    evaluateArguments (Engine.level n) (ctx.inScope scope) (valueNodes pos vs) pos =
      evaluateArguments (Engine.level n) ctx (valueNodes pos vs) pos := by
  unfold evaluateArguments
  rw [splitOn_valueNodes]
  exact evaluateParts_inScope n ctx pos scope .missingArgument vs

/-- A value is what an argument needs; the mark of a missing one is refused. -/
theorem evaluateValue_value (v : Value) : evaluateValue (Engine.level (n + 1)) ctx [.value pos v] pos =
    if v.isAbsent then Eval.fail ctx pos .noValue else pure v := by
  unfold evaluateValue
  rw [evaluate_value]
  cases v <;> rfl

theorem evaluateParts_values (missing : Cause) : ∀ vs : List Value,
    evaluateParts (Engine.level (n + 1)) ctx pos missing (vs.map fun v => [.value pos v]) =
      if vs.any (·.isAbsent) then Eval.fail ctx pos .noValue else pure vs
  | [] => rfl
  | v :: vs => by
    have ih := evaluateParts_values missing vs
    simp only [List.map_cons, evaluateParts, Node.pos, evaluateValue_value, ih]
    by_cases hv : v.isAbsent = true
    · have hany : (v :: vs).any (·.isAbsent) = true := by simp [hv]
      rw [if_pos hv, if_pos hany]
      rfl
    · rw [if_neg hv, pure_bind]
      by_cases hvs : vs.any (·.isAbsent) = true
      · have hany : (v :: vs).any (·.isAbsent) = true := by simp [hvs]
        rw [if_pos hvs, if_pos hany]
        rfl
      · have hnone : ¬(v :: vs).any (·.isAbsent) = true := by simp [hv, hvs]
        rw [if_neg hvs, if_neg hnone, pure_bind]

/-- **Values come through as they are**, in order and without any effect. Only
the mark of a missing value does not. -/
theorem evaluateArguments_valueNodes (vs : List Value) :
    evaluateArguments (Engine.level (n + 1)) ctx (valueNodes pos vs) pos =
      if vs.any (·.isAbsent) then Eval.fail ctx pos .noValue else pure vs := by
  unfold evaluateArguments
  rw [splitOn_valueNodes]
  exact evaluateParts_values n ctx pos .missingArgument vs

theorem evaluateArguments_present {vs : List Value} (hvs : ∀ v ∈ vs, v ≠ .absent) :
    evaluateArguments (Engine.level (n + 1)) ctx (valueNodes pos vs) pos = pure vs := by
  have hnone : ¬vs.any (·.isAbsent) = true := by
    rw [List.any_eq_true]
    rintro ⟨v, hv, habsent⟩
    have hpresent := hvs v hv
    cases v <;> simp_all [Value.isAbsent]
  rw [evaluateArguments_valueNodes, if_neg hnone]

end Arguments

/-! ### Parameters -/

/-- Writing to a name that is not there adds it at the end. -/
theorem Table.names_set_of_not_mem {α : Type} {name : String} (a : α) : ∀ {t : Table α},
    name ∉ t.names → (t.set name a).names = t.names ++ [name]
  | [], _ => rfl
  | (n, b) :: rest, hname => by
    rw [names_cons, List.mem_cons, not_or] at hname
    unfold set
    rw [if_neg (Ne.symm hname.1), names_cons, names_cons, names_set_of_not_mem a hname.2]
    rfl

/-- The parameters that a table lacks are added to it, each at its first
place. -/
theorem names_bindParameters_onto : ∀ (ps : List String) (vs : List Value) (t : Table Value),
    (bindParameters ps vs t).names = t.names ++ (ps.filter fun p => !t.names.contains p).eraseDups
  | [], _, t => by simp [bindParameters]
  | p :: ps, vs, t => by
    rw [bindParameters, names_bindParameters_onto ps]
    by_cases hp : p ∈ t.names
    · have hhas : t.has p = true := (Table.mem_names_iff p t).mp hp
      rw [Table.names_set_of_has p _ hhas, List.filter_cons_of_neg (by simpa using hp)]
    · have hfilter : (fun q => !(t.names ++ [p]).contains q) =
          fun q => !(q == p) && !t.names.contains q := by
        funext q
        rw [List.contains_append, Bool.not_or, Bool.and_comm, List.contains_cons]
        simp
      rw [Table.names_set_of_not_mem _ hp, List.filter_cons_of_pos (by simpa using hp),
        List.eraseDups_cons, List.filter_filter, List.append_assoc, hfilter]
      rfl

/-- **The parameters are bound in order**, each once. -/
theorem names_bindParameters (ps : List String) (vs : List Value) :
    (bindParameters ps vs []).names = ps.eraseDups := by
  have hall : (ps.filter fun p => !(Table.names ([] : Table Value)).contains p) = ps :=
    List.filter_eq_self.mpr fun p _ => by simp [Table.names]
  rw [names_bindParameters_onto, hall]
  rfl

theorem get?_bindParameters_of_not_mem {name : String} : ∀ {ps : List String} (_ : name ∉ ps)
    (vs : List Value) (t : Table Value), (bindParameters ps vs t).get? name = t.get? name
  | [], _, _, _ => rfl
  | p :: ps, hname, vs, t => by
    rw [List.mem_cons, not_or] at hname
    rw [bindParameters, get?_bindParameters_of_not_mem hname.2, Table.get?_set, if_neg (Ne.symm hname.1)]

/-- **A parameter is bound to its value**, or to null if it has none; a name
that stands more than once is bound to the value of its last place. -/
theorem get?_bindParameters {name : String} : ∀ {ps : List String} {i : Nat}, ps[i]? = some name →
    name ∉ ps.drop (i + 1) → ∀ (vs : List Value) (t : Table Value),
      (bindParameters ps vs t).get? name = some (vs[i]?.getD .null)
  | p :: ps, 0, hi, hlast, vs, t => by
    obtain rfl : p = name := by simpa using hi
    rw [bindParameters, get?_bindParameters_of_not_mem (by simpa using hlast), Table.get?_set, if_pos rfl]
    cases vs <;> rfl
  | p :: ps, i + 1, hi, hlast, vs, t => by
    rw [bindParameters, get?_bindParameters (by simpa using hi) (by simpa using hlast)]
    cases vs <;> rfl

/-! ### Calls -/

/-- The scope in which a call with values evaluates the body of a function: a
fresh one inside the scope that the function closes over, in which the
parameters are bound in order, each once. A parameter is bound to its value,
or to null if it has none; of several places of one name the last counts. -/
structure ParameterScope (f : ScriptFunction) (vs : List Value) (h h' : Heap) (s : ScopeRef) : Prop where
  fresh : ¬h.HasScope s
  parent : (h'.scope s).parent = some f.scope
  names : (h'.bindings s).names = f.params.eraseDups
  value : ∀ (i : Nat) (name : String), f.params[i]? = some name → name ∉ f.params.drop (i + 1) →
    (h'.bindings s).get? name = some (vs[i]?.getD .null)
  others : ∀ t, h.HasScope t → h'.scope t = h.scope t
  rest : h' = { h with scopes := h'.scopes }

theorem parameterScope_newScope (f : ScriptFunction) (vs : List Value) (h : Heap) :
    let new := h.newScope (some f.scope) (bindParameters f.params vs [])
    ParameterScope f vs h new.2 new.1 := by
  intro new
  have hscope : new.2.scope new.1 = ⟨bindParameters f.params vs [], some f.scope⟩ := by
    rw [h.scope_newScope]
    exact if_pos rfl
  have hbindings : new.2.bindings new.1 = bindParameters f.params vs [] := congrArg Scope.bindings hscope
  constructor
  · exact Nat.lt_irrefl _
  · rw [hscope]
  · rw [hbindings, names_bindParameters]
  · intro i name hi hlast
    rw [hbindings, get?_bindParameters hi hlast]
  · intro t ht
    rw [h.scope_newScope, if_neg (Nat.ne_of_lt ht)]
  · rfl

section Calls

variable {ctx : Context} {ref : FunctionRef} {f : ScriptFunction} {m : Machine}

/-- A call with values is refused if it would go too deep, or else entered. -/
theorem callWithValues_entered {f : Function} (href : m.heap.function? ref = some f) (n : Nat)
    (ctx : Context) (vs : List Value) (pos : Position) :
    (Engine.level (n + 1)).callWithValues ctx ref vs pos m =
      if ctx.settings.admitsCall m.calls.length then
        Eval.withFrame (callFrame ctx f pos) (callBody (Engine.level n) ctx f (valueNodes pos vs) pos) m
      else (.error (refusal ctx pos), m) := by
  by_cases hadmits : ctx.settings.admitsCall m.calls.length = true
  · rw [if_pos hadmits]
    exact callBy_entered Eval.withFrame (Engine.level n) href hadmits (valueNodes pos vs) pos
  · have hget (k : Machine → Eval Value) : (get >>= k) m = k m m := rfl
    rw [if_neg hadmits]
    show callFunction (Engine.level n) ctx ref (valueNodes pos vs) pos m = _
    unfold callFunction
    rw [hget, if_pos (by simpa using hadmits)]
    rfl

/-- A call with values of a function of the language. -/
theorem callWithValues_script (href : m.heap.function? ref = some (.script f)) (n : Nat) (ctx : Context)
    (vs : List Value) (pos : Position) :
    (Engine.level (n + 1)).callWithValues ctx ref vs pos m =
      if ctx.settings.admitsCall m.calls.length then
        Eval.withFrame (callFrame ctx (.script f) pos)
          (callScript (Engine.level n) ctx f (valueNodes pos vs) pos) m
      else (.error (refusal ctx pos), m) :=
  callWithValues_entered href n ctx vs pos

/-- **A call with values does the same whatever scope it stands in.** -/
theorem callWithValues_inScope (href : m.heap.function? ref = some (.script f)) (n : Nat) (ctx : Context)
    (scope : ScopeRef) (vs : List Value) (pos : Position) :
    (Engine.level n).callWithValues (ctx.inScope scope) ref vs pos m =
      (Engine.level n).callWithValues ctx ref vs pos m := by
  cases n with
  | zero => rfl
  | succ n =>
    have hbody : callScript (Engine.level n) (ctx.inScope scope) f (valueNodes pos vs) pos =
        callScript (Engine.level n) ctx f (valueNodes pos vs) pos := by
      unfold callScript
      rw [evaluateArguments_inScope]
      rfl
    rw [callWithValues_script href, callWithValues_script href, hbody]
    rfl

/-- **A function that is no block evaluates its body in a scope of its own.** -/
theorem callScript_values (hf : f.isBlock = false) {vs : List Value} (hvs : ∀ v ∈ vs, v ≠ .absent)
    (hlength : vs.length ≤ f.params.length) (n : Nat) (ctx : Context) (pos : Position) (m : Machine) :
    let new := m.heap.newScope (some f.scope) (bindParameters f.params vs [])
    callScript (Engine.level (n + 1)) ctx f (valueNodes pos vs) pos m =
      orNull ((Engine.level (n + 1)).evaluate (ctx.within new.1 f.source) f.body)
        { m with heap := new.2 } := by
  intro new
  unfold callScript
  rw [evaluateArguments_present n ctx pos hvs, pure_bind, if_neg (Nat.not_lt.mpr hlength), hf]
  rfl

end Calls

/-- **Functions of the language are lexically scoped.** A call of one with
values has the same outcome on the same machine for any two contexts that
differ only in their scope, be it a block or not. If it is no block and gets
no more values than it has parameters, a call that is not refused for its
depth evaluates the body in a fresh scope inside the one that the function
closes over, with the parameters bound in order to the values or to null. -/
theorem calls_are_lexically_scoped (ref : FunctionRef) (f : ScriptFunction) (m : Machine)
    (href : m.heap.function? ref = some (.script f)) (ctx : Context) (vs : List Value) (pos : Position) :
    (∀ (n : Nat) (scope scope' : ScopeRef),
      (Engine.level n).callWithValues (ctx.inScope scope) ref vs pos m =
        (Engine.level n).callWithValues (ctx.inScope scope') ref vs pos m) ∧
    (f.isBlock = false → (∀ v ∈ vs, v ≠ .absent) → vs.length ≤ f.params.length →
      ∃ (scope : ScopeRef) (heap : Heap), ParameterScope f vs m.heap heap scope ∧ ∀ n : Nat,
        (Engine.level (n + 2)).callWithValues ctx ref vs pos m =
          if ctx.settings.admitsCall m.calls.length then
            Eval.withFrame (callFrame ctx (.script f) pos)
              (orNull ((Engine.level (n + 1)).evaluate (ctx.within scope f.source) f.body))
              { m with heap }
          else (.error (refusal ctx pos), m)) := by
  constructor
  · intro n scope scope'
    rw [callWithValues_inScope href, callWithValues_inScope href]
  · intro hf hvs hlength
    refine ⟨_, _, parameterScope_newScope f vs m.heap, fun n => ?_⟩
    rw [callWithValues_script href]
    congr 1
    unfold Eval.withFrame
    rw [callScript_values hf hvs hlength]

/-- A closure with a parameter that is named twice, called with two values from
two scopes: the name is bound to null, since its last place has no value. -/
theorem calls_are_lexically_scoped_repeated :
    let pos : Position := ⟨some 1, some 1, 0⟩
    let f : ScriptFunction := ⟨["a", "b", "a"], [.word pos "b"], ⟨0⟩, "", some "f", false, none⟩
    let heap : Heap := ⟨#[⟨[], none⟩, ⟨[("b", .null)], none⟩], #[], #[], #[.script f]⟩
    let m : Machine := { Machine.initial with heap }
    let ctx : Context := ⟨⟨0⟩, "", ⟨none, "", false, .usual⟩⟩
    let vs : List Value := [.bool false, .bool true]
    m.heap.function? ⟨0⟩ = some (.script f) ∧
      ((Engine.level 3).callWithValues (ctx.inScope ⟨1⟩) ⟨0⟩ vs pos m).1 = .ok (.bool true) ∧
      (Engine.level 3).callWithValues (ctx.inScope ⟨1⟩) ⟨0⟩ vs pos m =
        (Engine.level 3).callWithValues (ctx.inScope ⟨0⟩) ⟨0⟩ vs pos m ∧
      ∃ scope heap', ParameterScope f vs heap heap' scope ∧
        (heap'.bindings scope).get? "a" = some .null := by
  intro pos f heap m ctx vs
  have hlaw := calls_are_lexically_scoped ⟨0⟩ f m rfl ctx vs pos
  have hvs : ∀ v ∈ vs, v ≠ .absent := by simp [vs]
  obtain ⟨scope, heap', hscope, -⟩ := hlaw.2 rfl hvs (by decide)
  exact ⟨rfl, rfl, hlaw.1 3 ⟨1⟩ ⟨0⟩, scope, heap', hscope, hscope.value 2 "a" rfl (by decide)⟩

end RuleScript
