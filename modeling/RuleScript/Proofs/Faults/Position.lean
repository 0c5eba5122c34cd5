/-
# Faults point at nodes

On a new runner all code is the code of the program that is run. So each fault
that comes out stands where a node of the program stands, at whatever depth,
and each call that it has left stands where a span of the program stands. The
realm of a program (`Realm.program`) has these positions and no others; the
nodes that evaluation makes up, for the values of operands and for the
arguments of callbacks, are placed at nodes that were there.

Exhaustion counts too: it is reported where the last rule or operator fired,
and before one has fired nothing is exhausted.

Key definitions: `Realm.program`, `Runner.OnlyNatives`.
Key theorems: `Realm.program_terms`, `Realm.program_holds`,
`Runner.create_onlyNatives`, `faults_point_at_nodes`.
-/
import RuleScript.Proofs.Likeness.Isolation
import RuleScript.Proofs.Policy.Session
import RuleScript.Proofs.Realm.Evaluation

namespace RuleScript

namespace Realm

/-! ### The nodes of a source text -/

theorem assemble_terms {R : Realm} {spans : Nat} : ∀ {ts : List Token} {stack : List OpenSpan}
    {done nodes : List Node}, (∀ t ∈ ts, R.site t.cursor.position) →
    (∀ s ∈ stack, R.site s.pos ∧ R.terms s.before) → R.terms done →
    assemble spans ts stack done = .ok nodes → R.terms nodes
  | [], [], done, nodes, _, _, hdone, h => by
    obtain rfl := Except.ok.inj h
    exact terms_of_subset hdone fun _ hn => List.mem_reverse.mp hn
  | [], _ :: _, _, _, _, _, _, h => by cases h
  | t :: rest, stack, done, nodes, hts, hstack, hdone, h => by
    obtain ⟨ht, hrest⟩ := List.forall_mem_cons.mp hts
    have hplace := R.place_of_site ht
    unfold assemble at h
    dsimp only at h
    split at h
    · split at h
      · cases h
      · exact assemble_terms hrest (List.forall_mem_cons.mpr ⟨⟨ht, hdone⟩, hstack⟩) terms_nil h
    · split at h
      · cases h
      · rename_i d _ _ s stack
        obtain ⟨⟨hs, hbefore⟩, hstack'⟩ := List.forall_mem_cons.mp hstack
        split at h
        · have hspan : R.Term (.span s.pos d done.reverse) :=
            .span d hs fun n hn => hdone n (List.mem_reverse.mp hn)
          exact assemble_terms hrest hstack' (terms_cons.mpr ⟨hspan, hbefore⟩) h
        · cases h
    · exact assemble_terms hrest hstack (terms_cons.mpr ⟨.number _ _ hplace, hdone⟩) h
    · exact assemble_terms hrest hstack (terms_cons.mpr ⟨.word _ hplace, hdone⟩) h
    · exact assemble_terms hrest hstack (terms_cons.mpr ⟨.quoted _ hplace, hdone⟩) h
    · exact assemble_terms hrest hstack (terms_cons.mpr ⟨.symbol _ hplace, hdone⟩) h

/-- The nodes of a source text stand where its tokens do. -/
theorem parse_terms {R : Realm} (hsite : ∀ k : Cursor, R.site k.position) {text : String}
    {spans : Nat} {nodes : List Node} (h : parse spans text = .ok nodes) : R.terms nodes := by
  obtain ⟨ts, -, hassemble⟩ := exists_tokens_of_parse h
  exact assemble_terms (fun t _ => hsite t.cursor) (by rintro _ ⟨⟩) terms_nil hassemble

end Realm

/-- A node of a source text has a line and a column. -/
theorem Node.Occurs.placed {text : String} {spans : Nat} {nodes : List Node}
    (hparse : parse spans text = .ok nodes)
    {n : Node} (hn : n.Occurs nodes) : n.pos.line.isSome ∧ n.pos.column.isSome := by
  let placed (p : Position) : Prop := p.line.isSome ∧ p.column.isSome
  have hsite (k : Cursor) : placed k.position := ⟨rfl, rfl⟩
  have hnodes : (Realm.located placed placed id).terms nodes := Realm.parse_terms hsite hparse
  exact (Realm.Term.of_occurs hnodes hn).place

namespace Realm

/-! ### The realm of a program -/

/-- The realm in which faults stand at the nodes of a program and calls at its
spans. -/
def program (nodes : List Node) : Realm :=
  located (fun p => ∃ n : Node, n.Occurs nodes ∧ n.pos = p)
    (fun p => ∃ d body, (Node.span p d body).Occurs nodes) fun ⟨_, _, hspan⟩ => ⟨_, hspan, rfl⟩

instance {nodes : List Node} : (program nodes).Unfenced :=
  ⟨fun _ => trivial, fun _ => trivial, fun _ => trivial, fun _ => trivial⟩

theorem program_terms (nodes : List Node) : (program nodes).terms nodes :=
  terms_of_occurs (fun n hn => ⟨n, hn, rfl⟩) (fun _ _ _ hspan => ⟨_, _, hspan⟩)
    fun _ v _ => Unfenced.value v

end Realm

/-! ### A new runner -/

/-- The policy that keeps the functions of scripts away. -/
def Policy.nativeOnly : Policy where
  value _ _ := True
  scope _ _ := False
  link _ _ := True
  closed _ := False
  literal _ _ := True
  foreign := True
  emptying := True
  stop _ := True

instance : Policy.nativeOnly.Lawful := by
  constructor <;> intros <;> trivial

/-- The functions of the standard library are natives. -/
theorem Runner.library_native (hosts : Array Host) {r : FunctionRef} {f : Function}
    (hf : (library hosts).2.heap.function? r = some f) : ∃ g, f = .native g := by
  have hinitial : Policy.nativeOnly.Holds { Machine.initial with hosts } := by
    refine ⟨Policy.admits_of_opened Policy.opened_empty fun _ => False.elim, ?_⟩
    exact fun _ _ _ _ _ _ _ _ _ p _ => p.madeOf_of_forall (fun _ => .inr trivial) trivial
  obtain ⟨-, hend⟩ := Policy.rootBindings_does hinitial
  have hholds : Policy.nativeOnly.Holds (library hosts).2 := by
    unfold library
    split
    · rename_i hr
      rw [hr] at hend
      exact hend.holds
    · rename_i hr
      rw [hr] at hend
      exact hend.holds
  have hfunction := hholds.heap.functions r f hf
  cases f with
  | script f => exact hfunction.1.elim
  | native g => exact ⟨g, rfl⟩

namespace Runner

/-- No function of a script is on the heap of the runner. -/
def OnlyNatives (r : Runner) : Prop :=
  ∀ ref f, r.machine.heap.function? ref = some f → ∃ g, f = .native g

theorem restore_functions (r : Runner) (name : String) :
    (r.restore name).machine.heap.functions = r.machine.heap.functions := by
  unfold restore
  split <;> rfl

namespace OnlyNatives

variable {r : Runner} (hr : r.OnlyNatives)

include hr

theorem of_functions {r' : Runner} (h : r'.machine.heap.functions = r.machine.heap.functions) :
    r'.OnlyNatives := by
  intro ref f hf
  unfold Heap.function? at hf
  rw [h] at hf
  exact hr ref f hf

theorem releaseHost : r.releaseHost.OnlyNatives := by
  refine hr.of_functions ?_
  show (r.hostNames.foldl restore r).machine.heap.functions = _
  generalize r.hostNames = names
  clear hr
  induction names generalizing r with
  | nil => rfl
  | cons name names ih => rw [List.foldl_cons, ih, restore_functions]

theorem bindMethod (host index : Nat) (k : HostMethod) : (bindMethod host index r k).OnlyNatives := by
  intro ref f hf
  have hnew := r.machine.heap.function?_newFunction (wrapper host index k) ref
  rw [show (Runner.bindMethod host index r k).machine.heap.function? ref = _ from hnew] at hf
  split at hf
  · exact ⟨_, (Option.some.inj hf).symm⟩
  · exact hr ref f hf

omit hr in
theorem bindMethods (host : Nat) : ∀ (ks : List HostMethod) {r : Runner} (index : Nat), r.OnlyNatives →
    (bindMethods host r index ks).OnlyNatives
  | [], _, _, hr => hr
  | k :: ks, r, index, hr => by
    unfold Runner.bindMethods
    dsimp only
    split
    · exact bindMethods host ks (index + 1) (hr.bindMethod host index k)
    · exact bindMethods host ks (index + 1) hr

theorem bindHost : r.bindHost.OnlyNatives := by
  have hreleased := hr.releaseHost
  unfold Runner.bindHost
  dsimp only
  split
  · exact hreleased
  · split
    · exact hreleased
    · split
      · exact hreleased
      · exact bindMethods _ _ 0 hreleased

theorem prepared : r.prepared.OnlyNatives :=
  bindHost (r := { r with machine := { r.machine with effects := #[] } }) (hr.of_functions rfl)

end OnlyNatives

/-- All functions of a new runner are natives, also those of its host. -/
theorem create_onlyNatives (settings : Settings) (source : String) (keep : Bool) (hosts : Array Host)
    (host : Option Nat) : (create settings source keep hosts host).OnlyNatives := by
  have hunbound : (unbound settings source keep hosts host).OnlyNatives := by
    intro ref f hf
    have hlibrary : (unbound settings source keep hosts host).machine.heap.functions =
        (library hosts).2.heap.functions := by
      unfold unbound
      generalize library hosts = l
      cases keep <;> rfl
    unfold Heap.function? at hf
    rw [hlibrary] at hf
    exact library_native hosts hf
  rw [create_eq]
  exact hunbound.bindHost

theorem create_native (settings : Settings) (source : String) (keep : Bool) (hosts : Array Host)
    {r : FunctionRef} {f : Function}
    (hf : (create settings source keep hosts none).machine.heap.function? r = some f) :
    ∃ g, f = .native g := create_onlyNatives settings source keep hosts none r f hf

end Runner

namespace Realm

/-- **Where there are only natives, there is no code but the program's.** -/
theorem program_holds (nodes : List Node) {r : Runner}
    (hnative : ∀ {ref f}, r.machine.heap.function? ref = some f → ∃ g, f = .native g) :
    (program nodes).Holds r.rested.programScope.2.machine := by
  have hscope : (program nodes).Holds r.rested.machine := by
    refine ⟨Unfenced.admits fun hf => ?_, fun o _ => Unfenced.host o, ?_, ?_⟩
    · obtain ⟨g, rfl⟩ := hnative hf
      exact Unfenced.native g
    · rintro _ ⟨⟩
    · rintro _ ⟨⟩
  unfold Runner.programScope
  split
  · exact hscope
  · refine hscope.onHeap (hscope.heap.newScope ?_ table_nil)
    rintro _ ⟨⟩
    exact trivial

/-- What has been settled may come out if it could before. -/
theorem stop_settle {R : Realm} {r : Runner} (hr : R.Holds r.machine) {s : Stop} (hs : R.stop s)
    (hfired : s.untraced = .exhausted none → r.machine.focus ≠ none) : R.stop (r.settle s) := by
  cases s with
  | fault f => exact hs
  | internal e trace => exact trivial
  | exhausted trace =>
    obtain ⟨p, hp⟩ := Option.ne_none_iff_exists'.mp (hfired rfl)
    show R.fault (.raisedAt .depthExceeded r.machine.focus r.source)
    rw [hp]
    exact fault_raisedAt (hr.focus p hp) _ _

/-- A whole evaluation of the program keeps to its realm. -/
theorem program_keeps (nodes : List Node) (ctx : Context) :
    (program nodes).Does .same ((Engine.level maxLevels).evaluate ctx nodes) (program nodes).value := by
  obtain ⟨n, hlevels⟩ := exists_levels
  rw [hlevels]
  exact evaluateList_keeps (engines_level Twin.same_echoes n) ⟨trivial, .inl trivial⟩
    (program_terms nodes)

end Realm

/-- **Every fault points at a node of the program.** A source text is run on a
new runner that has no host. If it ends with a fault, exhaustion included, then
the fault has the line and the column of a node of the program, at some depth,
and each call that the fault has left has those of a span. -/
theorem faults_point_at_nodes (settings : Settings) (source : String) (keep : Bool) (hosts : Array Host)
    {text : String} {nodes : List Node} (hparse : parse settings.room.spans text = .ok nodes) {f : Fault}
    (hfault : ((Runner.create settings source keep hosts none).eval text).1 = .error (.fault f)) :
    (∃ n : Node, n.Occurs nodes ∧ f.line = n.pos.line ∧ f.column = n.pos.column ∧
      f.line.isSome ∧ f.column.isSome) ∧
    ∀ frame ∈ f.trace.getD [], ∃ pos d body, (Node.span pos d body).Occurs nodes ∧
      frame.line = pos.line ∧ frame.column = pos.column ∧ frame.line.isSome ∧ frame.column.isSome := by
  let R := Realm.program nodes
  have hstop : R.stop (.fault f) := by
    have hholds := Realm.program_holds nodes (Runner.create_native settings source keep hosts)
    rw [← Runner.create_settings settings source keep hosts none] at hparse
    rw [Runner.eval_of_parse _ hparse] at hfault
    generalize (Runner.create settings source keep hosts none).rested = r at hfault hholds
    let ctx : Context := ⟨r.programScope.1, r.programScope.2.source, r.programScope.2.settings⟩
    have hends := Realm.program_keeps nodes ctx hholds (Twin.Beside.refl _)
    unfold Runner.runNodes at hfault
    dsimp only at hfault
    generalize (Engine.level maxLevels).evaluate _ nodes _ = p at hfault hends
    cases hends with
    | value => cases hfault
    | stop hm _ hs _ hfired =>
      rw [← Except.error.inj hfault]
      exact Realm.stop_settle hm hs hfired
  obtain ⟨⟨pos, ⟨n, hn, rfl⟩, hline, hcolumn⟩, htrace⟩ := hstop
  refine ⟨⟨n, hn, hline, hcolumn, ?_⟩, fun frame hframe => ?_⟩
  · rw [hline, hcolumn]
    exact hn.placed hparse
  · cases hframes : f.trace with
    | none =>
      rw [hframes] at hframe
      cases hframe
    | some frames =>
      rw [hframes] at hframe
      obtain ⟨pos, ⟨d, body, hspan⟩, hline, hcolumn⟩ := htrace frames hframes frame hframe
      refine ⟨pos, d, body, hspan, hline, hcolumn, ?_⟩
      rw [hline, hcolumn]
      exact hspan.placed hparse

/-- A call without the argument that it needs. -/
def lacksArgument : List Node :=
  [.word ⟨some 1, some 1, 0⟩ "if", .span ⟨some 1, some 3, 2⟩ .paren []]

theorem tokens_lacksArgument : tokens "if()" = some
    [⟨⟨1, 1, 0⟩, .word ['i', 'f']⟩, ⟨⟨1, 3, 2⟩, .opening .paren⟩, ⟨⟨1, 4, 3⟩, .closing .paren⟩] := by
  have hparen : Text.isWordChar '(' = false ∧ Text.isSpace '(' = false := by
    obtain ⟨hword, -, hspace⟩ := ascii_classes (c := '(') (by decide)
    exact ⟨hword, hspace⟩
  have hclosing : Text.isSpace ')' = false := (ascii_classes (c := ')') (by decide)).2.2
  have hword : lexeme? 'i' ['f', '(', ')'] = some (.word ['i', 'f'], ['i', 'f']) := by
    refine lexeme?_lower (w := ['f']) rfl ?_
    rintro _ ⟨⟩
    exact hparen.1
  have hfirst : tokensFrom 4 .start ['i', 'f', '(', ')'] =
      (tokensFrom 3 ⟨1, 3, 2⟩ ['(', ')']).map (⟨.start, .word ['i', 'f']⟩ :: ·) :=
    tokensFrom_cons 3 .start (lower_classes rfl).2.2 hword
  have hsecond : tokensFrom 3 ⟨1, 3, 2⟩ ['(', ')'] =
      (tokensFrom 2 ⟨1, 4, 3⟩ [')']).map (⟨⟨1, 3, 2⟩, .opening .paren⟩ :: ·) :=
    tokensFrom_cons 2 ⟨1, 3, 2⟩ hparen.2 rfl
  have hthird : tokensFrom 2 ⟨1, 4, 3⟩ [')'] =
      (tokensFrom 1 ⟨1, 5, 4⟩ []).map (⟨⟨1, 4, 3⟩, .closing .paren⟩ :: ·) :=
    tokensFrom_cons 1 ⟨1, 4, 3⟩ hclosing rfl
  have hchars : "if()".toList = ['i', 'f', '(', ')'] := by decide
  have hlength : "if()".toList.length = 4 := by decide
  unfold tokens
  rw [hlength, hchars, hfirst, hsecond, hthird, tokensFrom]
  rfl

theorem parse_lacksArgument : parse Room.usual.spans "if()" = .ok lacksArgument :=
  parse_of_tokens tokens_lacksArgument _

/-- The fault of that call, which is active. -/
def lacksArgumentFault : Fault :=
  ⟨.wrongArity "if" ⟨1, some 1⟩ 0, some 1, some 3, "", some [⟨"if", some 1, some 3, ""⟩]⟩

/-- The fault that a run ended with, if it did. -/
def faultOf? : Except Stop Value → Option Fault
  | .error (.fault f) => some f
  | _ => none

theorem eval_lacksArgument : (Runner.plain.eval "if()").1 = .error (.fault lacksArgumentFault) := by
  have hparse : parse Runner.plain.settings.room.spans "if()" = .ok lacksArgument := by
    rw [Runner.plain_spans]
    exact parse_lacksArgument
  rw [Runner.eval_of_parse _ hparse]
  have hfault : faultOf? (Runner.plain.rested.runNodes lacksArgument).1 = some lacksArgumentFault := by
    decide +kernel
  generalize (Runner.plain.rested.runNodes lacksArgument).1 = result at hfault
  match result, hfault with
  | .error (.fault _), rfl => rfl

/-- Such a call has a fault at its brackets. -/
theorem faults_point_at_nodes_call :
    (∃ n : Node, n.Occurs lacksArgument ∧ n.pos.line = some 1 ∧ n.pos.column = some 3) ∧
      ∃ pos d body, (Node.span pos d body).Occurs lacksArgument ∧ pos.line = some 1 ∧
        pos.column = some 3 := by
  obtain ⟨⟨n, hn, hline, hcolumn, -⟩, hcalls⟩ :=
    faults_point_at_nodes ⟨none, "", false, .usual⟩ "" false #[] parse_lacksArgument eval_lacksArgument
  obtain ⟨pos, d, body, hspan, hline', hcolumn', -⟩ := hcalls _ (List.mem_singleton.mpr rfl)
  exact ⟨⟨n, hn, hline.symm, hcolumn.symm⟩, pos, d, body, hspan, hline'.symm, hcolumn'.symm⟩

end RuleScript
