/-
# The standard library mirrors itself

Called at places that correspond (`Likeness.Sites`), with arguments and the
arguments they are carried over to, a native operation does the same on both
sides. It looks at references only to tell whether two are the same, and at
functions only to call them and to say how many arguments they take; of a
function's body and scope it sees nothing.

There are three exceptions. An operation that tells the place of its call is
left out where positions are, and a host's method where references are renamed
(`Likeness.Fits`). A template looks into the functions of its view, so what it
shows can differ.

Key definitions: `Likeness.product`, `Likeness.Sites`.
Key theorems: `Likeness.Sites.invoke`, `Likeness.Sites.receive`,
`Likeness.Sites.operation`, `Likeness.Sites.receive_host`.
-/
import RuleScript.Library.Dispatch
import RuleScript.Proofs.Likeness.Sorting

namespace RuleScript

open Site (items)

/-! ### Products -/

namespace Likeness

variable (L : Likeness)

mutual

/-- What an operation hands back. -/
def product : Product → Product
  | .value v => .value (L.value v)
  | .sequence ps => .sequence (products ps)
  | .mapping es => .mapping (productEntries es)
  | p => p

def products : List Product → List Product
  | [] => []
  | p :: ps => product p :: products ps

def productEntries : List (ProductKey × Product) → List (ProductKey × Product)
  | [] => []
  | (k, p) :: es => (k, product p) :: productEntries es

end

theorem products_eq_map (ps : List Product) : L.products ps = ps.map L.product := by
  induction ps with
  | nil => rfl
  | cons p ps ih => rw [products, ih, List.map_cons]

theorem productEntries_eq_map : ∀ es : List (ProductKey × Product),
    L.productEntries es = es.map fun e => (e.1, L.product e.2)
  | [] => rfl
  | (k, p) :: es => by rw [productEntries, productEntries_eq_map es, List.map_cons]

theorem listProduct_map (vs : List Value) : listProduct (vs.map L.value) = L.product (listProduct vs) := by
  unfold listProduct product
  rw [products_eq_map, List.map_map, List.map_map]
  rfl

theorem tableProduct_table (t : Table Value) : tableProduct (L.table t) = L.product (tableProduct t) := by
  unfold tableProduct product table
  rw [productEntries_eq_map, List.map_map, List.map_map]
  rfl

/-- Texts hold no references. -/
theorem product_texts {α : Type} (text : α → String) (xs : List α) :
    .sequence (xs.map fun x => .value (.string (text x))) =
      L.product (.sequence (xs.map fun x => .value (.string (text x)))) := by
  unfold product
  rw [products_eq_map, List.map_map]
  rfl

/-! ### Functions and settings -/

theorem help?_code (f : Function) : (L.code f).help? = f.help? := by
  have husage : (L.code f).usage? = f.usage? := by cases f <;> rfl
  unfold Function.help?
  rw [husage]
  cases f.usage? with
  | some u => rfl
  | none => cases f <;> rfl

theorem map_node_valueNodes (pos : Position) : ∀ vs : List Value,
    (valueNodes pos vs).map L.node = valueNodes (L.position pos) (vs.map L.value)
  | [] => rfl
  | [_] => rfl
  | v :: w :: vs =>
    congrArg (fun ns => Node.value (L.position pos) (L.value v) :: .symbol (L.position pos) "," :: ns)
      (map_node_valueNodes pos (w :: vs))

/-! ### Where nothing is renamed -/

namespace Still

variable {L}

mutual

theorem product_eq (h : L.Still) : ∀ p : Product, L.product p = p
  | .value v => congrArg Product.value (h.value_eq v)
  | .sequence ps => congrArg Product.sequence (products_eq h ps)
  | .mapping es => congrArg Product.mapping (productEntries_eq h es)
  | .integer _ | .foreign _ | .method _ => rfl

theorem products_eq (h : L.Still) : ∀ ps : List Product, L.products ps = ps
  | [] => rfl
  | p :: ps => by rw [products, product_eq h p, products_eq h ps]

theorem productEntries_eq (h : L.Still) : ∀ es : List (ProductKey × Product), L.productEntries es = es
  | [] => rfl
  | (k, p) :: es => by rw [productEntries, product_eq h p, productEntries_eq h es]

end

end Still

/-! ### Sites -/

/-- Two places of a call that correspond. -/
structure Sites (bound : Nat) (s s' : Site) : Prop where
  engine : L.Engines s.engine s'.engine
  reaches : L.Reaches bound s.ctx.scope
  ctx : s'.ctx = L.context s.ctx
  pos : s'.pos = L.position s.pos

variable {L}

theorem Mirrors.withHeap {α β : Type} {bound : Nat} {f : α → β} {k : Heap → Eval α}
    {k' : Heap → Eval β} (h : ∀ {h h' : Heap}, L.Heaps h h' → L.Mirrors bound f (k h) (k' h')) :
    L.Mirrors bound f (Eval.onHeap id >>= k) (Eval.onHeap id >>= k') :=
  fun _ _ hm => h hm.heap hm

theorem Mirrors.items {bound : Nat} (r : ArrayRef) :
    L.Mirrors bound (List.map L.value) (Site.items r) (Site.items (L.array r)) :=
  onHeap fun hh => hh.items r

theorem Mirrors.dict {bound : Nat} (r : DictRef) :
    L.Mirrors bound L.table (Eval.onHeap (·.dict r)) (Eval.onHeap (·.dict (L.dict r))) :=
  onHeap fun hh => hh.dict r

namespace Sites

variable {bound : Nat} {s s' : Site} (hs : L.Sites bound s s')

include hs

/-! ### Arguments -/

theorem fail {α β : Type} {f : α → β} (c : Cause) : L.Mirrors bound f (s.fail c) (s'.fail c) := by
  unfold Site.fail
  rw [hs.ctx, hs.pos]
  exact .fail s.ctx s.pos c

theorem number (what : String) (v : Value) :
    L.Mirrors bound id (s.number what v) (s'.number what (L.value v)) := by
  cases v
  case number x => exact .pure x
  all_goals exact hs.fail _

theorem string (what : String) (v : Value) :
    L.Mirrors bound id (s.string what v) (s'.string what (L.value v)) := by
  cases v
  case string t => exact .pure t
  all_goals exact hs.fail _

theorem bool (what : String) (v : Value) :
    L.Mirrors bound id (s.bool what v) (s'.bool what (L.value v)) := by
  cases v
  case bool b => exact .pure b
  all_goals exact hs.fail _

theorem array (what : String) (v : Value) :
    L.Mirrors bound L.array (s.array what v) (s'.array what (L.value v)) := by
  cases v
  case array r => exact .pure r
  all_goals exact hs.fail _

theorem dict (what : String) (v : Value) :
    L.Mirrors bound L.dict (s.dict what v) (s'.dict what (L.value v)) := by
  cases v
  case dict r => exact .pure r
  all_goals exact hs.fail _

theorem function (what : String) (v : Value) :
    L.Mirrors bound L.function (s.function what v) (s'.function what (L.value v)) := by
  cases v
  case function r => exact .pure r
  all_goals exact hs.fail _

theorem number? (what : String) (v : Option Value) :
    L.Mirrors bound id (s.number? what v) (s'.number? what (v.map L.value)) := by
  cases v with
  | none => exact .pure none
  | some v => exact (hs.number what v).bind fun x => .pure (some x)

/-! ### Callbacks -/

theorem callWithValues (f : FunctionRef) (vs : List Value) :
    L.Mirrors bound L.value (s.engine.callWithValues s.ctx f vs s.pos)
      (s'.engine.callWithValues s'.ctx (L.function f) (vs.map L.value) s'.pos) := by
  unfold Engine.callWithValues
  rw [hs.ctx, hs.pos, ← L.map_node_valueNodes]
  exact hs.engine.call hs.reaches f _ s.pos

/-- A callback is handed as many arguments on both sides. -/
theorem invoke (f : FunctionRef) (vs : List Value) :
    L.Mirrors bound L.value (s.invoke f vs) (s'.invoke (L.function f) (vs.map L.value)) := by
  have hread : L.Mirrors bound (Option.map L.code) (Eval.onHeap (·.function? f))
      (Eval.onHeap (·.function? (L.function f))) := .onHeap fun hh => hh.function? f
  refine hread.bind fun code => ?_
  have hmost : (code.map L.code).bind (·.mostArguments?) = code.bind (·.mostArguments?) := by
    cases code with
    | none => rfl
    | some F => exact L.mostArguments?_code F
  dsimp only
  rw [hmost]
  cases code.bind (·.mostArguments?) with
  | none => exact hs.callWithValues f vs
  | some n =>
    dsimp only
    rw [← List.map_take]
    exact hs.callWithValues f _

/-! ### Results -/

omit hs in
/-- As many frames are free on both sides. -/
theorem frames (hs : L.Sites bound s s') : s'.frames = s.frames := by
  unfold Site.frames
  rw [hs.ctx]
  rfl

theorem copyValue : ∀ (frames : Nat) (v : Value),
    L.Mirrors bound L.value (s.copyValue frames v) (s'.copyValue frames (L.value v))
  | 0, _ => .throw rfl
  | frames + 1, v => by
    cases v
    case absent => exact hs.fail _
    case array r =>
      match frames with
      | 0 => exact .throw rfl
      | frames + 1 =>
        refine (Mirrors.items r).bind fun xs => ?_
        exact (Mirrors.mapM (copyValue frames) xs).bind fun copies => .newArray copies
    case dict r =>
      refine (Mirrors.dict r).bind fun t => ?_
      refine Mirrors.bind (f := L.table) (Mirrors.mapM (fun p => ?_) t) fun copies => .newDict copies
      exact (copyValue frames p.2).then_return fun _ => rfl
    all_goals exact .pure_of rfl

end Sites

section Results

variable {bound : Nat} {s s' : Site} {host : Option (Nat × Host)}

mutual

theorem Sites.receiveInside (hs : L.Sites bound s s') (hhost : L.Lends ∨ host = none) :
    ∀ (frames : Nat) (p : Product), L.Mirrors bound L.value (s.receiveInside host frames p)
      (s'.receiveInside host frames (L.product p))
  | frames, .value v => by
    rw [product, Site.receiveInside, Site.receiveInside]
    exact hs.copyValue frames v
  | 0, .integer _ | 0, .sequence _ | 0, .mapping _ | 0, .foreign _ | 0, .method _ | 1, .sequence _ =>
    .throw rfl
  | _ + 1, .integer n => by
    simp only [Site.receiveInside, product]
    split
    · exact .pure_of rfl
    · exact .throw rfl
  | frames + 2, .sequence ps => by
    simp only [Site.receiveInside, product]
    exact (Sites.receiveAll hs hhost frames ps).bind fun vs => .newArray vs
  | frames + 1, .mapping es => by
    simp only [Site.receiveInside, product]
    exact (Sites.receiveEntries hs hhost frames es).bind fun t => .newDict t
  | _ + 1, .foreign c => by
    simp only [Site.receiveInside, product]
    exact hs.fail _
  | _ + 1, .method k => by
    simp only [Site.receiveInside, product]
    rcases hhost with hlends | rfl
    · split
      · exact .newNative hlends
      · exact .pure_of rfl
    · exact .pure_of rfl

theorem Sites.receiveAll (hs : L.Sites bound s s') (hhost : L.Lends ∨ host = none) (frames : Nat) :
    ∀ ps : List Product, L.Mirrors bound (List.map L.value) (s.receiveAll host frames ps)
      (s'.receiveAll host frames (L.products ps))
  | [] => by
    simp only [Site.receiveAll, products]
    exact .pure []
  | p :: ps => by
    simp only [Site.receiveAll, products]
    exact (Sites.receiveInside hs hhost frames p).bind fun v =>
      (Sites.receiveAll hs hhost frames ps).then_return fun _ => rfl

theorem Sites.receiveEntries (hs : L.Sites bound s s') (hhost : L.Lends ∨ host = none) (frames : Nat) :
    ∀ es : List (ProductKey × Product), L.Mirrors bound L.table (s.receiveEntries host frames es)
      (s'.receiveEntries host frames (L.productEntries es))
  | [] => by
    simp only [Site.receiveEntries, productEntries]
    exact .pure []
  | (.other, p) :: es => by
    simp only [Site.receiveEntries, productEntries]
    exact hs.fail _
  | (.text k, p) :: es => by
    simp only [Site.receiveEntries, productEntries]
    exact (Sites.receiveInside hs hhost frames p).bind fun v =>
      (Sites.receiveEntries hs hhost frames es).then_return fun _ => rfl

end

theorem Sites.receive (hs : L.Sites bound s s') (hhost : L.Lends ∨ host = none) (p : Product) :
    L.Mirrors bound L.value (s.receive host p) (s'.receive host (L.product p)) := by
  have hinside := hs.receiveInside hhost s.frames p
  unfold Site.receive
  rw [hs.frames]
  cases p
  case value v =>
    cases v
    case absent => exact .pure_of rfl
    all_goals exact hinside
  all_goals exact hinside

end Results

/-! ### Array operations -/

namespace Sites

variable {bound : Nat} {s s' : Site} (hs : L.Sites bound s s')

theorem flatten_mirrors : ∀ (frames : Nat) (level : Float) (xs : List Value),
    L.Mirrors bound (List.map L.value) (flatten frames level xs) (flatten frames level (xs.map L.value))
  | 0, _, _ => .throw rfl
  | frames + 1, level, xs => by
    unfold flatten
    refine Mirrors.bind (f := List.map (List.map L.value)) (Mirrors.mapM (fun x => ?_) xs) fun parts =>
      .pure_of List.map_flatten.symm
    cases x
    case array r =>
      refine .ite ?_ (.pure_of rfl)
      exact (Mirrors.items r).bind fun ys => flatten_mirrors frames _ ys
    all_goals exact .pure_of rfl

theorem plainLess_compares : L.Compares bound plainLess plainLess := by
  intro x y
  cases x <;> cases y <;> exact .pure_of rfl

theorem isPlain_map (xs : List Value) : isPlain (xs.map L.value) = isPlain xs := by
  unfold isPlain
  rw [List.all_map, List.all_map]
  congr 2 <;> funext v <;> cases v <;> rfl

/-- A value is found at the same place. -/
theorem findIdx?_strictEq (xs : List Value) (target : Value) :
    (xs.map L.value).findIdx? (·.strictEq (L.value target)) = xs.findIdx? (·.strictEq target) := by
  rw [List.findIdx?_map]
  congr 1
  funext v
  exact L.strictEq_value v target

include hs

theorem elementIndex (index : Float) (size : Nat) (allowEnd : Bool) :
    L.Mirrors bound id (RuleScript.elementIndex s index size allowEnd)
      (RuleScript.elementIndex s' index size allowEnd) := by
  unfold RuleScript.elementIndex
  split
  · exact hs.fail _
  · exact .ite (.pure _) (hs.fail _)

theorem callbackLess (f : FunctionRef) :
    L.Compares bound (RuleScript.callbackLess s f) (RuleScript.callbackLess s' (L.function f)) := by
  intro x y
  refine (hs.invoke f [x, y]).bind fun v => ?_
  cases v
  case number x => exact .pure_of rfl
  all_goals exact hs.fail _

/-- The array is emptied, sorted and restored on both sides. -/
theorem sortArray (r : ArrayRef) {lt lt' : Comparison} (hlt : L.Compares bound lt lt') :
    L.Mirrors bound L.product (RuleScript.sortArray s r lt) (RuleScript.sortArray s' (L.array r) lt') := by
  have hcell : L.Mirrors bound L.cell (Eval.onHeap (·.arrayCell r))
      (Eval.onHeap (·.arrayCell (L.array r))) := .onHeap fun hh => hh.arrayCell r
  refine hcell.bind fun cell => (Mirrors.setItems r rfl).bind fun _ => ?_
  refine (hlt.sortItems cell.items).bind fun p => ?_
  obtain ⟨sorted, stop⟩ := p
  refine hcell.bind fun after => (Mirrors.setItems r rfl).bind fun _ => ?_
  cases stop with
  | some e => exact .throw rfl
  | none => exact .ite (.pure_of rfl) (hs.fail _)

theorem iterate (r : ArrayRef) (f : FunctionRef) : ∀ (xs : List Value) (i : Nat),
    L.Mirrors bound (List.map L.value) (RuleScript.iterate s r f i xs)
      (RuleScript.iterate s' (L.array r) (L.function f) i (xs.map L.value))
  | [], _ => .pure []
  | x :: xs, i => by
    refine (hs.invoke f (iterationArgs r i x)).bind fun v => ?_
    exact (iterate r f xs (i + 1)).then_return fun _ => rfl

theorem keepWhere (r : ArrayRef) (f : FunctionRef) : ∀ (xs : List Value) (i : Nat),
    L.Mirrors bound (List.map L.value) (RuleScript.keepWhere s r f i xs)
      (RuleScript.keepWhere s' (L.array r) (L.function f) i (xs.map L.value))
  | [], _ => .pure []
  | x :: xs, i => by
    refine (hs.invoke f (iterationArgs r i x)).bind fun v => ?_
    cases v
    case bool keep =>
      refine (keepWhere r f xs (i + 1)).then_return fun rest => ?_
      cases keep <;> rfl
    all_goals exact hs.fail _

theorem createArray : ∀ args : List Value,
    L.Mirrors bound L.product (RuleScript.createArray s args) (RuleScript.createArray s' (args.map L.value))
  | [] => .pure_of rfl
  | first :: rest => by
    refine (hs.number _ first).bind fun size => ?_
    dsimp only [id]
    split
    · exact hs.fail _
    · refine .ite (hs.fail _) (.ite (hs.fail _) (.ite (hs.fail _) (.pure_of ?_)))
      rw [L.headD_map, ← L.listProduct_map, List.map_replicate]

theorem unpackArray (args : List Value) :
    L.Mirrors bound L.product (RuleScript.unpackArray s args)
      (RuleScript.unpackArray s' (args.map L.value)) := by
  unfold RuleScript.unpackArray
  rw [L.getD_map, L.getD_map, List.getElem?_map]
  refine (hs.array _ _).bind fun r => (hs.array _ _).bind fun names => ?_
  refine (Mirrors.items names).bind fun names => ?_
  refine (Mirrors.mapM (hs.string _) names).bind fun names => ?_
  rw [List.map_id]
  cases args[2]?
  case' none => refine Mirrors.bind (f := id) (.pure false) fun loose => ?_
  case' some v => refine (hs.bool _ v).bind fun loose => ?_
  all_goals
    refine (Mirrors.items r).bind fun xs => ?_
    dsimp only
    rw [List.length_map]
    refine .ite (hs.fail _) ((Mirrors.forM (fun p => ?_) names.zipIdx).bind fun _ => .pure_of rfl)
    rw [hs.ctx, L.getD_map]
    exact .assign _ _ _

theorem removeItems (args : List Value) :
    L.Mirrors bound L.product (RuleScript.removeItems s args)
      (RuleScript.removeItems s' (args.map L.value)) := by
  unfold RuleScript.removeItems
  rw [L.getD_map, L.getD_map, List.getElem?_map]
  refine (hs.array _ _).bind fun r => (hs.number _ _).bind fun index => ?_
  refine (Mirrors.items r).bind fun xs => ?_
  rw [List.length_map]
  refine (hs.elementIndex _ _ _).bind fun start => ?_
  have hremove (count : Nat) : L.Mirrors bound L.product
      (do Eval.modifyHeap (·.setItems r (xs.take start ++ xs.drop (start + count)))
          return .value .null)
      (do Eval.modifyHeap (·.setItems (L.array r)
            ((xs.map L.value).take start ++ (xs.map L.value).drop (start + count)))
          return .value .null) := by
    refine (Mirrors.setItems r ?_).bind fun _ => .pure_of rfl
    rw [List.map_append, List.map_take, List.map_drop]
  cases args[2]? with
  | none => exact Mirrors.bind (f := id) (.pure 1) hremove
  | some v =>
    refine (hs.number _ v).bind fun c => .ite ?_ ?_
    · exact Mirrors.bind (f := id) (hs.fail _) hremove
    · exact Mirrors.bind (f := id) (.pure _) hremove

/-- **Array operations mirror themselves.** -/
theorem arrayOp (args : List Value) (op : ArrayOp) :
    L.Mirrors bound L.product (op.run s args) (op.run s' (args.map L.value)) := by
  cases op <;> simp only [ArrayOp.run, L.getD_map, List.getElem?_map]
  case create => exact hs.createArray args
  case remove => exact hs.removeItems args
  case unpack => exact hs.unpackArray args
  case ofValues => exact .pure_of (L.listProduct_map args)
  case clone =>
    exact (hs.array _ _).bind fun r => (Mirrors.items r).then_return L.listProduct_map
  case sizeOf =>
    refine (hs.array _ _).bind fun r => (Mirrors.items r).then_return fun xs => ?_
    rw [List.length_map]
    rfl
  case set =>
    refine (hs.array _ _).bind fun r => (hs.number _ _).bind fun index => ?_
    refine (Mirrors.items r).bind fun xs => ?_
    rw [List.length_map]
    refine (hs.elementIndex _ _ _).bind fun k => ?_
    exact (Mirrors.setItems r List.map_set.symm).bind fun _ => .pure_of rfl
  case insert =>
    refine (hs.array _ _).bind fun r => (hs.number _ _).bind fun index => ?_
    refine (Mirrors.items r).bind fun xs => ?_
    rw [List.length_map]
    refine (hs.elementIndex _ _ _).bind fun k => ?_
    refine (Mirrors.addItems r fun _ => ?_).bind fun _ => .pure_of rfl
    simp only [List.map_append, List.map_take, List.map_drop, id]
  case push =>
    refine (hs.array _ _).bind fun r => (Mirrors.addItems r fun hh => ?_).bind fun _ => .pure_of rfl
    rw [hh.items, List.map_append, List.map_drop]
  case unshift =>
    refine (hs.array _ _).bind fun r => (Mirrors.addItems r fun hh => ?_).bind fun _ => .pure_of rfl
    rw [hh.items, List.map_append, List.map_reverse, List.map_drop]
  case pop =>
    refine (hs.array _ _).bind fun r => (Mirrors.items r).bind fun xs => ?_
    refine (Mirrors.setItems r List.map_dropLast.symm).bind fun _ => .pure_of ?_
    rw [List.getLast?_map]
    cases xs.getLast? <;> rfl
  case shift =>
    refine (hs.array _ _).bind fun r => (Mirrors.items r).bind fun xs => ?_
    refine (Mirrors.setItems r List.map_drop.symm).bind fun _ => .pure_of ?_
    rw [L.headD_map]
    rfl
  case clear =>
    exact (hs.array _ _).bind fun r => (Mirrors.setItems r rfl).bind fun _ => .pure_of rfl
  case slice =>
    refine (hs.array _ _).bind fun r => (hs.number? _ _).bind fun start => ?_
    refine (hs.number? _ _).bind fun finish => (Mirrors.items r).then_return fun xs => ?_
    rw [List.length_map, ← L.listProduct_map, Number.sliceList, Number.sliceList, List.map_drop,
      List.map_take]
    rfl
  case flat =>
    refine (hs.array _ _).bind fun r => ?_
    have hflat (depth : Float) : L.Mirrors bound L.product
        (do return listProduct (← flatten s.frames depth (← items r)))
        (do return listProduct (← flatten s'.frames depth (← items (L.array r)))) := by
      rw [hs.frames]
      exact (Mirrors.items r).bind fun xs => (flatten_mirrors _ depth xs).then_return L.listProduct_map
    cases args[1]? with
    | none => exact Mirrors.bind (f := id) (.pure 1.0) fun depth => .ite (hs.fail _) (hflat depth)
    | some v => exact (hs.number _ v).bind fun depth => .ite (hs.fail _) (hflat depth)
  case indexOf =>
    refine (hs.array _ _).bind fun r => (Mirrors.items r).then_return fun xs => ?_
    rw [findIdx?_strictEq]
    rfl
  case lastIndexOf =>
    refine (hs.array _ _).bind fun r => (Mirrors.items r).then_return fun xs => ?_
    rw [← List.map_reverse, findIdx?_strictEq, List.length_map]
    rfl
  case includes =>
    refine (hs.array _ _).bind fun r => (Mirrors.items r).then_return fun xs => ?_
    rw [List.any_map]
    refine congrArg (fun same => Product.value (.bool (xs.any same))) (funext fun v => ?_)
    cases args.getD 1 .null
    case number t =>
      simp only [value, Function.comp_apply]
      split
      · cases v <;> rfl
      · exact L.strictEq_value v (.number t)
    all_goals exact L.strictEq_value v _
  case sort =>
    refine (hs.array _ _).bind fun r => ?_
    cases args[1]? with
    | some v => exact (hs.function _ v).bind fun f => hs.sortArray r (hs.callbackLess f)
    | none =>
      refine (Mirrors.items r).bind fun xs => ?_
      rw [isPlain_map]
      exact .ite (hs.sortArray r plainLess_compares) (hs.fail _)
  case forEach =>
    refine (hs.array _ _).bind fun r => (hs.function _ _).bind fun f => ?_
    exact (Mirrors.items r).bind fun xs => (hs.iterate r f xs 0).then_return fun _ => rfl
  case map =>
    refine (hs.array _ _).bind fun r => (hs.function _ _).bind fun f => ?_
    exact (Mirrors.items r).bind fun xs => (hs.iterate r f xs 0).then_return L.listProduct_map
  case filter =>
    refine (hs.array _ _).bind fun r => (hs.function _ _).bind fun f => ?_
    exact (Mirrors.items r).bind fun xs => (hs.keepWhere r f xs 0).then_return L.listProduct_map

/-! ### Core operations -/

theorem loopLimit : L.Mirrors bound id (RuleScript.loopLimit s) (RuleScript.loopLimit s') := by
  have hsettings : s'.ctx.settings = s.ctx.settings := by rw [hs.ctx]; rfl
  unfold RuleScript.loopLimit
  dsimp only
  rw [hsettings]
  refine .ite (.pure none) ?_
  split
  · exact .pure _
  · exact hs.fail _

theorem printValues (args : List Value) :
    L.Mirrors bound L.product (RuleScript.printValues s args)
      (RuleScript.printValues s' (args.map L.value)) := by
  refine .withHeap fun {h h'} hh => ?_
  have htexts : (args.map L.value).map (·.text h') = args.map (·.text h) := by
    rw [List.map_map]
    exact List.map_congr_left fun v _ => hh.text v
  dsimp only
  rw [htexts, hs.ctx]
  refine (Mirrors.note s.ctx _ _).bind fun _ => (Mirrors.aside fun hm => ?_).bind fun _ => .pure_of rfl
  refine ⟨hm.heap, hm.known, hm.calls, ?_, hm.focus, hm.hosts, hm.seed⟩
  rw [hm.effects]

/-- **Core operations mirror themselves.** -/
theorem coreOp (args : List Value) (op : CoreOp) :
    L.Mirrors bound L.product (op.run s args) (op.run s' (args.map L.value)) := by
  cases op <;> simp only [CoreOp.run, L.getD_map, kind_value, isTruthy_value]
  case help =>
    refine (hs.function _ _).bind fun f => ?_
    have hread : L.Mirrors bound (Option.map L.code) (Eval.onHeap (·.function? f))
        (Eval.onHeap (·.function? (L.function f))) := .onHeap fun hh => hh.function? f
    refine hread.bind fun code => ?_
    have hhelp : (code.map L.code).bind (·.help?) = code.bind (·.help?) := by
      cases code with
      | none => rfl
      | some F => exact L.help?_code F
    rw [hhelp]
    cases code.bind (·.help?) <;> exact .pure_of rfl
  case dir =>
    cases args with
    | nil =>
      have hnames : L.Mirrors bound id (Eval.onHeap (·.visibleNames s.ctx.scope))
          (Eval.onHeap (·.visibleNames s'.ctx.scope)) := by
        rw [hs.ctx]
        exact .onHeap fun hh => hh.visibleNames _
      exact hnames.then_return fun names => L.product_texts id names
    | cons v _ =>
      refine (hs.dict _ v).bind fun d => (Mirrors.dict d).then_return fun t => ?_
      rw [L.names_table]
      exact L.product_texts id t.names
  case exist =>
    refine (hs.string _ _).bind fun name => ?_
    have howner : L.Mirrors bound (Option.map L.scope) (Eval.onHeap (·.owner? s.ctx.scope name))
        (Eval.onHeap (·.owner? s'.ctx.scope name)) := by
      rw [hs.ctx]
      exact .onHeap fun hh => hh.owner? _ name
    refine howner.then_return fun owner => ?_
    cases owner <;> rfl
  case get =>
    refine (hs.string _ _).bind fun name => ?_
    have hread : L.Mirrors bound (Option.map L.value) (Eval.onHeap (·.read? s.ctx.scope name))
        (Eval.onHeap (·.read? s'.ctx.scope name)) := by
      rw [hs.ctx]
      exact .onHeap fun hh => hh.read? _ name
    refine hread.bind fun found => ?_
    cases found with
    | some v => exact .pure_of rfl
    | none => exact hs.fail _
  case set =>
    refine (hs.string _ _).bind fun name => ?_
    rw [hs.ctx]
    exact (Mirrors.assign s.ctx.scope name _).bind fun _ => .pure_of rfl
  case typeOf | boolean => exact .pure_of rfl
  case number =>
    have hnumber (v : Value) : (L.value v).toNumber? = v.toNumber? := by cases v <;> rfl
    rw [hnumber]
    cases (args.getD 0 .null).toNumber? with
    | some x => exact .pure_of rfl
    | none => exact hs.fail _
  case string =>
    refine .withHeap fun hh => .pure_of ?_
    rw [hh.shown]
    rfl
  case print => exact hs.printValues args
  case branch =>
    refine (hs.bool _ _).bind fun condition => ?_
    exact Mirrors.then_return (.newNative trivial) fun _ => rfl
  case choose =>
    refine (hs.bool _ _).bind fun condition => (hs.function _ _).bind fun yes => ?_
    refine (hs.function _ _).bind fun no => ?_
    have hinvoke := hs.invoke (if condition then yes else no) []
    rw [apply_ite L.function] at hinvoke
    exact hinvoke.then_return fun _ => rfl
  case repeating =>
    refine (hs.function _ _).bind fun condition => hs.loopLimit.bind fun limit => ?_
    exact Mirrors.then_return (.newNative trivial) fun _ => rfl

theorem runBranch (condition : Bool) (args : List Value) :
    L.Mirrors bound L.product (RuleScript.runBranch s condition args)
      (RuleScript.runBranch s' condition (args.map L.value)) := by
  unfold RuleScript.runBranch
  rw [L.getD_map]
  refine (hs.function _ _).bind fun body => .ite ?_ (.pure_of rfl)
  exact (hs.invoke body []).then_return fun _ => rfl

/-- A loop mirrors itself round by round. -/
theorem runRounds (condition body : FunctionRef) (limit : Option Int) : ∀ (fuel : Nat) (count : Int),
    L.Mirrors bound L.product (RuleScript.runRounds s condition body limit fuel count)
      (RuleScript.runRounds s' (L.function condition) (L.function body) limit fuel count)
  | 0, _ => .throw rfl
  | fuel + 1, count => by
    have hround : L.Mirrors bound L.product
        (do let _ ← s.invoke body []
            RuleScript.runRounds s condition body limit fuel (count + 1))
        (do let _ ← s'.invoke (L.function body) []
            RuleScript.runRounds s' (L.function condition) (L.function body) limit fuel (count + 1)) :=
      (hs.invoke body []).bind fun _ => runRounds condition body limit fuel (count + 1)
    refine (hs.invoke condition []).bind fun v => ?_
    cases v
    case bool go =>
      refine .ite (.pure_of rfl) ?_
      cases limit with
      | some most => exact .ite (hs.fail _) hround
      | none => exact hround
    all_goals exact hs.fail _

theorem runLoop (condition : FunctionRef) (limit : Option Int) (args : List Value) :
    L.Mirrors bound L.product (RuleScript.runLoop s condition limit args)
      (RuleScript.runLoop s' (L.function condition) limit (args.map L.value)) := by
  unfold RuleScript.runLoop
  rw [L.getD_map]
  exact (hs.function _ _).bind fun body => hs.runRounds condition body limit maxRounds 0

/-! ### Strings, dicts and numbers -/

/-- **String operations mirror themselves**, templates apart. -/
theorem stringOp (args : List Value) {op : StringOp} (hop : op ≠ .render) :
    L.Mirrors bound L.product (op.run s args) (op.run s' (args.map L.value)) := by
  cases op <;> simp only [StringOp.run, L.getD_map, List.getElem?_map]
  case render => exact absurd rfl hop
  case join =>
    refine (hs.array _ _).bind fun r => (Mirrors.items r).bind fun xs => ?_
    refine (Mirrors.mapM (hs.string _) xs).bind fun parts => ?_
    rw [List.map_id]
    cases args[1]? with
    | none => exact Mirrors.bind (f := id) (.pure "") fun _ => .pure_of rfl
    | some v => exact (hs.string _ v).bind fun _ => .pure_of rfl
  case slice =>
    refine (hs.string _ _).bind fun text => (hs.number? _ _).bind fun start => ?_
    exact (hs.number? _ _).bind fun finish => .pure_of rfl
  case split =>
    refine (hs.string _ _).bind fun text => ?_
    cases args[1]? with
    | none => exact .pure_of rfl
    | some v =>
      refine (hs.string _ v).bind fun separator => .ite ?_ ?_
      · exact .pure_of (L.product_texts _ _)
      · exact .pure_of (L.product_texts _ _)
  case indexOf =>
    exact (hs.string _ _).bind fun text => (hs.string _ _).bind fun search => .pure_of rfl
  all_goals exact (hs.string _ _).then_return fun _ => rfl

omit hs in
theorem setDict_mirrors (d : DictRef) (change change' : Table Value → Table Value)
    (h : ∀ t, change' (L.table t) = L.table (change t)) :
    L.Mirrors bound id (Eval.modifyHeap fun h => h.setDict d (change (h.dict d)))
      (Eval.modifyHeap fun h => h.setDict (L.dict d) (change' (h.dict (L.dict d)))) := by
  refine .modifyHeap (fun hh => ?_) fun _ => Nat.le_refl _
  rw [hh.dict, h]
  exact hh.setDict d _

omit hs in
theorem foldl_setAll (tables : List (Table Value)) (t : Table Value) :
    (tables.map L.table).foldl (fun t u => t.setAll u) (L.table t) =
      L.table (tables.foldl (fun t u => t.setAll u) t) := by
  induction tables generalizing t with
  | nil => rfl
  | cons u tables ih =>
    rw [List.map_cons, List.foldl_cons, List.foldl_cons, ← L.table_setAll]
    exact ih _

/-- **Dict operations mirror themselves.** -/
theorem dictOp (args : List Value) (op : DictOp) :
    L.Mirrors bound L.product (op.run s args) (op.run s' (args.map L.value)) := by
  cases op <;> simp only [DictOp.run, L.getD_map]
  case keys =>
    refine (hs.dict _ _).bind fun d => (Mirrors.dict d).then_return fun t => ?_
    rw [L.names_table]
    exact L.product_texts id t.names
  case values =>
    refine (hs.dict _ _).bind fun d => (Mirrors.dict d).then_return fun t => ?_
    have hentries : (L.table t).entries = t.entries.map L.value := by
      unfold Table.entries table
      rw [List.map_map, List.map_map]
      rfl
    rw [hentries]
    exact L.listProduct_map t.entries
  case has =>
    refine (hs.dict _ _).bind fun d => (hs.string _ _).bind fun key => ?_
    refine (Mirrors.dict d).then_return fun t => ?_
    rw [L.has_table]
    rfl
  case set =>
    refine (hs.dict _ _).bind fun d => (hs.string _ _).bind fun key => ?_
    refine (setDict_mirrors d (·.set key _) (·.set key (L.value _)) fun t => ?_).bind fun _ => .pure_of rfl
    exact (L.table_set key _ t).symm
  case remove =>
    refine (hs.dict _ _).bind fun d => (hs.string _ _).bind fun key => ?_
    refine (setDict_mirrors d (·.erase key) (·.erase key) fun t => ?_).bind fun _ => .pure_of rfl
    exact (L.table_erase key t).symm
  case clone =>
    exact (hs.dict _ _).bind fun d => (Mirrors.dict d).then_return L.tableProduct_table
  case merge =>
    refine Mirrors.bind (f := List.map L.table) (Mirrors.mapM (fun v => ?_) args) fun tables => ?_
    · exact (hs.dict _ v).bind fun d => .dict d
    · refine .pure_of ?_
      rw [← L.tableProduct_table, ← foldl_setAll]
      rfl

/-- **Number operations mirror themselves**: the random source is the same. -/
theorem mathOp (args : List Value) (op : MathOp) :
    L.Mirrors bound L.product (op.run s args) (op.run s' (args.map L.value)) := by
  cases op <;> simp only [MathOp.run, L.getD_map]
  case pow =>
    exact (hs.number _ _).bind fun base => (hs.number _ _).then_return fun _ => rfl
  case min | max =>
    refine (Mirrors.mapM (hs.number _) args).then_return fun xs => ?_
    rw [List.map_id]
    rfl
  case unary op => exact (hs.number _ _).then_return fun _ => rfl
  case random =>
    intro m m' hm
    have hnext : L.Machines bound { m with seed := nextSeed m.seed } { m' with seed := nextSeed m'.seed } :=
      ⟨hm.heap, hm.known, hm.calls, hm.effects, hm.focus, hm.hosts, congrArg nextSeed hm.seed⟩
    have hends := Ends.value (f := L.product) (.value (.number (seedNumber (nextSeed m.seed)))) hnext
    rw [show L.product (.value (.number (seedNumber (nextSeed m.seed)))) =
      .value (.number (seedNumber (nextSeed m'.seed))) by rw [hm.seed]; rfl] at hends
    exact hends

/-! ### Data -/

theorem indentArgument (v : Option Value) :
    L.Mirrors bound id (RuleScript.indentArgument s v) (RuleScript.indentArgument s' (v.map L.value)) := by
  cases v with
  | none => exact .pure none
  | some v =>
    refine (hs.number _ v).bind fun x => ?_
    dsimp only [id]
    split
    · exact .pure _
    · exact hs.fail _
    · exact hs.fail _

end Sites

section Data

variable {bound : Nat}

mutual

theorem build_mirrors : ∀ (frames : Nat) (d : Datum),
    L.Mirrors bound L.value (d.build frames) (d.build frames)
  | 0, _ => by
    rw [Datum.build]
    exact .throw rfl
  | _ + 1, .null | _ + 1, .bool _ | _ + 1, .number _ | _ + 1, .text _ => .pure_of rfl
  | _ + 1, .integer n => by
    simp only [Datum.build]
    split
    · exact .pure_of rfl
    · exact .throw rfl
  | 1, .list _ | 1, .table _ => .throw rfl
  | frames + 2, .list ds => by
    simp only [Datum.build]
    exact (buildAll_mirrors frames ds).bind fun vs => .newArray vs
  | frames + 2, .table es => by
    simp only [Datum.build]
    exact (buildEntries_mirrors frames es).bind fun t => .newDict t

theorem buildAll_mirrors (frames : Nat) : ∀ ds : List Datum,
    L.Mirrors bound (List.map L.value) (Datum.buildAll frames ds) (Datum.buildAll frames ds)
  | [] => by
    simp only [Datum.buildAll]
    exact .pure_of rfl
  | d :: ds => by
    simp only [Datum.buildAll]
    exact (build_mirrors frames d).bind fun v =>
      (buildAll_mirrors frames ds).then_return fun _ => rfl

theorem buildEntries_mirrors (frames : Nat) : ∀ es : List (String × Datum),
    L.Mirrors bound L.table (Datum.buildEntries frames es) (Datum.buildEntries frames es)
  | [] => by
    simp only [Datum.buildEntries]
    exact .pure_of rfl
  | (k, d) :: es => by
    simp only [Datum.buildEntries]
    exact (build_mirrors frames d).bind fun v =>
      (buildEntries_mirrors frames es).then_return fun _ => rfl

end

/-- A value and what it is carried over to are the same data. -/
theorem Heaps.toDatum {h h' : Heap} (hh : L.Heaps h h') : ∀ (frames : Nat) (inArray : Bool) (v : Value),
    (L.value v).toDatum h' frames inArray = v.toDatum h frames inArray
  | 0, _, _ => rfl
  | frames + 1, inArray, v => by
    cases v
    case array r =>
      match frames with
      | 0 => rfl
      | frames + 1 =>
        show Value.toDatum h' (frames + 2) inArray (.array (L.array r)) = _
        simp only [Value.toDatum, hh.items, List.mapM_map]
        simp only [Function.comp_def, hh.toDatum frames]
    case dict r =>
      match frames with
      | 0 => rfl
      | frames + 1 =>
        show Value.toDatum h' (frames + 2) inArray (.dict (L.dict r)) = _
        simp only [Value.toDatum, hh.dict, table, List.filter_map, List.mapM_map]
        simp only [Function.comp_def, hh.toDatum frames]
        congr 3
        funext p
        cases p.2 <;> rfl
    case function f =>
      show Value.toDatum h' (frames + 1) inArray (.function (L.function f)) = _
      have hclass : (Value.function (L.function f)).className h' = (Value.function f).className h := by
        unfold Value.className
        dsimp only
        rw [hh.function?]
        cases h.function? f with
        | none => rfl
        | some F => cases F <;> rfl
      simp only [Value.toDatum, hclass]
    all_goals rfl

end Data

namespace Sites

variable {bound : Nat} {s s' : Site} (hs : L.Sites bound s s')

include hs

/-- **Data operations mirror themselves.** -/
theorem dataOp (format : DataFormat) (args : List Value) (op : DataOp) :
    L.Mirrors bound L.product (op.run s format args) (op.run s' format (args.map L.value)) := by
  cases op <;> simp only [DataOp.run, L.getD_map, List.getElem?_map]
  case parse =>
    refine (hs.string _ _).bind fun text => ?_
    rw [hs.frames]
    dsimp only [id]
    split
    · exact (build_mirrors _ _).then_return fun _ => rfl
    · exact .throw rfl
    · exact hs.fail _
  case stringify =>
    refine (hs.indentArgument _).bind fun indent => .withHeap fun hh => ?_
    have hroom : s'.ctx.settings.room = s.ctx.settings.room := by
      rw [hs.ctx]
      rfl
    rw [hh.toDatum, hs.frames, hroom]
    dsimp only [id]
    split
    · exact .pure_of rfl
    · exact .throw rfl
    · exact hs.fail _

/-! ### Native calls -/

/-- **Probes mirror themselves**, if the place of the call may be told. -/
theorem probeOp (args : List Value) {op : ProbeOp} (hfits : L.Fits (.probe op)) :
    L.Mirrors bound L.product (op.run s args) (op.run s' (args.map L.value)) := by
  cases op <;> simp only [ProbeOp.run, L.getD_map]
  case callSite =>
    have hpos : s'.pos = s.pos := hs.pos.trans (L.position_of_placed hfits s.pos)
    rw [hpos, hs.ctx]
    refine .pure_of ?_
    cases s.pos.line <;> cases s.pos.column <;> rfl
  case apply =>
    refine (hs.function _ _).bind fun f => ?_
    rw [← List.map_drop]
    exact (hs.callWithValues f _).then_return fun _ => rfl
  case count =>
    rw [List.length_map]
    exact .pure_of rfl
  case document =>
    refine (hs.string _ _).bind fun usage => (hs.function _ _).bind fun f => ?_
    exact (Mirrors.modifyHeap (fun hh => hh.document hfits f usage) fun _ => Nat.le_refl _).bind
      fun _ => .pure_of rfl

/-- A host cannot tell two runs apart in which nothing is renamed. -/
theorem runMethod (hlends : L.Lends) (host index : Nat) (args : List Value) :
    L.Mirrors bound L.product (RuleScript.runMethod s host index args)
      (RuleScript.runMethod s' host index (args.map L.value)) := by
  intro m m' hm
  have hget {α : Type} (machine : Machine) (f : Machine → Eval α) :
      (get >>= f) machine = f machine machine := rfl
  unfold RuleScript.runMethod
  rw [hget, hget, hm.hosts hlends.hosted, hlends.values_eq]
  cases m.hosts[host]? with
  | none => exact Mirrors.pure_of rfl hm
  | some o =>
    dsimp only
    cases o.methods[index]? with
    | none => exact Mirrors.pure_of rfl hm
    | some method =>
      dsimp only
      refine Mirrors.bind (f := id) (.aside fun hm => ?_) (fun _ => ?_) hm
      · refine ⟨hm.heap, hm.known, hm.calls, hm.effects, hm.focus, ?_, hm.seed⟩
        intro _
        rw [hm.hosts hlends.hosted]
      · cases (method.run o.counters args).1 with
        | ok p => exact .pure_of (hlends.product_eq p).symm
        | error f => exact hs.fail _

/-- **Operations mirror themselves**, templates apart. -/
theorem operation (args : List Value) {op : Operation} (hfits : L.Fits op) (hop : op ≠ .string .render) :
    L.Mirrors bound L.product (op.run s args) ((L.operation op).run s' (args.map L.value)) := by
  cases op with
  | core op => exact hs.coreOp args op
  | array op => exact hs.arrayOp args op
  | string op => exact hs.stringOp args fun h => hop (congrArg Operation.string h)
  | dict op => exact hs.dictOp args op
  | math op => exact hs.mathOp args op
  | data format op => exact hs.dataOp format args op
  | probe op => exact hs.probeOp args hfits
  | branch condition => exact hs.runBranch condition args
  | loop condition limit => exact hs.runLoop condition limit args
  | method host index => exact hs.runMethod hfits host index args
  | idle => exact .pure_of rfl

/-- What an operation hands back becomes a value on both sides. -/
theorem receive_host {op : Operation} (hfits : L.Fits op) (p : Product) :
    L.Mirrors bound L.value (do s.receive (op.host? (← get)) p)
      (do s'.receive ((L.operation op).host? (← get)) (L.product p)) := by
  intro m m' hm
  have hhost : (L.operation op).host? m' = op.host? m := by
    cases op
    case method host index =>
      exact congrArg (fun hosts => (hosts[host]?).map fun o => (host, o)) (hm.hosts hfits.hosted)
    all_goals rfl
  show L.Ends bound L.value (s.receive (op.host? m) p m)
    (s'.receive ((L.operation op).host? m') (L.product p) m')
  rw [hhost]
  refine hs.receive ?_ p hm
  cases op
  case method host index => exact .inl hfits
  all_goals exact .inr rfl

end Sites

end Likeness

end RuleScript
