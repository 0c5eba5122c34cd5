/-
# Copies of values

A value is copied with its arrays and dicts at every depth. The copy has the
same scalars and functions in the same places (`Copied`), and its arrays and
dicts are fresh: nothing that was there before has changed, the copy is not the
original, and writing to the copy does not change the original. A value can be
copied if there are frames enough for its nesting (`Value.copiable`): two for an
array, one for a dict and one for anything else. For a cyclic one no number of
frames is enough.

The judgement `Copying` says at once when a computation succeeds and what it
leaves, so that one induction on the frames settles both. A copy that is refused
has added to the heap at most (`Eval.Adding`), and a value for which some number
of frames is enough is refused for want of frames (`Eval.Exhausts`).

Key definitions: `Heap.Adds`, `Eval.Adding`, `Value.copiable`, `Copied`,
`Copying`, `Eval.Exhausts`.
Key theorems: `Copied.not_strictEq`, `Copied.apart`, `copyValue_copying`,
`copyValue_exhausts`.
-/
import Mathlib.Data.List.Forall2
import RuleScript.Proofs.Composition
import RuleScript.Proofs.Heap.WellFormed

namespace RuleScript

/-! ### What is added to a heap -/

namespace Heap

/-- Arrays and dicts were added; what was there before is as it was. -/
structure Adds (h h' : Heap) : Prop where
  arrays : h.arrays.size ≤ h'.arrays.size
  dicts : h.dicts.size ≤ h'.dicts.size
  scopes : h'.scopes = h.scopes
  functions : h'.functions = h.functions
  items : ∀ r : ArrayRef, r.index < h.arrays.size → h'.items r = h.items r
  dict : ∀ r : DictRef, r.index < h.dicts.size → h'.dict r = h.dict r

/-- Something is written to an array or a dict. -/
inductive Writes (h : Heap) : Value → Heap → Prop
  | setItems (r : ArrayRef) (xs : List Value) : Writes h (.array r) (h.setItems r xs)
  | addItems (r : ArrayRef) (xs : List Value) : Writes h (.array r) (h.addItems r xs)
  | setDict (r : DictRef) (t : Table Value) : Writes h (.dict r) (h.setDict r t)

namespace Adds

variable {h h' : Heap}

theorem refl (h : Heap) : h.Adds h :=
  ⟨Nat.le_refl _, Nat.le_refl _, rfl, rfl, fun _ _ => rfl, fun _ _ => rfl⟩

theorem trans {h₁ h₂ h₃ : Heap} (h₁₂ : h₁.Adds h₂) (h₂₃ : h₂.Adds h₃) : h₁.Adds h₃ where
  arrays := Nat.le_trans h₁₂.arrays h₂₃.arrays
  dicts := Nat.le_trans h₁₂.dicts h₂₃.dicts
  scopes := h₂₃.scopes.trans h₁₂.scopes
  functions := h₂₃.functions.trans h₁₂.functions
  items r hr := (h₂₃.items r (Nat.lt_of_lt_of_le hr h₁₂.arrays)).trans (h₁₂.items r hr)
  dict r hr := (h₂₃.dict r (Nat.lt_of_lt_of_le hr h₁₂.dicts)).trans (h₁₂.dict r hr)

theorem newArray (h : Heap) (xs : List Value) : h.Adds (h.newArray xs).2 where
  arrays := Nat.le_of_lt (h.newArray_lt xs)
  dicts := Nat.le_refl _
  scopes := rfl
  functions := rfl
  items r hr := by rw [items_newArray, if_neg (Nat.ne_of_lt hr)]
  dict _ _ := rfl

theorem newDict (h : Heap) (t : Table Value) : h.Adds (h.newDict t).2 where
  arrays := Nat.le_refl _
  dicts := Nat.le_of_lt (h.newDict_lt t)
  scopes := rfl
  functions := rfl
  items _ _ := rfl
  dict r hr := by rw [dict_newDict, if_neg (Nat.ne_of_lt hr)]

theorem chainFrom (hadds : h.Adds h') : ∀ (fuel : Nat) (s : ScopeRef),
    h'.chainFrom fuel s = h.chainFrom fuel s := by
  intro fuel
  induction fuel with
  | zero => exact fun _ => rfl
  | succ fuel ih =>
    intro s
    have hscope : h'.scope s = h.scope s := by unfold Heap.scope; rw [hadds.scopes]
    unfold Heap.chainFrom
    rw [hscope]
    cases (h.scope s).parent with
    | none => rfl
    | some p => exact congrArg (s :: ·) (ih p)

/-- Names are bound to what they were bound to. -/
theorem read? (hadds : h.Adds h') (s : ScopeRef) (name : String) :
    h'.read? s name = h.read? s name := by
  unfold Heap.read? Heap.chain Heap.bindings Heap.scope
  rw [hadds.scopes, hadds.chainFrom]

/-- Writing to an array that is new does not change what was there before. -/
theorem modifyArray (hadds : h.Adds h') {i : Nat} (hi : h.arrays.size ≤ i)
    (f : ArrayCell → ArrayCell) : h.Adds { h' with arrays := h'.arrays.modify i f } where
  arrays := by simpa only [Array.size_modify] using hadds.arrays
  dicts := hadds.dicts
  scopes := hadds.scopes
  functions := hadds.functions
  items r hr := by
    rw [← hadds.items r hr]
    exact items_modify_of_ne (by omega) f
  dict := hadds.dict

theorem setDict (hadds : h.Adds h') {r : DictRef} (hr : h.dicts.size ≤ r.index) (t : Table Value) :
    h.Adds (h'.setDict r t) where
  arrays := hadds.arrays
  dicts := by simpa only [Heap.setDict, Array.size_setIfInBounds] using hadds.dicts
  scopes := hadds.scopes
  functions := hadds.functions
  items := hadds.items
  dict s hs := by
    rw [← hadds.dict s hs]
    exact dict_setDict_of_ne (by omega) t

end Adds

end Heap

/-! ### Computations that add to the heap -/

/-- A computation that adds arrays and dicts to the heap and changes nothing
else, even if it stops. -/
class Eval.Adding {α : Type} (x : Eval α) : Prop where
  adds : ∀ m, ∃ h, (x m).2 = { m with heap := h } ∧ m.heap.Adds h

namespace Eval.Adding

variable {α β : Type}

instance bind {x : Eval α} {f : α → Eval β} [hx : Adding x] [hf : ∀ a, Adding (f a)] :
    Adding (x >>= f) where
  adds m := by
    obtain ⟨h, hm, hadds⟩ := hx.adds m
    rw [Eval.bind_run]
    generalize x m = p at hm
    obtain ⟨_ | a, m'⟩ := p
    · exact ⟨h, hm, hadds⟩
    · obtain rfl : m' = { m with heap := h } := hm
      obtain ⟨h', hm', hadds'⟩ := (hf a).adds { m with heap := h }
      exact ⟨h', hm', hadds.trans hadds'⟩

theorem of_same {x : Eval α} (hx : ∀ m, (x m).2 = m) : Adding x := ⟨fun m => ⟨m.heap, hx m, .refl _⟩⟩

instance (a : α) : Adding (pure a : Eval α) := of_same fun _ => rfl

instance (s : Stop) : Adding (throw s : Eval α) := of_same fun _ => rfl

instance (ctx : Context) (pos : Position) (c : Cause) : Adding (fail ctx pos c : Eval α) :=
  of_same fun _ => rfl

instance (f : Heap → α) : Adding (onHeap f) := of_same fun _ => rfl

instance (r : ArrayRef) : Adding (Site.items r) := of_same fun _ => rfl

instance (xs : List Value) : Adding (newArray xs) := ⟨fun m => ⟨_, rfl, .newArray m.heap xs⟩⟩

instance (t : Table Value) : Adding (newDict t) := ⟨fun m => ⟨_, rfl, .newDict m.heap t⟩⟩

end Eval.Adding

/-- To add passes from the steps to what is put together from them. -/
theorem adding_builds : Eval.Builds Eval.Adding where
  pure _ := inferInstance
  exhausted := inferInstance
  onHeap _ := inferInstance
  bind _ _ := inferInstance
  newArray _ := inferInstance
  newDict _ := inferInstance
  tooLarge := inferInstance

instance Eval.Adding.mapM {α β : Type} {f : α → Eval β} [hf : ∀ a, Adding (f a)] (xs : List α) :
    Adding (xs.mapM f) := adding_builds.mapM hf xs

instance copyValue_adding (s : Site) (frames : Nat) (v : Value) : Eval.Adding (s.copyValue frames v) :=
  s.copyValue_of_builds adding_builds (fun _ => inferInstanceAs (Eval.Adding (Eval.fail _ _ _))) frames
    v

/-- What is handed back of a value adds to the heap at most. -/
theorem receive_adding (s : Site) (host : Option (Nat × Host)) (v : Value) :
    Eval.Adding (s.receive host (.value v)) := by
  have hcopy (h : v ≠ .absent) : s.receive host (.value v) = s.copyValue s.frames v := by
    unfold Site.receive
    split
    · exact absurd (Product.value.inj ‹_›) h
    · rw [Site.receiveInside]
  by_cases h : v = .absent
  · rw [h]
    exact inferInstanceAs (Eval.Adding (pure _))
  · rw [hcopy h]
    infer_instance

/-! ### Copies -/

/-- An array or a dict. -/
def Value.isAggregate : Value → Bool
  | .array _ | .dict _ => true
  | .absent | .null | .bool _ | .number _ | .string _ | .function _ => false

theorem Value.strictEq_self {v : Value} (h : v.isAggregate = true) : v.strictEq v = true := by
  cases v with
  | array r => exact beq_self_eq_true r
  | dict r => exact beq_self_eq_true r
  | absent | null | bool | number | string | function => cases h

/-- Whether there are frames enough for a value at every depth, and no mark of a
missing value is in it. -/
def Value.copiable (h : Heap) : (frames : Nat) → Value → Bool
  | 0, _ => false
  | frames + 1, v =>
    match v with
    | .absent => false
    | .array r =>
      match frames with
      | 0 => false
      | frames + 1 => (h.items r).all (copiable h frames)
    | .dict r => (h.dict r).all fun p => copiable h frames p.2
    | .null | .bool _ | .number _ | .string _ | .function _ => true

section Copiable

variable {h : Heap}

theorem Value.copiable_array (frames : Nat) (r : ArrayRef) :
    (Value.array r).copiable h (frames + 2) = (h.items r).all (copiable h frames) := rfl

/-- What is enough for an array leaves two frames less for its elements. -/
theorem Value.exists_copiable_items {frames : Nat} {r : ArrayRef}
    (hr : (Value.array r).copiable h frames = true) :
    ∃ n, frames = n + 2 ∧ ∀ v ∈ h.items r, v.copiable h n = true := by
  match frames, hr with
  | n + 2, hr => exact ⟨n, rfl, List.all_eq_true.mp hr⟩

/-- What is enough for a dict leaves one frame less for its values. -/
theorem Value.exists_copiable_dict {frames : Nat} {r : DictRef}
    (hr : (Value.dict r).copiable h frames = true) :
    ∃ n, frames = n + 1 ∧ ∀ p ∈ h.dict r, p.2.copiable h n = true := by
  match frames, hr with
  | n + 1, hr => exact ⟨n, rfl, List.all_eq_true.mp hr⟩

/-- What is enough for a value, more is enough for. -/
theorem Value.copiable_mono : ∀ {n n' : Nat}, n ≤ n' → ∀ {v : Value}, v.copiable h n = true →
    v.copiable h n' = true
  | 0, _, _, _, hv => by cases hv
  | n + 1, n', hn, v, hv => by
    obtain ⟨n', rfl⟩ : ∃ k, n' = k + 1 := ⟨n' - 1, by omega⟩
    cases v with
    | absent => cases hv
    | array r =>
      match n, hv with
      | n + 1, hv =>
        obtain ⟨n', rfl⟩ : ∃ k, n' = k + 1 := ⟨n' - 1, by omega⟩
        exact List.all_eq_true.mpr fun x hx => copiable_mono (by omega) (List.all_eq_true.mp hv x hx)
    | dict r =>
      exact List.all_eq_true.mpr fun p hp => copiable_mono (by omega) (List.all_eq_true.mp hv p hp)
    | null | bool | number | string | function => rfl

end Copiable

/-- A value and a copy of it, in the heap of before and in that of after: the
same scalars and functions, in arrays and dicts that were not there before. -/
inductive Copied (h h' : Heap) : Value → Value → Prop
  | same {v : Value} (hv : v.isAggregate = false) : Copied h h' v v
  | array {r r' : ArrayRef} (hfresh : h.arrays.size ≤ r'.index) (hnew : r'.index < h'.arrays.size)
    (hlength : (h.items r).length = (h'.items r').length)
    (hitems : ∀ p ∈ (h.items r).zip (h'.items r'), Copied h h' p.1 p.2) :
    Copied h h' (.array r) (.array r')
  | dict {r r' : DictRef} (hfresh : h.dicts.size ≤ r'.index) (hnew : r'.index < h'.dicts.size)
    (hnames : (h.dict r).names = (h'.dict r').names)
    (hvalues : ∀ p ∈ (h.dict r).zip (h'.dict r'), Copied h h' p.1.2 p.2.2) :
    Copied h h' (.dict r) (.dict r')

namespace Copied

variable {h h' : Heap} {v w : Value}

/-- What is added later leaves a copy as it is. -/
theorem mono {h'' : Heap} (hc : Copied h h' v w) (hadds : h'.Adds h'') : Copied h h'' v w := by
  induction hc with
  | same hv => exact .same hv
  | array hfresh hnew hlength _ ih =>
    have hitems := hadds.items _ hnew
    refine .array hfresh (Nat.lt_of_lt_of_le hnew hadds.arrays) ?_ ?_
    · rwa [hitems]
    · rwa [hitems]
  | dict hfresh hnew hnames _ ih =>
    have hdict := hadds.dict _ hnew
    refine .dict hfresh (Nat.lt_of_lt_of_le hnew hadds.dicts) ?_ ?_
    · rwa [hdict]
    · rwa [hdict]

/-- A copy of an array or a dict that was there before is another one. -/
theorem not_strictEq (hc : Copied h h' v w) (hv : h.Allocated v) (hagg : v.isAggregate = true) :
    w.strictEq v = false := by
  cases hc with
  | same hv' => rw [hv'] at hagg; cases hagg
  | array hfresh _ _ _ =>
    refine beq_eq_false_iff_ne.mpr ?_
    rintro rfl
    exact Nat.not_lt_of_le hfresh hv
  | dict hfresh _ _ _ =>
    refine beq_eq_false_iff_ne.mpr ?_
    rintro rfl
    exact Nat.not_lt_of_le hfresh hv

/-- Writing to a copy does not change what was there before. -/
theorem apart (hc : Copied h h' v w) (hagg : v.isAggregate = true) (hadds : h.Adds h') {h'' : Heap}
    (hw : h'.Writes w h'') : h.Adds h'' := by
  cases hc with
  | same hv' => rw [hv'] at hagg; cases hagg
  | array hfresh _ _ _ =>
    cases hw with
    | setItems => exact hadds.modifyArray hfresh _
    | addItems => exact hadds.modifyArray hfresh _
  | dict hfresh _ _ _ =>
    cases hw with
    | setDict => exact hadds.setDict hfresh _

end Copied

/-! ### Copying -/

/-- A computation that succeeds if `ok` holds, with arrays and dicts added to
the heap and nothing else changed, and stops if it does not. -/
def Copying {α : Type} (ok : Bool) (post : Heap → α → Prop) (m : Machine) (x : Eval α) : Prop :=
  if ok then ∃ a h, x m = (.ok a, { m with heap := h }) ∧ m.heap.Adds h ∧ post h a
  else ∃ s m', x m = (.error s, m')

namespace Copying

variable {α β : Type} {ok : Bool} {post : Heap → α → Prop} {m : Machine} {x : Eval α}

theorem pure {a : α} (ha : post m.heap a) : Copying true post m (pure a) :=
  ⟨a, m.heap, rfl, .refl _, ha⟩

theorem throw (s : Stop) : Copying false post m (throw s) := ⟨s, m, rfl⟩

theorem bind {ok' : Bool} {post' : Heap → β → Prop} {f : α → Eval β} (hx : Copying ok post m x)
    (hf : ∀ a h, m.heap.Adds h → post h a → Copying ok' post' { m with heap := h } (f a)) :
    Copying (ok && ok') post' m (x >>= f) := by
  cases ok with
  | false =>
    obtain ⟨s, m', hrun⟩ := hx
    exact ⟨s, m', Eval.bind_run_error hrun f⟩
  | true =>
    obtain ⟨a, h, hrun, hadds, ha⟩ := hx
    have hf' := hf a h hadds ha
    cases ok' with
    | false =>
      obtain ⟨s, m', hrun'⟩ := hf'
      exact ⟨s, m', (Eval.bind_run_ok hrun f).trans hrun'⟩
    | true =>
      obtain ⟨b, h', hrun', hadds', hb⟩ := hf'
      exact ⟨b, h', (Eval.bind_run_ok hrun f).trans hrun', hadds.trans hadds', hb⟩

theorem then_allocate {post' : Heap → β → Prop} {f : α → Eval β} (hx : Copying ok post m x)
    (hf : ∀ a h, m.heap.Adds h → post h a → Copying true post' { m with heap := h } (f a)) :
    Copying ok post' m (x >>= f) := by
  have hbind := hx.bind hf
  rwa [Bool.and_true] at hbind

theorem of_eq {y : Eval α} (h : x m = y m) (hy : Copying ok post m y) : Copying ok post m x := by
  unfold Copying
  rw [h]
  exact hy

theorem newArray {post : Heap → Value → Prop} {xs : List Value}
    (h : post (m.heap.newArray xs).2 (.array (m.heap.newArray xs).1)) :
    Copying true post m (Eval.newArray xs) := ⟨_, _, rfl, .newArray _ xs, h⟩

theorem newDict {post : Heap → Value → Prop} {t : Table Value}
    (h : post (m.heap.newDict t).2 (.dict (m.heap.newDict t).1)) :
    Copying true post m (Eval.newDict t) := ⟨_, _, rfl, .newDict _ t, h⟩

/-- Results for the elements of a list, each in the relation to its own. -/
theorem mapM {h₀ : Heap} {f : β → Eval α} {ok : β → Bool} {rel : Heap → β → α → Prop}
    (hrel : ∀ h h' b a, rel h b a → h.Adds h' → rel h' b a) : ∀ {bs : List β} {m : Machine},
    h₀.Adds m.heap →
    (∀ b ∈ bs, ∀ m : Machine, h₀.Adds m.heap → Copying (ok b) (fun h => rel h b) m (f b)) →
      Copying (bs.all ok) (fun h as => List.Forall₂ (rel h) bs as) m (bs.mapM f)
  | [], m, _, _ => by
    rw [List.mapM_nil]
    exact pure .nil
  | b :: bs, m, hm, hbs => by
    obtain ⟨hb, hrest⟩ := List.forall_mem_cons.mp hbs
    rw [List.mapM_cons, List.all_cons]
    refine (hb m hm).bind fun a h hadds ha => ?_
    refine (mapM hrel (hm.trans hadds) hrest).then_allocate fun as h' hadds' has => ?_
    exact pure (.cons (hrel h h' b a ha hadds') has)

end Copying

theorem zip_of_forall₂ {α β : Type} {rel : α → β → Prop} {as : List α} {bs : List β}
    (h : List.Forall₂ rel as bs) : ∀ p ∈ as.zip bs, rel p.1 p.2 :=
  fun _ hp => (List.forall₂_iff_zip.mp h).2 hp

theorem names_of_forall₂ {α β : Type} {s : Table α} {t : Table β}
    (h : List.Forall₂ (fun p q => p.1 = q.1) s t) : s.names = t.names := by
  induction h with
  | nil => rfl
  | @cons p q s t hpq _ ih => rw [Table.names, List.map_cons, hpq, ← Table.names, ih]; rfl

/-- Tables of the same names have the same name at every place. -/
theorem names_zip {α β : Type} : ∀ {s : Table α} {t : Table β}, s.names = t.names →
    ∀ {p : String × α} {q : String × β}, (p, q) ∈ s.zip t → p.1 = q.1
  | [], _, _, _, _, hp => by cases hp
  | _ :: _, [], _, _, _, hp => by cases hp
  | (a, x) :: s, (b, y) :: t, h, p, q, hp => by
    obtain ⟨hab, hrest⟩ := List.cons.inj (show a :: Table.names s = b :: Table.names t from h)
    rcases List.mem_cons.mp hp with heq | hp
    · cases heq
      exact hab
    · exact names_zip hrest hp

namespace Copied

variable {h₀ h : Heap}

theorem newArray {r : ArrayRef} (hadds : h₀.Adds h) {ws : List Value}
    (hws : List.Forall₂ (Copied h₀ h) (h₀.items r) ws) :
    Copied h₀ (h.newArray ws).2 (.array r) (.array (h.newArray ws).1) := by
  have hitems : (h.newArray ws).2.items (h.newArray ws).1 = ws := by
    rw [Heap.items_newArray]
    exact if_pos rfl
  refine .array hadds.arrays (h.newArray_lt ws) ?_ ?_
  · rw [hitems]
    exact hws.length_eq
  · rw [hitems]
    exact fun p hp => (zip_of_forall₂ hws p hp).mono (.newArray h ws)

theorem newDict {r : DictRef} (hadds : h₀.Adds h) {t : Table Value}
    (ht : List.Forall₂ (fun p q => p.1 = q.1 ∧ Copied h₀ h p.2 q.2) (h₀.dict r) t) :
    Copied h₀ (h.newDict t).2 (.dict r) (.dict (h.newDict t).1) := by
  have hdict : (h.newDict t).2.dict (h.newDict t).1 = t := by
    rw [Heap.dict_newDict]
    exact if_pos rfl
  refine .dict hadds.dicts (h.newDict_lt t) ?_ ?_
  · rw [hdict]
    exact names_of_forall₂ (ht.imp fun _ _ h => h.1)
  · rw [hdict]
    exact fun p hp => (zip_of_forall₂ ht p hp).2.mono (.newDict h t)

end Copied

/-- **Copying a value succeeds if it can be copied, and gives a copy.** -/
theorem copyValue_copying {h₀ : Heap} (hh : h₀.WellFormed) (s : Site) :
    ∀ (frames : Nat) {v : Value} {m : Machine}, h₀.Adds m.heap → h₀.Allocated v →
      Copying (v.copiable h₀ frames) (fun h w => Copied h₀ h v w) m (s.copyValue frames v)
  | 0, _, _, _, _ => .throw _
  | frames + 1, v, m, hm, hv => by
    cases v with
    | absent => exact .throw _
    | array r =>
      match frames with
      | 0 => exact .throw _
      | frames + 1 =>
        have hcopies : Copying ((h₀.items r).all (Value.copiable h₀ frames))
            (fun h ws => List.Forall₂ (Copied h₀ h) (h₀.items r) ws) m
            ((h₀.items r).mapM (s.copyValue frames)) :=
          .mapM (fun _ _ _ _ hc => hc.mono) hm fun x hx m' hm' =>
            copyValue_copying hh s frames hm' (hh.items r x hx)
        refine .of_eq ?_ (hcopies.then_allocate fun ws h hadds hws =>
          .newArray (.newArray (hm.trans hadds) hws))
        rw [← hm.items r hv]
        rfl
    | dict r =>
      have hcopies : Copying ((h₀.dict r).all fun p => p.2.copiable h₀ frames)
          (fun h ws => List.Forall₂ (fun p q => p.1 = q.1 ∧ Copied h₀ h p.2 q.2) (h₀.dict r) ws) m
          ((h₀.dict r).mapM fun p => do return (p.1, ← s.copyValue frames p.2)) := by
        refine .mapM (fun _ _ _ _ hc hadds => ⟨hc.1, hc.2.mono hadds⟩) hm fun p hp m' hm' => ?_
        refine (copyValue_copying hh s frames hm' (hh.dict r p hp)).then_allocate ?_
        exact fun w h _ hw => .pure ⟨rfl, hw⟩
      refine .of_eq ?_ (hcopies.then_allocate fun t h hadds ht =>
        .newDict (.newDict (hm.trans hadds) ht))
      rw [← hm.dict r hv]
      rfl
    | null | bool | number | string | function => exact .pure (.same rfl)

/-! ### Copies that exhaust -/

/-- On a heap that was added to, a computation stops for want of room only. -/
def Eval.Exhausts {α : Type} (h₀ : Heap) (x : Eval α) : Prop :=
  ∀ m : Machine, h₀.Adds m.heap → ∀ s, (x m).1 = .error s → s = .exhausted none

namespace Eval.Exhausts

variable {α β : Type} {h₀ : Heap}

theorem pure (a : α) : Exhausts h₀ (pure a) := by rintro _ _ _ ⟨⟩

theorem bind {x : Eval α} {f : α → Eval β} [hadding : Adding x] (hx : Exhausts h₀ x)
    (hf : ∀ a, Exhausts h₀ (f a)) : Exhausts h₀ (x >>= f) := by
  intro m hm s hs
  rw [Eval.bind_run] at hs
  have hstop := hx m hm
  obtain ⟨h, hmachine, hadds⟩ := hadding.adds m
  generalize x m = p at hs hstop hmachine
  obtain ⟨_ | a, m'⟩ := p
  · obtain rfl := Except.error.inj hs
    exact hstop _ rfl
  · obtain rfl : m' = { m with heap := h } := hmachine
    exact hf a _ (hm.trans hadds) s hs

theorem of_eq {x y : Eval α} (hxy : ∀ m : Machine, h₀.Adds m.heap → x m = y m) (hy : Exhausts h₀ y) :
    Exhausts h₀ x := by
  intro m hm s hs
  rw [hxy m hm] at hs
  exact hy m hm s hs

theorem mapM {f : α → Eval β} [∀ a, Adding (f a)] : ∀ {xs : List α}, (∀ x ∈ xs, Exhausts h₀ (f x)) →
    Exhausts h₀ (xs.mapM f)
  | [], _ => by
    rw [List.mapM_nil]
    exact pure []
  | x :: xs, hxs => by
    obtain ⟨hx, hrest⟩ := List.forall_mem_cons.mp hxs
    rw [List.mapM_cons]
    exact hx.bind fun _ => (mapM hrest).bind fun _ => pure _

end Eval.Exhausts

/-- A property of values that passes from an array or a dict to what it holds. -/
structure Heap.PassesDown (h : Heap) (P : Value → Prop) : Prop where
  items : ∀ r, P (.array r) → ∀ v ∈ h.items r, P v
  dict : ∀ r, P (.dict r) → ∀ p ∈ h.dict r, P p.2

/-- A value in which no mark of a missing value is found is refused only for want
of frames. -/
theorem copyValue_exhausts_of {h₀ : Heap} {P : Value → Prop} (hP : h₀.PassesDown P)
    (hallocated : ∀ v, P v → h₀.Allocated v) (hpresent : ¬P .absent) (s : Site) :
    ∀ (frames : Nat) {v : Value}, P v → Eval.Exhausts h₀ (s.copyValue frames v)
  | 0, _, _ => fun _ _ _ hs => (Except.error.inj hs).symm
  | frames + 1, v, hv => by
    cases v with
    | absent => exact absurd hv hpresent
    | array r =>
      match frames with
      | 0 => exact fun _ _ _ hs => (Except.error.inj hs).symm
      | frames + 1 =>
        have hinside := fun x hx =>
          copyValue_exhausts_of hP hallocated hpresent s frames (hP.items r hv x hx)
        have hitems : Eval.Exhausts h₀ ((h₀.items r).mapM (s.copyValue frames) >>= Eval.newArray) :=
          .bind (.mapM hinside) fun _ _ _ _ h => by cases h
        refine hitems.of_eq fun m hm => ?_
        rw [← hm.items r (hallocated _ hv)]
        rfl
    | dict r =>
      have hentries : Eval.Exhausts h₀
          ((h₀.dict r).mapM (fun p => do return (p.1, ← s.copyValue frames p.2)) >>= Eval.newDict) := by
        refine .bind (.mapM fun p hp => ?_) fun _ _ _ _ h => by cases h
        exact (copyValue_exhausts_of hP hallocated hpresent s frames (hP.dict r hv p hp)).bind
          fun _ => .pure _
      refine hentries.of_eq fun m hm => ?_
      rw [← hm.dict r (hallocated _ hv)]
      rfl
    | null | bool | number | string | function => exact .pure _

/-- That some number of frames is enough passes down. -/
theorem passesDown_copiable {h₀ : Heap} (hh : h₀.WellFormed) :
    h₀.PassesDown fun v => h₀.Allocated v ∧ ∃ deep, v.copiable h₀ deep = true := by
  constructor
  · rintro r ⟨-, deep, hdeep⟩ v hv
    obtain ⟨n, -, hitems⟩ := Value.exists_copiable_items hdeep
    exact ⟨hh.items r v hv, n, hitems v hv⟩
  · rintro r ⟨-, deep, hdeep⟩ p hp
    obtain ⟨n, -, hvalues⟩ := Value.exists_copiable_dict hdeep
    exact ⟨hh.dict r p hp, n, hvalues p hp⟩

/-- **A value for which some number of frames is enough is refused only for want of
frames.** -/
theorem copyValue_exhausts {h₀ : Heap} (hh : h₀.WellFormed) (s : Site) (frames deep : Nat) {v : Value}
    (hv : h₀.Allocated v) (hdeep : v.copiable h₀ deep = true) :
    Eval.Exhausts h₀ (s.copyValue frames v) := by
  refine copyValue_exhausts_of (passesDown_copiable hh) (fun _ h => h.1) ?_ s frames ⟨hv, deep, hdeep⟩
  rintro ⟨-, _ | deep, hdeep⟩ <;> cases hdeep

/-! ### Deep values -/

/-- Arrays one inside another, the empty one first. -/
def nestedArrays (n : Nat) : Heap where
  scopes := #[]
  arrays := (Array.range (n + 1)).map fun k => ⟨if k = 0 then [] else [.array ⟨k - 1⟩], 0⟩
  dicts := #[]
  functions := #[]

theorem items_nestedArrays {n k : Nat} (hk : k ≤ n) :
    (nestedArrays n).items ⟨k⟩ = if k = 0 then [] else [.array ⟨k - 1⟩] := by
  unfold nestedArrays Heap.items Heap.arrayCell
  dsimp only
  rw [Array.getD_eq_getD_getElem?, Array.getElem?_map, Array.getElem?_range, if_pos (by omega)]
  rfl

theorem nestedArrays_wellFormed (n : Nat) : (nestedArrays n).WellFormed where
  items r v hv := by
    obtain ⟨k⟩ := r
    have hsize : (nestedArrays n).arrays.size = n + 1 := by simp [nestedArrays]
    by_cases hk : k ≤ n
    · rw [items_nestedArrays hk] at hv
      by_cases hzero : k = 0
      · rw [if_pos hzero] at hv
        cases hv
      · rw [if_neg hzero] at hv
        obtain rfl := List.mem_singleton.mp hv
        show k - 1 < (nestedArrays n).arrays.size
        omega
    · have hnone : (nestedArrays n).items ⟨k⟩ = [] := by
        have hout : (nestedArrays n).arrays[k]? = none := Array.getElem?_eq_none (by omega)
        unfold Heap.items Heap.arrayCell
        rw [Array.getD_eq_getD_getElem?, hout]
        rfl
      rw [hnone] at hv
      cases hv
  dict := by rintro r p ⟨⟩
  bindings := by rintro s p ⟨⟩
  functions := by rintro r f ⟨⟩
  inside := by rintro s p ⟨⟩

section Nested

variable {h : Heap} {n k : Nat}

theorem items_of_nestedArrays (hh : h.arrays = (nestedArrays n).arrays) (hk : k ≤ n) :
    h.items ⟨k⟩ = if k = 0 then [] else [.array ⟨k - 1⟩] := by
  rw [← items_nestedArrays hk]
  unfold Heap.items Heap.arrayCell
  rw [hh]

/-- Two frames for each are enough for an array inside so many others. -/
theorem nestedArrays_copiable (hh : h.arrays = (nestedArrays n).arrays) (hk : k ≤ n) :
    (Value.array ⟨k⟩).copiable h (2 * (k + 1)) = true := by
  induction k with
  | zero =>
    rw [Nat.mul_succ, Value.copiable_array, items_of_nestedArrays hh hk]
    rfl
  | succ k ih =>
    rw [Nat.mul_succ, Value.copiable_array, items_of_nestedArrays hh hk, if_neg (Nat.succ_ne_zero k),
      List.all_cons, Nat.add_sub_cancel, ih (Nat.le_of_succ_le hk)]
    rfl

/-- It is not copied with less. -/
theorem copyValue_nestedArrays (s : Site) {m : Machine} (hm : m.heap.arrays = (nestedArrays n).arrays)
    {frames : Nat} (hframes : frames < 2 * (k + 1)) (hk : k ≤ n) :
    s.copyValue frames (.array ⟨k⟩) m = (.error (.exhausted none), m) := by
  induction k generalizing frames with
  | zero =>
    match frames with
    | 0 | 1 => rfl
  | succ k ih =>
    match frames with
    | 0 | 1 => rfl
    | frames + 2 =>
      have hcopy : s.copyValue (frames + 2) (.array ⟨k + 1⟩) m =
          ((m.heap.items ⟨k + 1⟩).mapM (s.copyValue frames) >>= Eval.newArray) m := rfl
      rw [hcopy, items_of_nestedArrays hm hk, if_neg (Nat.succ_ne_zero k), Nat.add_sub_cancel,
        List.mapM_cons, bind_assoc, Eval.bind_run_error (ih (by omega) (by omega))]

end Nested

end RuleScript
