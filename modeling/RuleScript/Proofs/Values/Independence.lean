/-
# Copies are independent

`Array.clone`, `Array.slice` and `Dict.clone` and `Dict.merge` of one argument hand back
a copy of the whole array or dict: the operation copies it one level deep, and handing
back copies that at every depth, so what the caller gets is the copy that `copyValue`
makes (`CopiesWhole.call`).

The copy is equal in structure to what was copied, and each array and dict in it is new.
None of them is in a value that was there before, so whatever mutating natives do to the
one is not seen in the other (`copies_are_independent`). An acyclic array or dict is
copied if the host has frames enough for it, two for an array inside another and one for
a dict; if it has not, the call ends in exhaustion.

Key definitions: `CopiesWhole`, `CopyReady`.
Key theorems: `CopiesWhole.call`, `Copied.new_within`, `StructEq.of_changesOnly`,
`copies_are_independent`.
-/
import RuleScript.Proofs.Library.Mutation
import RuleScript.Proofs.Values.Acyclic
import RuleScript.Proofs.Values.Delivery
import RuleScript.Proofs.Values.Equality
import RuleScript.Proofs.Values.Results

namespace RuleScript

/-! ### Calls that copy -/

namespace Table

variable {α : Type}

theorem set_of_notMem {name : String} (a : α) : ∀ {t : Table α}, name ∉ t.names →
    t.set name a = t ++ [(name, a)]
  | [], _ => rfl
  | (n, b) :: t, hname => by
    obtain ⟨hne, hrest⟩ := not_or.mp fun h => hname (List.mem_cons.mpr h)
    rw [set, if_neg (Ne.symm hne), set_of_notMem a hrest, List.cons_append]

/-- A table is written behind another one that has none of its names. -/
theorem setAll_of_nodup {s t : Table α} (hnames : (s.names ++ t.names).Nodup) :
    s.setAll t = s ++ t := by
  induction t generalizing s with
  | nil => simp [setAll]
  | cons p t ih =>
    have hnew : p.1 ∉ s.names := fun hp =>
      List.disjoint_of_nodup_append hnames hp List.mem_cons_self
    have hrest : (names (s ++ [p]) ++ names t).Nodup := by simpa [names] using hnames
    show (s.set p.1 p.2).setAll t = s ++ p :: t
    rw [set_of_notMem p.2 hnew, ih hrest, List.append_assoc, List.singleton_append]

end Table

/-- The natives that copy an array or a dict whole, by the operation and the argument. -/
inductive CopiesWhole : Operation → Value → Prop
  | arrayClone (r : ArrayRef) : CopiesWhole (.array .clone) (.array r)
  | arraySlice (r : ArrayRef) : CopiesWhole (.array .slice) (.array r)
  | dictClone (r : DictRef) : CopiesWhole (.dict .clone) (.dict r)
  | dictMerge (r : DictRef) : CopiesWhole (.dict .merge) (.dict r)

theorem CopiesWhole.ne_absent {op : Operation} {v : Value} (h : CopiesWhole op v) : v ≠ .absent := by
  rintro rfl
  cases h

section

variable {s : Site} {m : Machine}

/-- A table becomes a dict of copies. -/
theorem receive_tableProduct_eq (s : Site) (host : Option (Nat × Host)) (t : Table Value) :
    s.receive host (tableProduct t) =
      t.mapM (fun p => do return (p.1, ← s.copyValue (s.elementFrames + 1) p.2)) >>=
        Eval.newDict := by
  have hall : s.receiveEntries host (s.elementFrames + 1) (t.map fun p => (.text p.1, .value p.2)) =
      t.mapM (fun p => do return (p.1, ← s.copyValue (s.elementFrames + 1) p.2)) := by
    induction t with
    | nil =>
      rw [List.mapM_nil]
      rfl
    | cons p t ih =>
      simp only [List.map_cons, Site.receiveEntries, Site.receiveInside, ih, List.mapM_cons,
        bind_assoc, pure_bind]
  rw [← hall]
  rfl

theorem receive_items (s : Site) (host : Option (Nat × Host)) (r : ArrayRef) (m : Machine) :
    s.receive host (listProduct (m.heap.items r)) m =
      s.copyValue s.frames (.array r) m := by
  rw [receive_listProduct_eq]
  rfl

theorem receive_dict (s : Site) (host : Option (Nat × Host)) (r : DictRef) (m : Machine) :
    s.receive host (tableProduct (m.heap.dict r)) m =
      s.copyValue s.frames (.dict r) m := by
  rw [receive_tableProduct_eq]
  rfl

/-- **The call makes a copy of its argument.** -/
theorem CopiesWhole.call {f : NativeFunction} {v : Value} (hf : CopiesWhole f.operation v)
    (hadmits : f.arity.admits 1 = true) (hnames : m.heap.DistinctNames) :
    callNative s f [v] m = s.copyValue s.frames v m := by
  have hcall {p : Product} (hrun : f.operation.run s [v] m = (.ok p, m)) :
      callNative s f [v] m = s.receive (f.operation.host? m) p m := callNative_of_ok hadmits hrun
  generalize f.operation = op at hf hcall
  cases hf with
  | arrayClone r => rw [hcall rfl, receive_items]
  | arraySlice r =>
    have hwhole : Number.sliceList (m.heap.items r)
        (Number.sliceBounds (m.heap.items r).length none none) = m.heap.items r := by
      simp [Number.sliceList, Number.sliceBounds, Number.sliceBound]
    have hrun : Operation.run s [.array r] (.array .slice) m =
        (.ok (listProduct (m.heap.items r)), m) := by
      conv_rhs => rw [← hwhole]
      rfl
    rw [hcall hrun, receive_items]
  | dictClone r => rw [hcall rfl, receive_dict]
  | dictMerge r =>
    have hrun : Operation.run s [.dict r] (.dict .merge) m =
        (.ok (tableProduct (m.heap.dict r)), m) := by
      have hwhole : Table.setAll [] (m.heap.dict r) = m.heap.dict r := Table.setAll_of_nodup (hnames r)
      conv_rhs => rw [← hwhole]
      rfl
    rw [hcall hrun, receive_dict]

end

/-! ### What is in a copy -/

section

variable {C : Value → Prop} {h h' : Heap} {u v w : Value}

/-- What is unchanged has the parts that it had. -/
theorem Heap.ChangesOnly.parts (hc : h.ChangesOnly C h') (hw : h.Allocated w) (hno : ¬C w) :
    w.parts h' = w.parts h := by
  cases w with
  | array r => exact hc.items r hw hno
  | dict r => exact congrArg Table.entries (hc.dict r hw hno)
  | absent | null | bool | number | string | function => rfl

/-- What is in a value that was there before was there before. -/
theorem allocated_of_within (hh : h.WellFormed) (hadds : h.Adds h') (hw : Value.Within h' w u)
    (hu : h.Allocated u) : h.Allocated w := by
  refine hw.of_parts (fun v hv x hx => ?_) hu
  have hparts : v.parts h' = v.parts h := (Heap.ChangesOnly.of_adds (C := fun _ => False) hadds).parts hv id
  rw [hparts] at hx
  exact Value.allocated_parts hh hv x hx

/-- The parts of a copy are copies of the parts. -/
theorem Copied.parts (hc : Copied h h' v w) : List.Forall₂ (Copied h h') (v.parts h) (w.parts h') := by
  cases hc with
  | same hv =>
    rw [Value.parts_scalar h hv, Value.parts_scalar h' hv]
    exact .nil
  | array _ _ hlength hitems => exact List.forall₂_iff_zip.mpr ⟨hlength, fun hp => hitems _ hp⟩
  | dict _ _ hnames hvalues =>
    have hlength := congrArg List.length hnames
    rw [Table.names, Table.names, List.length_map, List.length_map] at hlength
    refine List.forall₂_map_left_iff.mpr (List.forall₂_map_right_iff.mpr ?_)
    exact List.forall₂_iff_zip.mpr ⟨hlength, fun hp => hvalues _ hp⟩

/-- **The arrays and dicts in a copy are new.** -/
theorem Copied.new_within (hc : Copied h h' v u) (hw : Value.Within h' w u)
    (hagg : w.isAggregate = true) : ¬h.Allocated w ∧ h'.Allocated w := by
  obtain ⟨x, hx⟩ : ∃ x, Copied h h' x w := by
    refine hw.of_parts (P := fun y => ∃ x, Copied h h' x y) (fun y hy z hz => ?_) ⟨v, hc⟩
    obtain ⟨x, hx⟩ := hy
    obtain ⟨x', -, hx'⟩ := (forall₂_exists hx.parts).2 z hz
    exact ⟨x', hx'⟩
  cases hx with
  | same hscalar =>
    rw [hscalar] at hagg
    cases hagg
  | array hfresh hnew => exact ⟨Nat.not_lt_of_le hfresh, hnew⟩
  | dict hfresh hnew => exact ⟨Nat.not_lt_of_le hfresh, hnew⟩

/-- **A value of which nothing has changed is as it was.** -/
theorem StructEq.of_changesOnly (hc : h.ChangesOnly C h')
    (hno : ∀ w, w.isAggregate = true → Value.Within h w v → h.Allocated w ∧ ¬C w) :
    StructEq h h' v v := by
  refine ⟨fun x y => x = y ∧ Value.Within h x v, ?_, rfl, .self⟩
  rintro x _ ⟨rfl, hx⟩
  cases x with
  | array r =>
    obtain ⟨hr, hnot⟩ := hno _ rfl hx
    refine .array ?_
    rw [hc.items r hr hnot]
    exact List.forall₂_same.mpr fun y hy => ⟨rfl, (Value.Within.item hy .self).trans hx⟩
  | dict r =>
    obtain ⟨hr, hnot⟩ := hno _ rfl hx
    refine .dict ?_
    rw [hc.dict r hr hnot]
    exact List.forall₂_same.mpr fun p hp => ⟨rfl, rfl, (Value.Within.entry hp .self).trans hx⟩
  | absent | null | bool | number | string | function => exact .same rfl

end

/-! ### Independence -/

/-- A copy `b` of a value `v` of a heap, on the machine on which it was handed back. -/
structure IndependentCopy (h : Heap) (v b : Value) (m : Machine) : Prop where
  /-- What was there before is as it was. -/
  adds : h.Adds m.heap
  /-- The same scalars and functions are in the same places at every depth. -/
  equal : StructEq h m.heap v b
  /-- No array or dict in the copy is in anything that was there before. -/
  apart : ∀ w u, w.isAggregate = true → Value.Within m.heap w b → h.Allocated u →
    ¬Value.Within m.heap w u
  /-- Mutating the copy, what is in it or what is newer changes nothing that was there
  before. -/
  original : ∀ m', Mutations (fun t => Value.Within m.heap t b ∨ ¬h.Allocated t) m m' →
    h.ChangesOnly (fun _ => False) m'.heap ∧ StructEq h m'.heap v v
  /-- Mutating what is not in the copy leaves it as it is. -/
  copy : ∀ m', Mutations (fun t => ¬Value.Within m.heap t b) m m' → StructEq h m'.heap v b

/-- A copy is independent of what was copied. -/
theorem Copied.independent {h : Heap} {v b : Value} {m : Machine} (hh : h.WellFormed)
    (hv : h.Allocated v) (hadds : h.Adds m.heap) (hc : Copied h m.heap v b) :
    IndependentCopy h v b m where
  adds := hadds
  equal := hc.structEq
  apart w u hagg hw hu hwu :=
    (hc.new_within hw hagg).1 (allocated_of_within hh hadds hwu hu)
  original m' hmutations := by
    have hchanges := (Heap.ChangesOnly.of_adds hadds).trans hmutations.changesOnly
    have hnothing : h.ChangesOnly (fun _ => False) m'.heap := by
      refine hchanges.imp fun w hagg hw hchanged => ?_
      rcases hchanged with hwithin | hnew
      · exact (hc.new_within hwithin hagg).1 hw
      · exact hnew hw
    refine ⟨hnothing, .of_changesOnly hnothing fun w _ hw => ⟨?_, id⟩⟩
    exact hw.of_parts (fun _ => Value.allocated_parts hh) hv
  copy m' hmutations := by
    refine hc.structEq.trans (.of_changesOnly hmutations.changesOnly fun w hagg hw => ?_)
    exact ⟨(hc.new_within hw hagg).2, not_not_intro hw⟩

/-- A call of a native that copies an array or a dict whole, and the argument has no
cycle. -/
structure CopyReady (f : NativeFunction) (h : Heap) (v : Value) : Prop where
  operation : CopiesWhole f.operation v
  arity : f.arity.admits 1 = true
  heap : h.WellFormed
  present : h.Present
  names : h.DistinctNames
  allocated : h.Allocated v
  acyclic : v.Acyclic h

/-- **Copies are independent.** Take an array or a dict that has no cycle. Some number of
frames is enough to copy it. If the host has that many, `Array.clone`, `Array.slice`,
`Dict.clone` or `Dict.merge` of it hands back a copy that is independent of it: the copy
is equal in structure, shares no array or dict with what was there before, and nothing
that mutating natives do to the one is seen in the other. If the host has fewer, the call
is exhausted and changes nothing that was there. -/
theorem copies_are_independent (s : Site) (f : NativeFunction) (v : Value) (m : Machine)
    (hready : CopyReady f m.heap v) :
    (∃ frames, v.copiable m.heap frames = true) ∧
    (v.copiable m.heap s.frames = true → ∃ b m₁, callNative s f [v] m = (.ok b, m₁)) ∧
    (v.copiable m.heap s.frames = false →
      ∃ m₁, callNative s f [v] m = (.error (.exhausted none), m₁) ∧ m.heap.Adds m₁.heap) ∧
    ∀ b m₁, callNative s f [v] m = (.ok b, m₁) → IndependentCopy m.heap v b m₁ := by
  obtain ⟨frames, hframes⟩ := hready.acyclic.exists_copiable hready.heap hready.present
    hready.allocated hready.operation.ne_absent
  rw [hready.operation.call hready.arity hready.names]
  have hcopying := copyValue_copying hready.heap s s.frames (.refl m.heap) hready.allocated
  unfold Copying at hcopying
  split at hcopying
  · rename_i hcopiable
    obtain ⟨b, h, hrun, hadds, hcopied⟩ := hcopying
    rw [hrun, hcopiable]
    refine ⟨⟨frames, hframes⟩, fun _ => ⟨b, _, rfl⟩, by rintro ⟨⟩, fun b' m₁ hcall => ?_⟩
    cases hcall
    exact hcopied.independent hready.heap hready.allocated hadds
  · rename_i hdeep
    obtain ⟨stop, m₁, hrun⟩ := hcopying
    obtain ⟨h, hm₁, hadds⟩ := (copyValue_adding s s.frames v).adds m
    have hstop : stop = .exhausted none :=
      copyValue_exhausts hready.heap s _ frames hready.allocated hframes m (.refl m.heap) stop
        (congrArg Prod.fst hrun)
    rw [hrun] at hm₁ ⊢
    subst hm₁ hstop
    refine ⟨⟨frames, hframes⟩, fun hcopiable => absurd hcopiable hdeep, fun _ => ⟨_, rfl, hadds⟩, ?_⟩
    rintro b m₁ ⟨⟩

/-- A clone of `[[null], [null], true]`, where both places hold one array. What is pushed
to that array later is not in the clone. -/
theorem copies_are_independent_shared :
    let s : Site := ⟨Engine.exhausted, ⟨⟨0⟩, "", ⟨none, "", false, .usual⟩⟩, ⟨some 1, some 1, 0⟩⟩
    let m : Machine := .ofArrays [[.array ⟨1⟩, .array ⟨1⟩, .bool true], [.null]]
    ∃ b m₁, callNative s ArrayOp.clone.native [.array ⟨0⟩] m = (.ok b, m₁) ∧
      IndependentCopy m.heap (.array ⟨0⟩) b m₁ ∧
      StructEq m.heap (callNative s ArrayOp.push.native [.array ⟨1⟩, .null] m₁).2.heap (.array ⟨0⟩) b := by
  intro s m
  have hitems : ∀ xs ∈ [[Value.array ⟨1⟩, .array ⟨1⟩, .bool true], [.null]],
      ∀ v ∈ xs, m.heap.Allocated v ∧ v ≠ .absent := by
    simp only [List.mem_cons, List.not_mem_nil, or_false]
    rintro xs (rfl | rfl) v hv
    · simp only [List.mem_cons, List.not_mem_nil, or_false] at hv
      rcases hv with rfl | rfl | rfl
      · exact ⟨(by decide : 1 < 2), by simp⟩
      · exact ⟨(by decide : 1 < 2), by simp⟩
      · exact ⟨trivial, by simp⟩
    · rw [List.mem_singleton.mp hv]
      exact ⟨trivial, by simp⟩
  have hready : CopyReady ArrayOp.clone.native m.heap (.array ⟨0⟩) := {
    operation := .arrayClone ⟨0⟩
    arity := rfl
    heap := Heap.ofArrays_wellFormed fun xs hxs v hv => (hitems xs hxs v hv).1
    present := Heap.ofArrays_present fun xs hxs v hv => (hitems xs hxs v hv).2
    names := fun _ => List.nodup_nil
    allocated := (by decide : 0 < 2)
    acyclic := Value.acyclic_of_copiable (d := 5) rfl }
  obtain ⟨-, hreturns, -, hindependent⟩ :=
    copies_are_independent s ArrayOp.clone.native (.array ⟨0⟩) m hready
  obtain ⟨b, m₁, hcall⟩ := hreturns rfl
  have hcopy := hindependent b m₁ hcall
  have houtside : ¬Value.Within m₁.heap (.array ⟨1⟩) b := fun hwithin =>
    hcopy.apart (.array ⟨1⟩) (.array ⟨1⟩) rfl hwithin (by decide : 1 < 2) .self
  have hharmless {T : Value → Prop} : Harmless T s (.array ⟨1⟩) [.null] m₁ := by rintro r g - ⟨⟩
  exact ⟨b, m₁, hcall, hcopy, hcopy.copy _ (.call rfl houtside hharmless (.none _))⟩

/-- There is no cycle in three thousand arrays inside another, one in the other, but
there is no clone. -/
theorem deep_arrays_are_not_cloned :
    let s : Site := ⟨Engine.exhausted, ⟨⟨0⟩, "", ⟨none, "", false, .usual⟩⟩, ⟨some 1, some 1, 0⟩⟩
    let m : Machine := { Machine.initial with heap := nestedArrays 3000 }
    m.heap.WellFormed ∧ m.heap.Allocated (.array ⟨3000⟩) ∧ (Value.array ⟨3000⟩).Acyclic m.heap ∧
      callNative s ArrayOp.clone.native [.array ⟨3000⟩] m = (.error (.exhausted none), m) := by
  intro s m
  have harrays : m.heap.arrays = (nestedArrays 3000).arrays := rfl
  have hallocated : m.heap.Allocated (.array ⟨3000⟩) := by
    show 3000 < (nestedArrays 3000).arrays.size
    simp [nestedArrays]
  have hends := nestedArrays_copiable harrays (Nat.le_refl 3000)
  have hwhole : CopiesWhole ArrayOp.clone.native.operation (.array ⟨3000⟩) := .arrayClone ⟨3000⟩
  refine ⟨nestedArrays_wellFormed 3000, hallocated, Value.acyclic_of_copiable hends, ?_⟩
  have hnames : m.heap.DistinctNames := fun _ => List.nodup_nil
  rw [hwhole.call rfl hnames]
  exact copyValue_nestedArrays s harrays (by decide) (Nat.le_refl 3000)

end RuleScript
