/-
# Arrays handed back

An operation that yields values in a row gives its caller a new array. The
values are copied into it at every depth, one after another, and what was there
before does not change (`HandsArray`). There is no array if the host has not frames
enough for one of them, with two frames taken by the array itself. A heap that holds
no mark of a missing value gives no other reason, and neither do values that are not
cyclic.

Key definitions: `Site.elementFrames`, `ArrayOfCopies`, `HandsArray`, `HandsStrings`, `Heap.ofArrays`.
Key theorems: `receive_listProduct`, `receive_listProduct_exhausts`,
`receive_handsArray`, `HandsArray.exists_copies`, `HandsArray.exhausts`,
`receive_wellFormed`, `receive_handsStrings`.
-/
import RuleScript.Library.Array
import RuleScript.Proofs.Values.Copy
import RuleScript.Proofs.Values.Presence

namespace RuleScript

/-- How many frames are left for an element of an array that is handed back. -/
def Site.elementFrames (s : Site) : Nat := s.ctx.settings.room.spare + 1

section

variable {s : Site} {h₀ : Heap} {m : Machine} {vs : List Value}

/-- A list of values becomes an array of copies. -/
theorem receive_listProduct_eq (s : Site) (host : Option (Nat × Host)) (vs : List Value) :
    s.receive host (listProduct vs) =
      vs.mapM (s.copyValue s.elementFrames) >>= Eval.newArray := by
  have hall : s.receiveAll host s.elementFrames (vs.map .value) =
      vs.mapM (s.copyValue s.elementFrames) := by
    induction vs with
    | nil =>
      rw [List.mapM_nil]
      rfl
    | cons v vs ih =>
      simp only [List.map_cons, Site.receiveAll, Site.receiveInside, ih, List.mapM_cons]
  rw [← hall]
  rfl

/-- A new array in a heap that was added to that of a machine, with copies of some
values in it. -/
structure ArrayOfCopies (h₀ : Heap) (vs : List Value) (m : Machine) (h : Heap) (a : ArrayRef) :
    Prop where
  adds : m.heap.Adds h
  fresh : m.heap.arrays.size ≤ a.index
  there : a.index < h.arrays.size
  copied : List.Forall₂ (Copied h₀ h) vs (h.items a)

/-- What is added later leaves the copies as they are. -/
theorem ArrayOfCopies.mono {h h' : Heap} {a : ArrayRef} (hc : ArrayOfCopies h₀ vs m h a)
    (hadds : h.Adds h') : ArrayOfCopies h₀ vs m h' a where
  adds := hc.adds.trans hadds
  fresh := hc.fresh
  there := Nat.lt_of_lt_of_le hc.there hadds.arrays
  copied := by
    rw [hadds.items a hc.there]
    exact hc.copied.imp fun _ _ hcopied => hcopied.mono hadds

/-- It becomes one if all of them can be copied. They may be of an earlier heap that
was only added to. -/
theorem receive_listProduct (host : Option (Nat × Host)) (hh : h₀.WellFormed) (hm : h₀.Adds m.heap)
    (hvs : ∀ v ∈ vs, h₀.Allocated v) :
    Copying (vs.all (Value.copiable h₀ s.elementFrames))
      (fun h w => ∃ a, w = .array a ∧ ArrayOfCopies h₀ vs m h a) m
      (s.receive host (listProduct vs)) := by
  rw [receive_listProduct_eq]
  have hcopies : Copying (vs.all (Value.copiable h₀ s.elementFrames))
      (fun h ws => List.Forall₂ (Copied h₀ h) vs ws) m
      (vs.mapM (s.copyValue s.elementFrames)) :=
    .mapM (fun _ _ _ _ hc => hc.mono) hm fun v hv m' hm' =>
      copyValue_copying hh s _ hm' (hvs v hv)
  refine hcopies.then_allocate fun ws h hadds hws => .newArray ⟨(h.newArray ws).1, rfl,
    hadds.trans (.newArray h ws), hadds.arrays, h.newArray_lt ws, ?_⟩
  have hitems : (h.newArray ws).2.items (h.newArray ws).1 = ws := by
    rw [Heap.items_newArray]
    exact if_pos rfl
  rw [hitems]
  exact hws.imp fun _ _ hc => hc.mono (.newArray h ws)

/-- Values that meet no mark of a missing value are refused only for want of
frames. -/
theorem receive_listProduct_exhausts (host : Option (Nat × Host)) {P : Value → Prop}
    (hP : h₀.PassesDown P) (hallocated : ∀ v, P v → h₀.Allocated v) (hpresent : ¬P .absent)
    (hvs : ∀ v ∈ vs, P v) : Eval.Exhausts h₀ (s.receive host (listProduct vs)) := by
  rw [receive_listProduct_eq]
  exact .bind (.mapM fun v hv => copyValue_exhausts_of hP hallocated hpresent s _ (hvs v hv))
    fun _ _ _ _ h => by cases h

/-- Nothing in a heap without marks of missing values is one. -/
theorem Heap.Present.passesDown (hh : h₀.WellFormed) (hpresent : h₀.Present) :
    h₀.PassesDown fun v => h₀.Allocated v ∧ v ≠ .absent where
  items r _ v hv := ⟨hh.items r v hv, hpresent.items r v hv⟩
  dict r _ p hp := ⟨hh.dict r p hp, hpresent.dict r p hp⟩

end

/-- Values that are refused only for want of frames: there is no mark of a missing
value among them and in the heap, or some number of frames is enough for each. -/
inductive Presentable (h : Heap) (vs : List Value) : Prop
  | present (hheap : h.Present) (hvalues : ∀ v ∈ vs, v ≠ .absent)
  | ends (hends : ∀ v ∈ vs, ∃ deep, v.copiable h deep = true)

/-- What a caller gets for some values of a heap: a new array with copies of them if
so many frames are enough for each, and nothing if not. -/
inductive HandsArray (frames : Nat) (h₀ : Heap) (vs : List Value) (m : Machine) :
    Except Stop Value × Machine → Prop
  | copies (henough : ∀ v ∈ vs, v.copiable h₀ frames = true) {a : ArrayRef} {h : Heap}
    (hcopies : ArrayOfCopies h₀ vs m h a) :
    HandsArray frames h₀ vs m (.ok (.array a), { m with heap := h })
  | tooDeep (hdeep : ∃ v ∈ vs, v.copiable h₀ frames = false) {stop : Stop} {h : Heap}
    (hadds : m.heap.Adds h) (hstop : Presentable h₀ vs → stop = .exhausted none) :
    HandsArray frames h₀ vs m (.error stop, { m with heap := h })

/-- What a caller gets for strings: a new array of them. -/
def HandsStrings (ts : List String) (m : Machine) (r : Except Stop Value × Machine) : Prop :=
  ∃ a h, r = (.ok (.array a), { m with heap := h }) ∧ m.heap.Adds h ∧
    m.heap.arrays.size ≤ a.index ∧ h.items a = ts.map .string

/-- Strings are handed back as they are. -/
theorem receive_handsStrings (s : Site) (host : Option (Nat × Host)) (ts : List String) (m : Machine) :
    HandsStrings ts m (s.receive host (listProduct (ts.map .string)) m) := by
  have hcopies : (ts.map .string).mapM (s.copyValue s.elementFrames) =
      (pure (ts.map .string) : Eval (List Value)) := by
    induction ts with
    | nil => rw [List.map_nil, List.mapM_nil]
    | cons t ts ih =>
      rw [List.map_cons, List.mapM_cons, ih]
      rfl
  rw [receive_listProduct_eq, hcopies, pure_bind]
  refine ⟨_, _, rfl, .newArray m.heap (ts.map .string), Nat.le_refl _, ?_⟩
  rw [Heap.items_newArray]
  exact if_pos rfl

section

variable {frames : Nat} {h₀ : Heap} {vs : List Value} {m : Machine}
  {r : Except Stop Value × Machine}

/-- **Values in a row are handed back in a new array.** -/
theorem receive_handsArray (s : Site) (host : Option (Nat × Host)) (hh : h₀.WellFormed)
    (hm : h₀.Adds m.heap) (hvs : ∀ v ∈ vs, h₀.Allocated v) :
    HandsArray s.elementFrames h₀ vs m (s.receive host (listProduct vs) m) := by
  have hcopying := receive_listProduct (s := s) host hh hm hvs
  unfold Copying at hcopying
  split at hcopying
  · rename_i henough
    obtain ⟨w, h, hrun, -, a, rfl, hcopies⟩ := hcopying
    rw [hrun]
    exact .copies (List.all_eq_true.mp henough) hcopies
  · rename_i hdeep
    have hadding : Eval.Adding (s.receive host (listProduct vs)) := by
      rw [receive_listProduct_eq]
      infer_instance
    obtain ⟨stop, m', hrun⟩ := hcopying
    obtain ⟨h, hm', hadds⟩ := hadding.adds m
    rw [hrun] at hm'
    obtain rfl : m' = { m with heap := h } := hm'
    rw [hrun]
    refine .tooDeep (by simpa using hdeep) hadds fun hpresentable => ?_
    have hexhausts : Eval.Exhausts h₀ (s.receive host (listProduct vs)) := by
      cases hpresentable with
      | present hheap hvalues =>
        exact receive_listProduct_exhausts host (hheap.passesDown hh) (fun _ h => h.1)
          (fun h => h.2 rfl) fun v hv => ⟨hvs v hv, hvalues v hv⟩
      | ends hends =>
        refine receive_listProduct_exhausts host (passesDown_copiable hh) (fun _ h => h.1) ?_
          fun v hv => ⟨hvs v hv, hends v hv⟩
        rintro ⟨-, _ | deep, hdeep⟩ <;> cases hdeep
    exact hexhausts m hm stop (by rw [hrun])

/-- Handing values back leaves the heap well-formed. -/
theorem receive_wellFormed (s : Site) (host : Option (Nat × Host)) (hm : m.heap.WellFormed)
    (hhosts : ∀ o ∈ m.hosts, o.Honest) (hvs : ∀ v ∈ vs, m.heap.Allocated v) :
    (s.receive host (listProduct vs) m).2.heap.WellFormed := by
  have hholds : Policy.allocation.Holds m :=
    ⟨Policy.allocation_admits.mpr hm, fun o ho => (hhosts o ho).allocation⟩
  have hproduct : Policy.allocation.product m.heap (listProduct vs) := by
    refine .sequence fun p hp => ?_
    obtain ⟨v, hv, rfl⟩ := List.mem_map.mp hp
    exact .value (.inr (hvs v hv))
  obtain ⟨-, hends⟩ := s.receive_does host hproduct hholds
  exact Policy.allocation_admits.mp hends.holds.heap

/-- Values that there are frames enough for are handed back. -/
theorem HandsArray.exists_copies (h : HandsArray frames h₀ vs m r)
    (hvs : ∀ v ∈ vs, v.copiable h₀ frames = true) :
    ∃ a h, r = (.ok (.array a), { m with heap := h }) ∧ ArrayOfCopies h₀ vs m h a := by
  cases h with
  | copies _ hcopies => exact ⟨_, _, rfl, hcopies⟩
  | tooDeep hdeep =>
    obtain ⟨v, hv, hdeep⟩ := hdeep
    rw [hvs v hv] at hdeep
    cases hdeep

/-- The call is exhausted if the host has not frames enough for one of the values. -/
theorem HandsArray.exhausts (h : HandsArray frames h₀ vs m r) (hvs : Presentable h₀ vs)
    (hdeep : ∃ v ∈ vs, v.copiable h₀ frames = false) :
    ∃ h, r = (.error (.exhausted none), { m with heap := h }) ∧ m.heap.Adds h := by
  cases h with
  | copies henough =>
    obtain ⟨v, hv, hdeep⟩ := hdeep
    rw [henough v hv] at hdeep
    cases hdeep
  | tooDeep _ hadds hstop => exact ⟨_, by rw [hstop hvs], hadds⟩

end

/-! ### Heaps of arrays -/

/-- A heap with one scope and the arrays with these elements. -/
def Heap.ofArrays (cells : List (List Value)) : Heap where
  scopes := #[⟨[], none⟩]
  arrays := (cells.map fun xs => ⟨xs, 0⟩).toArray
  dicts := #[]
  functions := #[]

theorem Heap.items_ofArrays (cells : List (List Value)) (r : ArrayRef) :
    (ofArrays cells).items r = cells.getD r.index [] := by
  unfold ofArrays items arrayCell
  simp only [Array.getD_eq_getD_getElem?, List.getElem?_toArray, List.getElem?_map,
    List.getD_eq_getElem?_getD]
  cases cells[r.index]? <;> rfl

theorem Heap.mem_items_ofArrays {cells : List (List Value)} {r : ArrayRef} {v : Value}
    (hv : v ∈ (ofArrays cells).items r) : ∃ xs ∈ cells, v ∈ xs := by
  rw [items_ofArrays, List.getD_eq_getElem?_getD] at hv
  cases hcell : cells[r.index]? with
  | none =>
    rw [hcell] at hv
    cases hv
  | some xs =>
    rw [hcell] at hv
    exact ⟨xs, List.mem_of_getElem? hcell, hv⟩

theorem Heap.ofArrays_wellFormed {cells : List (List Value)}
    (h : ∀ xs ∈ cells, ∀ v ∈ xs, (ofArrays cells).Allocated v) : (ofArrays cells).WellFormed where
  items r v hv := by
    obtain ⟨xs, hxs, hv⟩ := mem_items_ofArrays hv
    exact h xs hxs v hv
  dict := by rintro r p ⟨⟩
  bindings := by rintro ⟨_ | i⟩ p ⟨⟩
  functions := by rintro r f ⟨⟩
  inside := by rintro ⟨_ | i⟩ p ⟨⟩

theorem Heap.ofArrays_present {cells : List (List Value)} (h : ∀ xs ∈ cells, ∀ v ∈ xs, v ≠ .absent) :
    (ofArrays cells).Present where
  bindings := by rintro ⟨_ | i⟩ p ⟨⟩
  items r v hv := by
    obtain ⟨xs, hxs, hv⟩ := mem_items_ofArrays hv
    exact h xs hxs v hv
  dict := by rintro r p ⟨⟩
  bodies := by rintro r f ⟨⟩

/-- A machine with these arrays. -/
def Machine.ofArrays (cells : List (List Value)) : Machine :=
  { Machine.initial with heap := .ofArrays cells }

end RuleScript
