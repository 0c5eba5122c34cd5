/-
# Flattening

To flatten some values by a number of levels is to put the elements of each array
among them in its place, these flattened by one level less (`Flattens`). With
infinitely many levels only the leaves are left (`Leaves`). To flatten twice is to
flatten once by as many levels as in both (`Flattens.trans`).

`Array.flat` counts the levels with a number: it takes one off for each level and
goes on while there is at least one. So a number counts as its wholes. It need not
be counted exactly if there are more levels than the host has frames
(`Counts.step`); a host has fewer frames than there are integers that a double holds
(`Site.CountsFrames`).

Key definitions: `Flattens`, `Leaves`, `Levels`, `FlatReady`, `HandsFlat`.
Key theorems: `Flattens.unique`, `Flattens.trans`, `Flattens.leaves`,
`Flattens.structEq`, `flatten_cases`, `FlatReady.handsFlat`, `flattening_composes`.
-/
import RuleScript.Proofs.Library.Failure
import RuleScript.Proofs.Number.Truncation
import RuleScript.Proofs.Values.Delivery
import RuleScript.Proofs.Values.Equality
import RuleScript.Proofs.Values.Results

namespace RuleScript

open Number

/-! ### Levels of arrays -/

/-- An array. -/
def Value.isArray : Value → Bool
  | .array _ => true
  | .absent | .null | .bool _ | .number _ | .string _ | .dict _ | .function _ => false

/-- Values with so many levels of arrays among them replaced by their elements. -/
inductive Flattens (h : Heap) : ℕ∞ → List Value → List Value → Prop
  | nil {k : ℕ∞} : Flattens h k [] []
  | keep {k : ℕ∞} {v : Value} {vs ws : List Value} (hv : k = 0 ∨ v.isArray = false)
    (hrest : Flattens h k vs ws) : Flattens h k (v :: vs) (v :: ws)
  | splice {j k : ℕ∞} {r : ArrayRef} {vs us ws : List Value} (hk : k = j + 1)
    (hinside : Flattens h j (h.items r) us) (hrest : Flattens h k vs ws) :
    Flattens h k (.array r :: vs) (us ++ ws)

/-- The leaves of some values: what is no array, from left to right. -/
inductive Leaves (h : Heap) : List Value → List Value → Prop
  | nil : Leaves h [] []
  | leaf {v : Value} {vs ws : List Value} (hv : v.isArray = false) (hrest : Leaves h vs ws) :
    Leaves h (v :: vs) (v :: ws)
  | inside {r : ArrayRef} {vs us ws : List Value} (hinside : Leaves h (h.items r) us)
    (hrest : Leaves h vs ws) : Leaves h (.array r :: vs) (us ++ ws)

/-- No leaf is an array. -/
theorem Leaves.isArray {h : Heap} {xs ys : List Value} (hl : Leaves h xs ys) :
    ∀ v ∈ ys, v.isArray = false := by
  induction hl with
  | nil => exact List.forall_mem_nil _
  | leaf hv _ ih => exact List.forall_mem_cons.mpr ⟨hv, ih⟩
  | inside _ _ ihinside ih => exact List.forall_mem_append.mpr ⟨ihinside, ih⟩

theorem Leaves.copies_isArray {h h' : Heap} {xs ys zs : List Value} (hl : Leaves h xs ys)
    (hcopied : List.Forall₂ (Copied h h') ys zs) : ∀ v ∈ zs, v.isArray = false := by
  have hys := hl.isArray
  clear hl
  induction hcopied with
  | nil => exact List.forall_mem_nil _
  | cons hc _ ih =>
    obtain ⟨hv, hrest⟩ := List.forall_mem_cons.mp hys
    refine List.forall_mem_cons.mpr ⟨?_, ih hrest⟩
    cases hc with
    | same => exact hv
    | array => cases hv
    | dict => rfl

namespace Flattens

variable {h h' : Heap} {j k : ℕ∞} {xs ys zs us ws : List Value}

theorem refl (h : Heap) (xs : List Value) : Flattens h 0 xs xs := by
  induction xs with
  | nil => exact .nil
  | cons x xs ih => exact .keep (.inl rfl) ih

/-- **There is one way to flatten values.** -/
theorem unique (hf : Flattens h k xs ys) (hf' : Flattens h k xs zs) : ys = zs := by
  induction hf generalizing zs with
  | nil =>
    cases hf'
    rfl
  | keep hv _ ih =>
    cases hf' with
    | keep _ hrest => rw [ih hrest]
    | splice hk =>
      rcases hv with rfl | hv
      · exact absurd hk.symm (by simp)
      · cases hv
  | splice hk _ _ ihinside ih =>
    cases hf' with
    | keep hv =>
      rcases hv with rfl | hv
      · exact absurd hk.symm (by simp)
      · cases hv
    | splice hk' hinside' hrest' =>
      obtain rfl := WithTop.add_right_cancel ENat.one_ne_top (hk.symm.trans hk')
      rw [ihinside hinside', ih hrest']

/-- Values in two parts are flattened part by part. -/
theorem split (hf : Flattens h k (xs ++ ys) zs) :
    ∃ us ws, zs = us ++ ws ∧ Flattens h k xs us ∧ Flattens h k ys ws := by
  induction xs generalizing zs with
  | nil => exact ⟨[], zs, rfl, .nil, hf⟩
  | cons x xs ih =>
    cases hf with
    | keep hv hrest =>
      obtain ⟨us, ws, rfl, hxs, hys⟩ := ih hrest
      exact ⟨x :: us, ws, rfl, .keep hv hxs, hys⟩
    | @splice _ _ _ _ vs _ hk hinside hrest =>
      obtain ⟨us, ws, rfl, hxs, hys⟩ := ih hrest
      exact ⟨vs ++ us, ws, (List.append_assoc ..).symm, .splice hk hinside hxs, hys⟩

/-- **To flatten twice is to flatten once by the levels of both.** -/
theorem trans (hf : Flattens h j xs ys) (hf' : Flattens h k ys zs) : Flattens h (j + k) xs zs := by
  induction hf generalizing zs with
  | nil =>
    cases hf'
    exact .nil
  | keep hv _ ih =>
    cases hf' with
    | keep hv' hrest =>
      refine .keep ?_ (ih hrest)
      rcases hv with rfl | hv
      · rwa [zero_add]
      · exact .inr hv
    | splice hk hinside hrest =>
      -- An array was kept, so the first time there was no level.
      rcases hv with rfl | hv
      · exact .splice (by rw [zero_add, hk]) hinside (ih hrest)
      · cases hv
  | splice hj _ _ ihinside ih =>
    obtain ⟨us, ws, rfl, hinside, hrest⟩ := hf'.split
    refine .splice ?_ (ihinside hinside) (ih hrest)
    rw [hj, add_right_comm]

/-- **With infinitely many levels the leaves are left.** -/
theorem leaves (hf : Flattens h ⊤ xs ys) : Leaves h xs ys := by
  generalize htop : (⊤ : ℕ∞) = k at hf
  induction hf with
  | nil => exact .nil
  | keep hv _ ih =>
    refine .leaf (hv.resolve_left ?_) (ih htop)
    rintro rfl
    exact absurd htop ENat.top_ne_zero
  | @splice j _ _ _ _ _ hk _ _ ihinside ih =>
    have hj : j = ⊤ := by
      by_contra hfinite
      have hbelow : j + 1 < ⊤ := WithTop.add_lt_top.mpr ⟨lt_top_iff_ne_top.mpr hfinite, ENat.one_lt_top⟩
      rw [← hk, ← htop] at hbelow
      exact lt_irrefl _ hbelow
    exact .inside (ihinside hj.symm) (ih htop)

/-- What passes from arrays to their elements is true of all that is left. -/
theorem forall_mem {P : Value → Prop} (hP : ∀ r, P (.array r) → ∀ v ∈ h.items r, P v)
    (hf : Flattens h k xs ys) (hxs : ∀ v ∈ xs, P v) : ∀ v ∈ ys, P v := by
  induction hf with
  | nil => exact hxs
  | keep _ _ ih =>
    obtain ⟨hv, hrest⟩ := List.forall_mem_cons.mp hxs
    exact List.forall_mem_cons.mpr ⟨hv, ih hrest⟩
  | splice _ _ _ ihinside ih =>
    obtain ⟨hr, hrest⟩ := List.forall_mem_cons.mp hxs
    exact List.forall_mem_append.mpr ⟨ihinside (hP _ hr), ih hrest⟩

/-- **Values that are equal in structure are flattened alike.** -/
theorem structEq (hf : Flattens h k xs ys) (hxs : List.Forall₂ (StructEq h h') xs us) :
    ∃ ws, Flattens h' k us ws ∧ List.Forall₂ (StructEq h h') ys ws := by
  induction hf generalizing us with
  | nil =>
    cases hxs
    exact ⟨[], .nil, .nil⟩
  | keep hv _ ih =>
    cases hxs with
    | @cons _ w _ _ hvw hrest =>
      obtain ⟨ws, hws, heq⟩ := ih hrest
      refine ⟨w :: ws, .keep (hv.imp_right fun hv => ?_) hws, .cons hvw heq⟩
      cases hvw.parts with
      | same => exact hv
      | array => cases hv
      | dict => rfl
  | splice hk _ _ ihinside ih =>
    cases hxs with
    | cons hrw hrest =>
      obtain ⟨ws, hws, heq⟩ := ih hrest
      cases hrw.parts with
      | same hv => cases hv
      | array hitems =>
        obtain ⟨vs, hvs, heq'⟩ := ihinside hitems
        exact ⟨vs ++ ws, .splice hk hvs hws, List.rel_append heq' heq⟩

end Flattens

/-! ### Counting the levels -/

/-- A number counts so many levels as far as some depth: it holds as many wholes,
or both are no less than the depth. -/
def Counts (depth : Nat) (level : Float) (k : ℕ∞) : Prop :=
  wholes level = k ∨ depth ≤ wholes level ∧ depth ≤ k

/-- What is counted as far as some depth is counted as far as any lesser one. -/
theorem Counts.mono {depth depth' : Nat} {level : Float} {k : ℕ∞} (hc : Counts depth level k)
    (hdepth : depth' ≤ depth) : Counts depth' level k := by
  have hle : (depth' : ℕ∞) ≤ depth := by exact_mod_cast hdepth
  exact hc.imp_right fun h => ⟨hle.trans h.1, hle.trans h.2⟩

/-- **The count goes on where there is a level, and stays a count of the levels
that are left.** -/
theorem Counts.step {depth : Nat} {level : Float} {k : ℕ∞} (hc : Counts (depth + 1) level k)
    (hdepth : depth < 2 ^ 52) :
    (1.0 ≤ level ∧ ∃ j, k = j + 1 ∧ Counts depth (level - 1.0) j) ∨ (¬1.0 ≤ level ∧ k = 0) := by
  have hcancel {a b : ℕ∞} (h : a + 1 ≤ b + 1) : a ≤ b :=
    (ENat.add_le_add_iff_right ENat.one_ne_top).mp h
  have hdeep {a : ℕ∞} (h : ((2 ^ 52 : Nat) : ℕ∞) ≤ a) : (depth : ℕ∞) ≤ a :=
    le_trans (by exact_mod_cast hdepth.le) h
  have hsucc : ((depth + 1 : Nat) : ℕ∞) = depth + 1 := by push_cast; rfl
  by_cases hlevel : 1.0 ≤ level
  · left
    have hone : 1 ≤ wholes level := (one_le_iff_wholes level).mp hlevel
    have hk : 1 ≤ k := by
      rcases hc with hc | ⟨-, hc⟩
      · rwa [← hc]
      · refine le_trans ?_ hc
        exact_mod_cast Nat.le_add_left 1 depth
    obtain ⟨j, hj⟩ := le_iff_exists_add'.mp hk
    refine ⟨hlevel, j, hj, ?_⟩
    rcases wholes_sub_one hlevel with hless | ⟨hgreat, hgreat'⟩
    · rcases hc with hc | ⟨hlow, hlow'⟩
      · left
        rw [hc, hj] at hless
        exact WithTop.add_right_cancel ENat.one_ne_top hless
      · rw [← hless, hsucc] at hlow
        rw [hj, hsucc] at hlow'
        exact .inr ⟨hcancel hlow, hcancel hlow'⟩
    · refine .inr ⟨hdeep hgreat, ?_⟩
      rcases hc with hc | ⟨-, hlow'⟩
      · rw [hc, hj] at hgreat'
        refine hcancel (le_trans ?_ hgreat')
        exact_mod_cast hdepth
      · rw [hj, hsucc] at hlow'
        exact hcancel hlow'
  · refine .inr ⟨hlevel, ?_⟩
    have hnone : wholes level = 0 := by
      by_contra hsome
      exact hlevel ((one_le_iff_wholes level).mpr (Order.one_le_iff_ne_zero.mpr hsome))
    rcases hc with hc | ⟨hlow, -⟩
    · rw [← hc, hnone]
    · rw [hnone] at hlow
      exact absurd hlow (by simp)

/-- A number that `Array.flat` takes for so many levels, as far as doubles count. -/
structure Levels (d : Float) (k : ℕ∞) : Prop where
  pos : 0.0 < d
  counts : Counts (2 ^ 52) d k

/-- A host that has no more frames than doubles count one by one. -/
def Site.CountsFrames (s : Site) : Prop := s.frames ≤ 2 ^ 52

namespace Levels

variable {x y z : Float} {j k : Nat}

theorem of_isFinite (hpos : 0.0 < x) (hx : isFinite x = true) : Levels x (⌊rank x⌋₊ : Nat) :=
  ⟨hpos, .inl (wholes_of_isFinite hx)⟩

theorem infinity : Levels infinity ⊤ :=
  ⟨by decide +kernel, .inl (wholes_of_infinite decode_infinity)⟩

theorem of_integer? (hx : integer? x = some (j : Int)) (hj : 0 < j) : Levels x j := by
  have hwholes := wholes_of_integer? hx
  refine ⟨zero_lt_of_wholes ?_, .inl hwholes⟩
  rw [hwholes]
  exact_mod_cast hj

/-- The sum of two numbers is taken for the levels of both, rounded or not. -/
theorem add (hx : integer? x = some (j : Int)) (hy : integer? y = some (k : Int)) (hj : 0 < j)
    (hk : 0 < k) (hz : z = x + y ∨ integer? z = some ((j + k : Nat) : Int)) : Levels z (j + k) := by
  rcases hz with rfl | hz
  · have hone : (1 : ℕ∞) ≤ j + k := by exact_mod_cast Nat.le_add_right_of_le hj
    rcases wholes_add hx hy hj hk with hsum | ⟨hgreat, hgreat'⟩
    · exact ⟨zero_lt_of_wholes (hsum ▸ hone), .inl hsum⟩
    · have hpos : (1 : ℕ∞) ≤ ((2 ^ 52 : Nat) : ℕ∞) := by exact_mod_cast (by decide : 1 ≤ 2 ^ 52)
      exact ⟨zero_lt_of_wholes (hpos.trans hgreat), .inr ⟨hgreat, hgreat'⟩⟩
  · have hsum := of_integer? hz (Nat.add_pos_left hj k)
    rwa [Nat.cast_add] at hsum

end Levels

section

variable {h₀ : Heap} {m : Machine} {depth : Nat} {level : Float} {k : ℕ∞}

/-- What one of the values becomes. -/
def flattenOne (depth : Nat) (level : Float) (x : Value) : Eval (List Value) :=
  match x with
  | .array r => if 1.0 ≤ level then do flatten depth (level - 1.0) (← Site.items r) else pure [x]
  | x => pure [x]

theorem flatten_succ (depth : Nat) (level : Float) (xs : List Value) :
    flatten (depth + 1) level xs = do return (← xs.mapM (flattenOne depth level)).flatten := rfl

/-- What is made of each of the values makes the whole. -/
theorem mapM_flattenOne {xs : List Value}
    (hone : ∀ x ∈ xs, (∃ us, flattenOne depth level x m = (.ok us, m) ∧
        ∀ {vs ws}, Flattens h₀ k vs ws → Flattens h₀ k (x :: vs) (us ++ ws)) ∨
      x.copiable h₀ depth = false ∧ flattenOne depth level x m = (.error (.exhausted none), m)) :
    (∃ parts, xs.mapM (flattenOne depth level) m = (.ok parts, m) ∧
        Flattens h₀ k xs parts.flatten) ∨
      (∃ x ∈ xs, x.copiable h₀ depth = false) ∧
        xs.mapM (flattenOne depth level) m = (.error (.exhausted none), m) := by
  induction xs with
  | nil =>
    rw [List.mapM_nil]
    exact .inl ⟨[], rfl, .nil⟩
  | cons x xs ih =>
    obtain ⟨hx, hxs⟩ := List.forall_mem_cons.mp hone
    rw [List.mapM_cons]
    rcases hx with ⟨us, hrun, hflattens⟩ | ⟨hdeep, hrun⟩
    · rw [Eval.bind_run_ok hrun]
      rcases ih hxs with ⟨parts, hrest, hparts⟩ | ⟨⟨y, hy, hdeep⟩, hrest⟩
      · rw [Eval.bind_run_ok hrest]
        exact .inl ⟨us :: parts, rfl, hflattens hparts⟩
      · rw [Eval.bind_run_error hrest]
        exact .inr ⟨⟨y, List.mem_cons_of_mem x hy, hdeep⟩, rfl⟩
    · rw [Eval.bind_run_error hrun]
      exact .inr ⟨⟨x, List.mem_cons_self, hdeep⟩, rfl⟩

/-- **The elements of an array are flattened**, unless there are not frames enough to
copy it. -/
theorem flatten_cases (hh : h₀.WellFormed) (hm : h₀.Adds m.heap) :
    ∀ (depth : Nat) {level : Float} {k : ℕ∞} {r : ArrayRef}, depth ≤ 2 ^ 52 →
      Counts depth level k → h₀.Allocated (.array r) →
      (∃ ys, flatten depth level (h₀.items r) m = (.ok ys, m) ∧ Flattens h₀ k (h₀.items r) ys) ∨
        (Value.array r).copiable h₀ depth = false ∧
          flatten depth level (h₀.items r) m = (.error (.exhausted none), m)
  | 0, _, _, _, _, _, _ => .inr ⟨rfl, rfl⟩
  | depth + 1, level, k, r, hdepth, hc, hr => by
    have hone : ∀ x ∈ h₀.items r, (∃ us, flattenOne depth level x m = (.ok us, m) ∧
          ∀ {vs ws}, Flattens h₀ k vs ws → Flattens h₀ k (x :: vs) (us ++ ws)) ∨
        x.copiable h₀ depth = false ∧
          flattenOne depth level x m = (.error (.exhausted none), m) := by
      intro x hx
      have halloc : h₀.Allocated x := hh.items r x hx
      cases x with
      | array r' =>
        rcases hc.step (by omega) with ⟨hlevel, j, hk, hc'⟩ | ⟨hlevel, hk⟩
        · have hinside : flattenOne depth level (.array r') m =
              flatten depth (level - 1.0) (h₀.items r') m := by
            rw [← hm.items r' halloc]
            exact congrFun (if_pos hlevel) m
          rw [hinside]
          rcases flatten_cases hh hm depth (by omega) hc' halloc with
            ⟨us, hrun, hflattens⟩ | ⟨hdeep, hrun⟩
          · exact .inl ⟨us, hrun, fun hrest => .splice hk hflattens hrest⟩
          · exact .inr ⟨hdeep, hrun⟩
        · exact .inl ⟨[.array r'], congrFun (if_neg hlevel) m, fun hrest => .keep (.inl hk) hrest⟩
      | absent | null | bool | number | string | dict | function =>
        exact .inl ⟨[_], rfl, fun hrest => .keep (.inr rfl) hrest⟩
    rw [flatten_succ]
    rcases mapM_flattenOne hone with ⟨parts, hrun, hflattens⟩ | ⟨⟨x, hx, hdeep⟩, hrun⟩
    · rw [Eval.bind_run_ok hrun]
      exact .inl ⟨parts.flatten, rfl, hflattens⟩
    · rw [Eval.bind_run_error hrun]
      refine .inr ⟨Bool.eq_false_iff.mpr fun henough => ?_, rfl⟩
      obtain ⟨n, hn, hitems⟩ := Value.exists_copiable_items henough
      rw [Value.copiable_mono (by omega) (hitems x hx)] at hdeep
      cases hdeep

end

/-! ### What the caller gets -/

/-- `Array.flat`, and an array for it that is not cyclic. -/
structure FlatReady (f : NativeFunction) (h : Heap) (r : ArrayRef) : Prop where
  operation : f.operation = .array .flat
  arity : f.arity = .between 1 2
  heap : h.WellFormed
  array : h.Allocated (.array r)
  acyclic : ∃ deep, (Value.array r).copiable h deep = true

/-- What `Array.flat` gives for an array of a heap that was only added to since: a
new array with copies of the flattened elements, or nothing if there are not so many
frames as are enough to copy the array. -/
inductive HandsFlat (frames : Nat) (h₀ : Heap) (r : ArrayRef) (k : ℕ∞) (m : Machine) :
    Except Stop Value × Machine → Prop
  | flat {ys : List Value} {a : ArrayRef} {h : Heap} (hflattens : Flattens h₀ k (h₀.items r) ys)
    (hcopies : ArrayOfCopies h₀ ys m h a) :
    HandsFlat frames h₀ r k m (.ok (.array a), { m with heap := h })
  | tooDeep (hdeep : (Value.array r).copiable h₀ frames = false) {h : Heap}
    (hadds : m.heap.Adds h) :
    HandsFlat frames h₀ r k m (.error (.exhausted none), { m with heap := h })

section

variable {s : Site} {f : NativeFunction} {h₀ : Heap} {m : Machine} {r : ArrayRef} {d : Float}
  {k : ℕ∞}

/-- What is left of the elements of an array takes no more frames than the elements. -/
theorem Flattens.copiable {ys : List Value} (hf : Flattens h₀ k (h₀.items r) ys) {frames : Nat}
    (hr : (Value.array r).copiable h₀ (frames + 2) = true) :
    ∀ v ∈ ys, v.copiable h₀ frames = true := by
  refine hf.forall_mem (fun r' hr' v hv => ?_) (List.all_eq_true.mp hr)
  obtain ⟨n, rfl, hitems⟩ := Value.exists_copiable_items hr'
  exact Value.copiable_mono (Nat.le_add_right n 2) (hitems v hv)

theorem flat_run (s : Site) (r : ArrayRef) (d : Float) :
    ArrayOp.run s [.array r, .number d] .flat = (do
      if d ≤ 0.0 || isNaN d then s.fail (.invalidAmount "depth")
      else return listProduct (← flatten s.frames d (← Site.items r))) := by
  unfold ArrayOp.run
  rfl

theorem FlatReady.admits (hready : FlatReady f h₀ r) : f.arity.admits 2 = true := by
  rw [hready.arity]
  rfl

/-- The operation flattens the elements, or has not frames enough. -/
theorem FlatReady.run_cases (hready : FlatReady f h₀ r) (hs : s.CountsFrames) (hm : h₀.Adds m.heap)
    (hd : Levels d k) :
    (∃ ys, f.operation.run s [.array r, .number d] m = (.ok (listProduct ys), m) ∧
        Flattens h₀ k (h₀.items r) ys) ∨
      (Value.array r).copiable h₀ s.frames = false ∧
        f.operation.run s [.array r, .number d] m = (.error (.exhausted none), m) := by
  obtain ⟨hzero, hnumber⟩ := isNaN_of_lt hd.pos
  have hpos : ¬d ≤ 0.0 := fun h =>
    absurd ((lt_iff_rank hzero hnumber).mp hd.pos) (not_lt.mpr ((le_iff_rank hnumber hzero).mp h))
  have haccepted : (decide (d ≤ 0.0) || isNaN d) = false := by
    rw [hnumber, decide_eq_false hpos]
    rfl
  have hrun : f.operation.run s [.array r, .number d] m =
      (do return listProduct (← flatten s.frames d (h₀.items r)) : Eval Product) m := by
    have hitems : Site.items r m = (.ok (h₀.items r), m) := by
      rw [← hm.items r hready.array]
      rfl
    rw [hready.operation, Operation.run, flat_run, haccepted, if_neg Bool.false_ne_true,
      Eval.bind_run_ok hitems]
  rw [hrun]
  rcases flatten_cases hready.heap hm s.frames hs (hd.counts.mono hs) hready.array with
    ⟨ys, hflatten, hflattens⟩ | ⟨hdeep, hflatten⟩
  · rw [Eval.bind_run_ok hflatten]
    exact .inl ⟨ys, rfl, hflattens⟩
  · rw [Eval.bind_run_error hflatten]
    exact .inr ⟨hdeep, rfl⟩

/-- **`Array.flat` hands back the flattened elements** of an array that is not cyclic,
unless there are not frames enough to copy it. -/
theorem FlatReady.handsFlat (hready : FlatReady f h₀ r) (hs : s.CountsFrames) (hm : h₀.Adds m.heap)
    (hd : Levels d k) : HandsFlat s.frames h₀ r k m (callNative s f [.array r, .number d] m) := by
  rcases hready.run_cases hs hm hd with ⟨ys, hrun, hflattens⟩ | ⟨hdeep, hrun⟩
  · have hallocated : ∀ v ∈ ys, h₀.Allocated v :=
      hflattens.forall_mem (fun r' _ => hready.heap.items r') (hready.heap.items r)
    have hends : ∀ v ∈ ys, ∃ deep, v.copiable h₀ deep = true := by
      obtain ⟨deep, hdeep⟩ := hready.acyclic
      obtain ⟨n, rfl, -⟩ := Value.exists_copiable_items hdeep
      exact fun v hv => ⟨n, hflattens.copiable hdeep v hv⟩
    rw [callNative_of_ok hready.admits hrun]
    have hhands := receive_handsArray s (f.operation.host? m) hready.heap hm hallocated
    generalize s.receive (f.operation.host? m) (listProduct ys) m = result at hhands
    cases hhands with
    | copies _ hcopies => exact .flat hflattens hcopies
    | tooDeep hdeep hadds hstop =>
      obtain rfl := hstop (.ends hends)
      refine .tooDeep (Bool.eq_false_iff.mpr fun hr => ?_) hadds
      obtain ⟨v, hv, hdeep⟩ := hdeep
      have henough : v.copiable h₀ s.elementFrames = true := hflattens.copiable hr v hv
      rw [henough] at hdeep
      cases hdeep
  · rw [callNative_of_stop s _ hready.admits (by rintro _ _ ⟨⟩) hrun]
    exact .tooDeep hdeep (.refl m.heap)

/-- The heap stays well-formed. -/
theorem FlatReady.wellFormed_callNative (hready : FlatReady f m.heap r) (hs : s.CountsFrames)
    (hhosts : ∀ o ∈ m.hosts, o.Honest) (hd : Levels d k) :
    (callNative s f [.array r, .number d] m).2.heap.WellFormed := by
  have hm := hready.heap
  rcases hready.run_cases hs (.refl _) hd with ⟨ys, hrun, hflattens⟩ | ⟨-, hrun⟩
  · rw [callNative_of_ok hready.admits hrun]
    exact receive_wellFormed s _ hm hhosts (hflattens.forall_mem (fun r' _ => hm.items r') (hm.items r))
  · rw [callNative_of_stop s _ hready.admits (by rintro _ _ ⟨⟩) hrun]
    exact hm

theorem HandsFlat.exists_copies {frames : Nat} {result : Except Stop Value × Machine}
    (h : HandsFlat frames h₀ r k m result) (hr : (Value.array r).copiable h₀ frames = true) :
    ∃ ys a h, result = (.ok (.array a), { m with heap := h }) ∧
      Flattens h₀ k (h₀.items r) ys ∧ ArrayOfCopies h₀ ys m h a := by
  cases h with
  | flat hflattens hcopies => exact ⟨_, _, _, rfl, hflattens, hcopies⟩
  | tooDeep hdeep =>
    rw [hr] at hdeep
    cases hdeep

theorem ArrayOfCopies.structEq {vs : List Value} {h : Heap} {a : ArrayRef}
    (hc : ArrayOfCopies h₀ vs m h a) : List.Forall₂ (StructEq h₀ h) vs (h.items a) :=
  hc.copied.imp fun _ _ hcopied => hcopied.structEq

/-- Besides two frames, what was copied is enough for an array of copies. -/
theorem ArrayOfCopies.copiable_eq {vs : List Value} {h : Heap} {a : ArrayRef}
    (hc : ArrayOfCopies h₀ vs m h a) (frames : Nat) :
    (Value.array a).copiable h (frames + 2) = vs.all (Value.copiable h₀ frames) :=
  (all_eq_of_forall₂ (hc.structEq.imp fun _ _ hs => hs.copiable_eq frames)).symm

/-- An array of copies of what is left takes no more frames than the array. -/
theorem Flattens.copiable_copies {ys : List Value} {h : Heap} {a : ArrayRef}
    (hf : Flattens h₀ k (h₀.items r) ys) (hc : ArrayOfCopies h₀ ys m h a) {frames : Nat}
    (hr : (Value.array r).copiable h₀ frames = true) : (Value.array a).copiable h frames = true := by
  obtain ⟨n, rfl, -⟩ := Value.exists_copiable_items hr
  rw [hc.copiable_eq]
  exact List.all_eq_true.mpr (hf.copiable hr)

theorem HandsFlat.of_ok {frames : Nat} {a : ArrayRef} {m' : Machine}
    (h : HandsFlat frames h₀ r k m (.ok (.array a), m')) :
    ∃ ys h, m' = { m with heap := h } ∧ Flattens h₀ k (h₀.items r) ys ∧ ArrayOfCopies h₀ ys m h a := by
  cases h with
  | flat hflattens hcopies => exact ⟨_, _, rfl, hflattens, hcopies⟩

/-- What was handed back can be flattened again. -/
theorem FlatReady.again (hready : FlatReady f m.heap r) (hs : s.CountsFrames)
    (hhosts : ∀ o ∈ m.hosts, o.Honest) (hd : Levels d k) {a : ArrayRef} {h : Heap} {ys : List Value}
    (hcall : callNative s f [.array r, .number d] m = (.ok (.array a), { m with heap := h }))
    (hflattens : Flattens m.heap k (m.heap.items r) ys) (hcopies : ArrayOfCopies m.heap ys m h a) :
    FlatReady f h a where
  operation := hready.operation
  arity := hready.arity
  heap := by
    have hh := hready.wellFormed_callNative hs hhosts hd
    rwa [hcall] at hh
  array := hcopies.there
  acyclic := hready.acyclic.imp fun _ hdeep => hflattens.copiable_copies hcopies hdeep

/-- To flatten what is equal to what was flattened goes on where it was left. -/
theorem Flattens.resume {h₁ : Heap} {j k : ℕ∞} {xs ys us zs : List Value} (hf : Flattens h₀ j xs ys)
    (heq : List.Forall₂ (StructEq h₀ h₁) ys us) (hf' : Flattens h₁ k us zs) :
    ∃ ws, Flattens h₀ (j + k) xs ws ∧ List.Forall₂ (StructEq h₀ h₁) ws zs := by
  obtain ⟨ws, hws, heq'⟩ := hf'.structEq (StructEq.forall₂_symm heq)
  exact ⟨ws, hf.trans hws, StructEq.forall₂_symm heq'⟩

/-- **What was flattened twice is equal in structure to what was flattened once.** -/
theorem Flattens.twice_structEq {h₁ h₂ h₃ : Heap} {m₁ m₂ : Machine} {j : ℕ∞} {a₁ a₂ a₃ : ArrayRef}
    {ys₁ ys₂ ys₃ : List Value} (hf₁ : Flattens h₀ j (h₀.items r) ys₁)
    (hc₁ : ArrayOfCopies h₀ ys₁ m h₁ a₁) (hf₂ : Flattens h₁ k (h₁.items a₁) ys₂)
    (hc₂ : ArrayOfCopies h₁ ys₂ m₁ h₂ a₂) (hf₃ : Flattens h₀ (j + k) (h₀.items r) ys₃)
    (hc₃ : ArrayOfCopies h₀ ys₃ m₂ h₃ a₃) (hadds : h₂.Adds h₃) :
    List.Forall₂ (StructEq h₃ h₃) (h₃.items a₂) (h₃.items a₃) := by
  obtain ⟨ws, hws, heq⟩ := hf₁.resume hc₁.structEq hf₂
  obtain rfl : ws = ys₃ := hws.unique hf₃
  have htwice : List.Forall₂ (StructEq h₀ h₃) ws (h₃.items a₂) :=
    StructEq.forall₂_trans heq (hc₂.mono hadds).structEq
  exact StructEq.forall₂_trans (StructEq.forall₂_symm htwice) hc₃.structEq

section Twice

variable {s₁ s₂ s₃ : Site} {x y z : Float} {j : ℕ∞}

/-- The calls that flatten twice and once return if each has frames enough to copy the
array. -/
theorem FlatReady.calls_return (hready : FlatReady f m.heap r) (hhosts : ∀ o ∈ m.hosts, o.Honest)
    (hs : ∀ s ∈ [s₁, s₂, s₃], s.CountsFrames)
    (hr : ∀ s ∈ [s₁, s₂, s₃], (Value.array r).copiable m.heap s.frames = true)
    (hx : Levels x j) (hy : Levels y k) (hz : Levels z (j + k)) :
    ∃ a₁ m₁ a₂ m₂ a₃ m₃,
      callNative s₁ f [.array r, .number x] m = (.ok (.array a₁), m₁) ∧
      callNative s₂ f [.array a₁, .number y] m₁ = (.ok (.array a₂), m₂) ∧
      callNative s₃ f [.array r, .number z] m₂ = (.ok (.array a₃), m₃) := by
  simp only [List.forall_mem_cons] at hs hr
  obtain ⟨hs₁, hs₂, hs₃, -⟩ := hs
  obtain ⟨hr₁, hr₂, hr₃, -⟩ := hr
  have hfirst := hready.handsFlat hs₁ (.refl _) hx
  obtain ⟨ys₁, a₁, h₁, hcall₁, hf₁, hc₁⟩ := hfirst.exists_copies hr₁
  have hagain : FlatReady f h₁ a₁ := hready.again hs₁ hhosts hx hcall₁ hf₁ hc₁
  have hsecond := hagain.handsFlat (m := { m with heap := h₁ }) hs₂ (.refl _) hy
  obtain ⟨ys₂, a₂, h₂, hcall₂, -, hc₂⟩ := hsecond.exists_copies (hf₁.copiable_copies hc₁ hr₂)
  have hthird := hready.handsFlat (m := { m with heap := h₂ }) hs₃ (hc₁.adds.trans hc₂.adds) hz
  obtain ⟨ys₃, a₃, h₃, hcall₃, -, -⟩ := hthird.exists_copies hr₃
  exact ⟨a₁, _, a₂, _, a₃, _, hcall₁, hcall₂, hcall₃⟩

/-- If they return, their results are equal in structure. -/
theorem FlatReady.calls_agree (hready : FlatReady f m.heap r) (hhosts : ∀ o ∈ m.hosts, o.Honest)
    (hs : ∀ s ∈ [s₁, s₂, s₃], s.CountsFrames)
    (hx : Levels x j) (hy : Levels y k) (hz : Levels z (j + k)) {a₁ a₂ a₃ : ArrayRef}
    {m₁ m₂ m₃ : Machine} (hcall₁ : callNative s₁ f [.array r, .number x] m = (.ok (.array a₁), m₁))
    (hcall₂ : callNative s₂ f [.array a₁, .number y] m₁ = (.ok (.array a₂), m₂))
    (hcall₃ : callNative s₃ f [.array r, .number z] m₂ = (.ok (.array a₃), m₃)) :
    List.Forall₂ (StructEq m₃.heap m₃.heap) (m₃.heap.items a₂) (m₃.heap.items a₃) := by
  simp only [List.forall_mem_cons] at hs
  obtain ⟨hs₁, hs₂, hs₃, -⟩ := hs
  have hfirst := hready.handsFlat hs₁ (.refl _) hx
  rw [hcall₁] at hfirst
  obtain ⟨ys₁, h₁, rfl, hf₁, hc₁⟩ := hfirst.of_ok
  have hagain : FlatReady f h₁ a₁ := hready.again hs₁ hhosts hx hcall₁ hf₁ hc₁
  have hsecond := hagain.handsFlat (m := { m with heap := h₁ }) hs₂ (.refl _) hy
  rw [hcall₂] at hsecond
  obtain ⟨ys₂, h₂, rfl, hf₂, hc₂⟩ := hsecond.of_ok
  have hthird := hready.handsFlat (m := { m with heap := h₂ }) hs₃ (hc₁.adds.trans hc₂.adds) hz
  rw [hcall₃] at hthird
  obtain ⟨ys₃, h₃, rfl, hf₃, hc₃⟩ := hthird.of_ok
  exact hf₁.twice_structEq hc₁ hf₂ hc₂ hf₃ hc₃ hc₃.adds

end Twice

end

/-- **Flattening composes.** Take an array that is not cyclic, and calls of `Array.flat`
that each find some number of frames, no more than doubles count. A call hands back
a new array with copies of the elements, flattened by as many levels as the number
holds wholes; with infinitely many levels these are the leaves, and none of them is
an array. It changes nothing that was there, and is exhausted only where its frames are
not enough to copy the array. To flatten by one number of levels and then by another
gives what is equal in structure to the array flattened by their sum, and all three calls
return if each has frames enough to copy the array. -/
theorem flattening_composes (f : NativeFunction) (r : ArrayRef) (m : Machine)
    (hready : FlatReady f m.heap r) (hhosts : ∀ o ∈ m.hosts, o.Honest) :
    let flat (s : Site) (a : ArrayRef) (d : Float) : Eval Value :=
      callNative s f [.array a, .number d]
    (∀ s : Site, s.CountsFrames →
      (∀ d, 0.0 < d → isFinite d = true →
        HandsFlat s.frames m.heap r (⌊rank d⌋₊ : Nat) m (flat s r d m)) ∧
      HandsFlat s.frames m.heap r ⊤ m (flat s r infinity m) ∧
      ∀ a m', flat s r infinity m = (.ok (.array a), m') →
        (∃ ys, Leaves m.heap (m.heap.items r) ys ∧
          List.Forall₂ (Copied m.heap m'.heap) ys (m'.heap.items a)) ∧
        ∀ v ∈ m'.heap.items a, v.isArray = false) ∧
    ∀ (s₁ s₂ s₃ : Site), (∀ s ∈ [s₁, s₂, s₃], s.CountsFrames) →
      ∀ (x y z : Float) (j k : Nat), integer? x = some (j : Int) → integer? y = some (k : Int) →
        0 < j → 0 < k → z = x + y ∨ integer? z = some ((j + k : Nat) : Int) →
        ((∀ s ∈ [s₁, s₂, s₃], (Value.array r).copiable m.heap s.frames = true) →
          ∃ a₁ m₁ a₂ m₂ a₃ m₃, flat s₁ r x m = (.ok (.array a₁), m₁) ∧
            flat s₂ a₁ y m₁ = (.ok (.array a₂), m₂) ∧ flat s₃ r z m₂ = (.ok (.array a₃), m₃)) ∧
        ∀ a₁ m₁ a₂ m₂ a₃ m₃, flat s₁ r x m = (.ok (.array a₁), m₁) →
          flat s₂ a₁ y m₁ = (.ok (.array a₂), m₂) → flat s₃ r z m₂ = (.ok (.array a₃), m₃) →
          List.Forall₂ (StructEq m₃.heap m₃.heap) (m₃.heap.items a₂) (m₃.heap.items a₃) := by
  intro flat
  refine ⟨fun s hs => ?_, fun s₁ s₂ s₃ hs x y z j k hx hy hj hk hz => ?_⟩
  · have hinfinity : HandsFlat s.frames m.heap r ⊤ m (flat s r infinity m) :=
      hready.handsFlat hs (.refl _) .infinity
    refine ⟨fun d hd hfinite => hready.handsFlat hs (.refl _) (.of_isFinite hd hfinite), hinfinity,
      fun a m' hcall => ?_⟩
    rw [hcall] at hinfinity
    obtain ⟨ys, h, rfl, hflattens, hcopies⟩ := hinfinity.of_ok
    have hleaves := hflattens.leaves
    exact ⟨⟨ys, hleaves, hcopies.copied⟩, hleaves.copies_isArray hcopies.copied⟩
  · have hlevelsx : Levels x j := .of_integer? hx hj
    have hlevelsy : Levels y k := .of_integer? hy hk
    have hlevelsz : Levels z (j + k) := .add hx hy hj hk hz
    constructor
    · exact fun hr => hready.calls_return hhosts hs hr hlevelsx hlevelsy hlevelsz
    · intro a₁ m₁ a₂ m₂ a₃ m₃ hcall₁ hcall₂ hcall₃
      exact hready.calls_agree hhosts hs hlevelsx hlevelsy hlevelsz hcall₁ hcall₂ hcall₃

section Examples

/-- The native `Array.flat`. -/
def flatNative : NativeFunction := ⟨.array .flat, "flat", .between 1 2, none, none⟩

/-- The array `[[[[]], null], true]`. -/
def unevenArray : Machine :=
  .ofArrays [[.array ⟨1⟩, .bool true], [.array ⟨2⟩, .null], [.array ⟨3⟩], []]

theorem unevenArray_wellFormed : unevenArray.heap.WellFormed := by
  refine Heap.ofArrays_wellFormed fun xs hxs v hv => ?_
  simp only [List.mem_cons, List.not_mem_nil, or_false] at hxs
  rcases hxs with rfl | rfl | rfl | rfl
  · rcases List.mem_pair.mp hv with rfl | rfl
    · exact (by decide : 1 < 4)
    · trivial
  · rcases List.mem_pair.mp hv with rfl | rfl
    · exact (by decide : 2 < 4)
    · trivial
  · rw [List.mem_singleton.mp hv]
    exact (by decide : 3 < 4)
  · cases hv

/-- One level twice is two levels at once; half a level is none. -/
theorem flattening_composes_uneven :
    let s : Site := ⟨Engine.exhausted, ⟨⟨0⟩, "", ⟨none, "", false, .usual⟩⟩, ⟨some 1, some 1, 0⟩⟩
    let m := unevenArray
    let flat (a : ArrayRef) (d : Float) : Eval Value := callNative s flatNative [.array a, .number d]
    HandsFlat s.frames m.heap ⟨0⟩ 0 m (flat ⟨0⟩ 0.5 m) ∧
      ∃ a₁ m₁ a₂ m₂ a₃ m₃, flat ⟨0⟩ 1.0 m = (.ok (.array a₁), m₁) ∧
        flat a₁ 1.0 m₁ = (.ok (.array a₂), m₂) ∧ flat ⟨0⟩ 2.0 m₂ = (.ok (.array a₃), m₃) ∧
        List.Forall₂ (StructEq m₃.heap m₃.heap) (m₃.heap.items a₂) (m₃.heap.items a₃) := by
  intro s m flat
  have hready : FlatReady flatNative m.heap ⟨0⟩ :=
    ⟨rfl, rfl, unevenArray_wellFormed, (by decide : 0 < 4), 8, rfl⟩
  have hs : s.CountsFrames := (by decide : 903 ≤ 2 ^ 52)
  obtain ⟨hfraction, hcomposes⟩ := flattening_composes flatNative ⟨0⟩ m hready (by rintro o ⟨⟨⟩⟩)
  constructor
  · have hdecode : decode 0.5 = .finite false (2 ^ 52) (-53) := by decide +kernel
    have hnone : ⌊rank 0.5⌋₊ = 0 := by
      rw [rank_of_decode hdecode, rational_false, Nat.floor_eq_zero]
      norm_num
    have hhalf := (hfraction s hs).1 0.5 (by decide +kernel) (isFinite_of_decode hdecode)
    rw [hnone] at hhalf
    exact hhalf
  · have hone : integer? 1.0 = some ((1 : Nat) : Int) := by decide +kernel
    have hall {P : Site → Prop} (hP : P s) : ∀ s' ∈ [s, s, s], P s' := by simp [hP]
    obtain ⟨hreturns, hequal⟩ := hcomposes s s s (hall hs) 1.0 1.0 2.0 1 1 hone hone Nat.one_pos
      Nat.one_pos (.inr (by decide +kernel))
    obtain ⟨a₁, m₁, a₂, m₂, a₃, m₃, hcall₁, hcall₂, hcall₃⟩ := hreturns (hall rfl)
    exact ⟨a₁, m₁, a₂, m₂, a₃, m₃, hcall₁, hcall₂, hcall₃,
      hequal a₁ m₁ a₂ m₂ a₃ m₃ hcall₁ hcall₂ hcall₃⟩

/-- Three thousand arrays inside another, one in the other. -/
def deepArray : Machine := { Machine.initial with heap := nestedArrays 3000 }

/-- There is no cycle, but the array is not flattened by a level. -/
theorem deep_arrays_are_not_flattened :
    let s : Site := ⟨Engine.exhausted, ⟨⟨0⟩, "", ⟨none, "", false, .usual⟩⟩, ⟨some 1, some 1, 0⟩⟩
    (∃ frames, (Value.array ⟨3000⟩).copiable deepArray.heap frames = true) ∧
      callNative s flatNative [.array ⟨3000⟩, .number 1.0] deepArray =
        (.error (.exhausted none), deepArray) := by
  intro s
  have harrays : deepArray.heap.arrays = (nestedArrays 3000).arrays := rfl
  have hitems (k : Nat) (hk : k + 1 ≤ 3000) : deepArray.heap.items ⟨k + 1⟩ = [.array ⟨k⟩] :=
    items_of_nestedArrays harrays hk
  have hallocated : deepArray.heap.Allocated (.array ⟨3000⟩) := by
    show 3000 < (nestedArrays 3000).arrays.size
    simp [nestedArrays]
  have hends := nestedArrays_copiable harrays (Nat.le_refl 3000)
  have hready : FlatReady flatNative deepArray.heap ⟨3000⟩ :=
    ⟨rfl, rfl, nestedArrays_wellFormed 3000, hallocated, _, hends⟩
  have hlevel : Levels 1.0 (1 : Nat) := .of_integer? (by decide +kernel) Nat.one_pos
  have hs : s.CountsFrames := (by decide : 903 ≤ 2 ^ 52)
  refine ⟨⟨_, hends⟩, ?_⟩
  rcases hready.run_cases hs (.refl deepArray.heap) hlevel with ⟨ys, hrun, hflattens⟩ | ⟨-, hrun⟩
  · have hone : Flattens deepArray.heap (1 : Nat) [.array ⟨2999⟩] [.array ⟨2998⟩] := by
      have hinside : Flattens deepArray.heap 0 (deepArray.heap.items ⟨2999⟩)
          [.array ⟨2998⟩] := by
        rw [hitems 2998 (by decide)]
        exact .refl _ _
      exact .splice (zero_add 1).symm hinside .nil
    have hys : ys = [.array ⟨2998⟩] := by
      rw [hitems 2999 (by decide)] at hflattens
      exact hflattens.unique hone
    have hcopy : s.copyValue s.elementFrames (.array ⟨2998⟩) deepArray =
        (.error (.exhausted none), deepArray) :=
      copyValue_nestedArrays s harrays (by decide) (by decide)
    rw [callNative_of_ok rfl hrun, hys, receive_listProduct_eq, List.mapM_cons, bind_assoc,
      Eval.bind_run_error hcopy]
  · exact callNative_of_stop s _ rfl (by rintro _ _ ⟨⟩) hrun

end Examples

end RuleScript
