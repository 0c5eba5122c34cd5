/-
# Slices

The two bounds of a slice of `n` elements are positions from `0` to `n`, whatever
numbers they are given as: the fraction is cut off first, a negative bound counts
from the end, and what lies outside is moved to the nearer end (`Bounds`). The
slice holds the elements at the positions in between (`elementsBetween`), and
none if the bounds are the wrong way round.

So a slice up to a bound and the slice from there on are the whole, whatever the
bound is. Strings are put together again as they were. An array is handed back
as a copy of its elements, so there is no slice with an element that the host has
not frames enough for; one that holds itself takes more than any host has.

Key definitions: `Bounds`, `elementsBetween`.
Key theorems: `bounds_sliceBound`, `Bounds.le`, `sliceList_eq`,
`sliceList_append`, `slices_partition`.
-/
import RuleScript.Proofs.Library.Failure
import RuleScript.Proofs.Number.Truncation
import RuleScript.Proofs.Values.Delivery
import RuleScript.Proofs.Values.Results

namespace RuleScript

open Number

/-! ### Bounds -/

/-- The position in `n` elements that a bound of a slice stands for. A bound that
is not given stands for the default. -/
inductive Bounds (n default : Nat) : Option Float → Nat → Prop
  | absent : Bounds n default none default
  | nan {x : Float} (hx : isNaN x = true) : Bounds n default (some x) 0
  | infinite {x : Float} {negative : Bool} (hx : decode x = .infinite negative) :
    Bounds n default (some x) (if negative then 0 else n)
  | front {x : Float} {t : Nat} (hx : isFinite x = true) (ht : towardZero (rank x) = t) :
    Bounds n default (some x) (min t n)
  | back {x : Float} {t : Nat} (hx : isFinite x = true) (ht : towardZero (rank x) = -t) (hpos : 0 < t) :
    Bounds n default (some x) (n - t)

section

variable {n default k : Nat}

theorem bounds_sliceBound (n default : Nat) (bound : Option Float) :
    Bounds n default bound (sliceBound n default bound) := by
  cases bound with
  | none => exact .absent
  | some x =>
    unfold sliceBound
    dsimp only
    cases hdecode : decode x with
    | nan => exact .nan (by rw [isNaN, hdecode])
    | infinite negative => exact .infinite hdecode
    | finite negative m e =>
      have hfinite : isFinite x = true := isFinite_of_decode hdecode
      dsimp only
      rw [truncate?_eq hfinite]
      cases ht : towardZero (rank x) with
      | ofNat t => exact .front hfinite ht
      | negSucc t => exact .back hfinite ht (Nat.succ_pos t)

/-- **A bound is a position in the elements or the end.** -/
theorem Bounds.le {bound : Option Float} (h : Bounds n default bound k) (hdefault : default ≤ n) :
    k ≤ n := by
  cases h with
  | absent => exact hdefault
  | nan => exact Nat.zero_le n
  | @infinite _ negative _ =>
    cases negative with
    | false => exact Nat.le_refl n
    | true => exact Nat.zero_le n
  | front => exact Nat.min_le_right _ n
  | back => exact Nat.sub_le n _

/-- Zero stands for the front. -/
theorem Bounds.eq_zero (h : Bounds n default (some 0.0) k) : k = 0 := by
  have hzero : towardZero (rank 0.0) = 0 := by
    rw [rank_plainZero]
    exact if_neg (lt_irrefl 0)
  cases h with
  | nan => rfl
  | infinite hx => cases decode_zero.symm.trans hx
  | @front _ t _ ht =>
    rw [hzero] at ht
    omega
  | @back _ t _ ht hpos =>
    rw [hzero] at ht
    omega

end

/-! ### The elements in between -/

section

variable {α : Type} {xs : List α} {lo hi : Nat}

/-- The elements at the positions from `lo` up to `hi`, in their order. -/
def elementsBetween (xs : List α) (lo hi : Nat) : List α :=
  (xs.zipIdx.filter fun p => lo ≤ p.2 ∧ p.2 < hi).map (·.1)

theorem mem_of_mem_elementsBetween {x : α} (h : x ∈ elementsBetween xs lo hi) : x ∈ xs := by
  obtain ⟨p, hp, rfl⟩ := List.mem_map.mp h
  have hmem : p.1 ∈ xs.zipIdx.map (·.1) := List.mem_map_of_mem (List.mem_filter.mp hp).1
  rwa [List.zipIdx_map_fst] at hmem

theorem elementsBetween_from (xs : List α) (lo hi k : Nat) :
    ((xs.zipIdx k).filter fun p => lo ≤ p.2 ∧ p.2 < hi).map (·.1) =
      (xs.take (hi - k)).drop (lo - k) := by
  induction xs generalizing k with
  | nil => simp
  | cons x xs ih =>
    have ih := ih (k + 1)
    rw [List.zipIdx_cons]
    by_cases hhi : k < hi
    · have htake : hi - k = hi - (k + 1) + 1 := by omega
      rw [htake, List.take_succ_cons]
      by_cases hlo : lo ≤ k
      · have hdrop : lo - k = 0 ∧ lo - (k + 1) = 0 := by omega
        rw [hdrop.2, List.drop_zero] at ih
        rw [hdrop.1, List.drop_zero, List.filter_cons_of_pos (by simpa using ⟨hlo, hhi⟩),
          List.map_cons, ih]
      · have hdrop : lo - k = lo - (k + 1) + 1 := by omega
        rw [hdrop, List.drop_succ_cons, List.filter_cons_of_neg (by simpa using fun h => absurd h hlo),
          ih]
    · have htake : hi - k = 0 ∧ hi - (k + 1) = 0 := by omega
      rw [htake.2, List.take_zero, List.drop_nil] at ih
      rw [htake.1, List.take_zero, List.drop_nil, List.filter_cons_of_neg (by simpa using fun _ => hhi),
        ih]

/-- **A slice holds the elements between its bounds.** -/
theorem sliceList_eq (xs : List α) (lo hi : Nat) :
    sliceList xs (lo, hi) = elementsBetween xs lo hi :=
  (elementsBetween_from xs lo hi 0).symm

/-- **A slice up to a position and the slice from there on are the whole.** -/
theorem sliceList_append (xs : List α) (k : Nat) :
    sliceList xs (0, k) ++ sliceList xs (k, xs.length) = xs := by
  unfold sliceList
  rw [List.take_length, List.drop_zero, List.take_append_drop]

end

/-! ### The slices of an array or a string -/

section

variable {α : Type} {xs : List α}

/-- The slice of some elements with the bounds that are given: none, the first or
both. -/
def sliced (xs : List α) (bounds : List Float) : List α :=
  sliceList xs (sliceBounds xs.length bounds[0]? bounds[1]?)

theorem sliced_eq (xs : List α) (bounds : List Float) :
    ∃ lo hi, Bounds xs.length 0 bounds[0]? lo ∧ Bounds xs.length xs.length bounds[1]? hi ∧
      sliced xs bounds = elementsBetween xs lo hi :=
  ⟨_, _, bounds_sliceBound .., bounds_sliceBound .., sliceList_eq ..⟩

theorem mem_of_mem_sliced {bounds : List Float} {x : α} (h : x ∈ sliced xs bounds) : x ∈ xs := by
  obtain ⟨lo, hi, -, -, hsliced⟩ := sliced_eq xs bounds
  rw [hsliced] at h
  exact mem_of_mem_elementsBetween h

/-- **The two slices that meet at a bound are the whole.** -/
theorem sliced_append (xs : List α) (k : Float) : sliced xs [0.0, k] ++ sliced xs [k] = xs := by
  have hzero := (bounds_sliceBound xs.length 0 (some 0.0)).eq_zero
  generalize (0.0 : Float) = zero at hzero ⊢
  have hfront : sliced xs [zero, k] = sliceList xs (0, sliceBound xs.length 0 (some k)) := by
    show sliceList xs (sliceBound xs.length 0 (some zero), sliceBound xs.length 0 (some k)) = _
    rw [hzero]
  have hback : sliced xs [k] = sliceList xs (sliceBound xs.length 0 (some k), xs.length) := rfl
  rw [hfront, hback, sliceList_append]

end

section

variable {s : Site} {f : NativeFunction} {m : Machine}

theorem number?_map (s : Site) (what : String) (bound : Option Float) :
    s.number? what (bound.map .number) = pure bound := by
  cases bound <;> rfl

theorem admits_slice (harity : f.arity = .between 1 3) (v : Value) {bounds : List Float}
    (hbounds : bounds.length ≤ 2) : f.arity.admits (v :: bounds.map Value.number).length = true := by
  rw [harity, List.length_cons, List.length_map]
  have hmost : bounds.length + 1 ≤ 3 := by omega
  simp [Arity.admits, Arity.between, hmost]

/-- `String.slice` gives the characters in between. -/
theorem callNative_slice_string (hf : f.operation = .string .slice) (harity : f.arity = .between 1 3)
    (t : String) (bounds : List Float) (hbounds : bounds.length ≤ 2) :
    callNative s f (.string t :: bounds.map .number) m =
      (.ok (.string (String.ofList (sliced t.toList bounds))), m) := by
  have hrun : f.operation.run s (.string t :: bounds.map .number) m =
      (.ok (.value (.string (String.ofList (sliced t.toList bounds)))), m) := by
    rw [hf]
    simp only [Operation.run, StringOp.run, List.getElem?_cons_succ, List.getElem?_map, number?_map]
    rfl
  rw [callNative_of_ok (admits_slice harity _ hbounds) hrun]
  rfl

/-- `Array.slice` hands back the elements in between. The array may be from an
earlier heap that was only added to. -/
theorem callNative_slice_array {h₀ : Heap} (hf : f.operation = .array .slice)
    (harity : f.arity = .between 1 3) (hh : h₀.WellFormed) (hm : h₀.Adds m.heap) {r : ArrayRef}
    (hr : h₀.Allocated (.array r)) (bounds : List Float) (hbounds : bounds.length ≤ 2) :
    HandsArray s.elementFrames h₀ (sliced (h₀.items r) bounds) m
      (callNative s f (.array r :: bounds.map .number) m) := by
  have hrun : f.operation.run s (.array r :: bounds.map .number) m =
      (.ok (listProduct (sliced (h₀.items r) bounds)), m) := by
    rw [hf, ← hm.items r hr]
    simp only [Operation.run, ArrayOp.run, List.getElem?_cons_succ, List.getElem?_map, number?_map]
    rfl
  rw [callNative_of_ok (admits_slice harity _ hbounds) hrun]
  exact receive_handsArray _ _ hh hm fun v hv => hh.items r v (mem_of_mem_sliced hv)

end

/-- **Slices partition.** The bounds of a slice of `n` elements, given or not and
whatever numbers they are, are positions from `0` to `n`. The slice of a string
holds the characters between its bounds, and the slices before and from a bound
are the string. The slice of an array is handed back as an array of copies of
the elements between its bounds, if the host has frames enough for each of them.
If it has not, the call is exhausted and changes nothing that was there (there being
no mark of a missing value, which no program leaves in a heap). And if two calls, each
with room of its own, have frames enough for all the elements, the slices before and
from a bound hold copies of all of them in order. -/
theorem slices_partition (s s' : Site) (f g : NativeFunction) (hf : f.operation = .array .slice)
    (hfarity : f.arity = .between 1 3) (hg : g.operation = .string .slice)
    (hgarity : g.arity = .between 1 3) (m : Machine) (hm : m.heap.WellFormed) :
    (∀ n start finish, ∃ lo hi, sliceBounds n start finish = (lo, hi) ∧ lo ≤ n ∧ hi ≤ n ∧
      Bounds n 0 start lo ∧ Bounds n n finish hi) ∧
    (∀ t : String,
      (∀ bounds : List Float, bounds.length ≤ 2 → ∃ lo hi,
        Bounds t.toList.length 0 bounds[0]? lo ∧
        Bounds t.toList.length t.toList.length bounds[1]? hi ∧
        callNative s g (.string t :: bounds.map .number) m =
          (.ok (.string (String.ofList (elementsBetween t.toList lo hi))), m)) ∧
      ∀ k, ∃ before after,
        callNative s g [.string t, .number 0.0, .number k] m = (.ok (.string before), m) ∧
        callNative s g [.string t, .number k] m = (.ok (.string after), m) ∧ before ++ after = t) ∧
    ∀ r, m.heap.Allocated (.array r) →
      (∀ bounds : List Float, bounds.length ≤ 2 → ∃ lo hi,
        Bounds (m.heap.items r).length 0 bounds[0]? lo ∧
        Bounds (m.heap.items r).length (m.heap.items r).length bounds[1]? hi ∧
        let slice := elementsBetween (m.heap.items r) lo hi
        let result := callNative s f (.array r :: bounds.map .number) m
        HandsArray s.elementFrames m.heap slice m result ∧
        ((∀ v ∈ slice, v.copiable m.heap s.elementFrames = true) → ∃ a h,
          result = (.ok (.array a), { m with heap := h }) ∧ ArrayOfCopies m.heap slice m h a) ∧
        (m.heap.Present → (∃ v ∈ slice, v.copiable m.heap s.elementFrames = false) → ∃ h,
          result = (.error (.exhausted none), { m with heap := h }) ∧ m.heap.Adds h)) ∧
      ((∀ v ∈ m.heap.items r, v.copiable m.heap s.elementFrames = true ∧
          v.copiable m.heap s'.elementFrames = true) → ∀ k,
        ∃ before after m₁ m₂,
          callNative s f [.array r, .number 0.0, .number k] m = (.ok (.array before), m₁) ∧
          callNative s' f [.array r, .number k] m₁ = (.ok (.array after), m₂) ∧
          m.heap.Adds m₂.heap ∧
          List.Forall₂ (Copied m.heap m₂.heap) (m.heap.items r)
            (m₂.heap.items before ++ m₂.heap.items after)) := by
  refine ⟨fun n start finish => ?_, fun t => ⟨fun bounds hbounds => ?_, fun k => ?_⟩,
    fun r hr => ⟨fun bounds hbounds => ?_, fun hcopiable k => ?_⟩⟩
  · have hlo := bounds_sliceBound n 0 start
    have hhi := bounds_sliceBound n n finish
    exact ⟨_, _, rfl, hlo.le (Nat.zero_le n), hhi.le (Nat.le_refl n), hlo, hhi⟩
  · obtain ⟨lo, hi, hlo, hhi, hsliced⟩ := sliced_eq t.toList bounds
    have hcall := callNative_slice_string (s := s) (m := m) hg hgarity t bounds hbounds
    rw [hsliced] at hcall
    exact ⟨lo, hi, hlo, hhi, hcall⟩
  · refine ⟨_, _, callNative_slice_string hg hgarity t [0.0, k] (Nat.le_refl 2),
      callNative_slice_string hg hgarity t [k] (Nat.le_succ 1), ?_⟩
    rw [← String.ofList_append, sliced_append, String.ofList_toList]
  · obtain ⟨lo, hi, hlo, hhi, hsliced⟩ := sliced_eq (m.heap.items r) bounds
    have hcall := callNative_slice_array (s := s) hf hfarity hm (.refl _) hr bounds hbounds
    rw [hsliced] at hcall
    have hpresent (h : m.heap.Present) : Presentable m.heap (elementsBetween (m.heap.items r) lo hi) :=
      .present h fun v hv => h.items r v (mem_of_mem_sliced (hsliced ▸ hv))
    exact ⟨lo, hi, hlo, hhi, hcall, hcall.exists_copies, fun h => hcall.exhausts (hpresent h)⟩
  · have hslice (s : Site) (m₁ : Machine) (hm₁ : m.heap.Adds m₁.heap) (bounds : List Float)
        (hbounds : bounds.length ≤ 2)
        (henough : ∀ v ∈ m.heap.items r, v.copiable m.heap s.elementFrames = true) :=
      (callNative_slice_array (s := s) hf hfarity hm hm₁ hr bounds hbounds).exists_copies
        fun v hv => henough v (mem_of_mem_sliced hv)
    obtain ⟨before, h₁, hbefore, hcopies₁⟩ :=
      hslice s m (.refl _) [0.0, k] (Nat.le_refl 2) fun v hv => (hcopiable v hv).1
    obtain ⟨after, h₂, hafter, hcopies₂⟩ :=
      hslice s' { m with heap := h₁ } hcopies₁.adds [k] (Nat.le_succ 1) fun v hv => (hcopiable v hv).2
    refine ⟨before, after, _, _, hbefore, hafter, hcopies₁.adds.trans hcopies₂.adds, ?_⟩
    rw [← sliced_append (m.heap.items r) k]
    exact List.rel_append (hcopies₁.mono hcopies₂.adds).copied hcopies₂.copied

section Examples

/-- The native `Array.slice`. -/
def arraySliceNative : NativeFunction := ⟨.array .slice, "slice", .between 1 3, none, none⟩

/-- The native `String.slice`. -/
def stringSliceNative : NativeFunction := ⟨.string .slice, "slice", .between 1 3, none, none⟩

/-- A bound between the last two elements, counted from the end and with a fraction. -/
theorem slices_partition_fraction :
    let s : Site := ⟨Engine.exhausted, ⟨⟨0⟩, "", ⟨none, "", false, .usual⟩⟩, ⟨some 1, some 1, 0⟩⟩
    let m : Machine := .ofArrays [[.null, .bool true, .array ⟨1⟩], []]
    sliceBounds 3 (some 0.0) (some (-1.5)) = (0, 2) ∧
      (∃ before after,
        callNative s stringSliceNative [.string "abc", .number 0.0, .number (-1.5)] m =
          (.ok (.string before), m) ∧
        callNative s stringSliceNative [.string "abc", .number (-1.5)] m = (.ok (.string after), m) ∧
        before ++ after = "abc") ∧
      ∃ before after m₁ m₂,
        callNative s arraySliceNative [.array ⟨0⟩, .number 0.0, .number (-1.5)] m =
          (.ok (.array before), m₁) ∧
        callNative s arraySliceNative [.array ⟨0⟩, .number (-1.5)] m₁ = (.ok (.array after), m₂) ∧
        List.Forall₂ (Copied m.heap m₂.heap) [.null, .bool true, .array ⟨1⟩]
          (m₂.heap.items before ++ m₂.heap.items after) := by
  intro s m
  have hm : m.heap.WellFormed := by
    refine Heap.ofArrays_wellFormed fun xs hxs v hv => ?_
    rcases List.mem_pair.mp hxs with rfl | rfl
    · simp only [List.mem_cons, List.not_mem_nil, or_false] at hv
      rcases hv with rfl | rfl | rfl
      · trivial
      · trivial
      · exact Nat.one_lt_two
    · cases hv
  have henough : ∀ v ∈ m.heap.items ⟨0⟩, v.copiable m.heap s.elementFrames = true :=
    List.all_eq_true.mp rfl
  obtain ⟨-, hstrings, harrays⟩ :=
    slices_partition s s arraySliceNative stringSliceNative rfl rfl rfl rfl m hm
  obtain ⟨before, after, m₁, m₂, hbefore, hafter, -, hcopied⟩ :=
    (harrays ⟨0⟩ Nat.zero_lt_two).2 (fun v hv => ⟨henough v hv, henough v hv⟩) (-1.5)
  exact ⟨by decide +kernel, (hstrings "abc").2 (-1.5), before, after, m₁, m₂, hbefore, hafter, hcopied⟩

/-- An array that holds itself. -/
def selfHolding : Machine := .ofArrays [[.array ⟨0⟩]]

theorem copyValue_selfHolding (s : Site) : ∀ frames : Nat,
    s.copyValue frames (.array ⟨0⟩) selfHolding = (.error (.exhausted none), selfHolding)
  | 0 => rfl
  | 1 => rfl
  | frames + 2 => by
    have hcopy : s.copyValue (frames + 2) (.array ⟨0⟩) selfHolding =
        ([.array ⟨0⟩].mapM (s.copyValue frames) >>= Eval.newArray) selfHolding := rfl
    rw [hcopy, List.mapM_cons, bind_assoc, Eval.bind_run_error (copyValue_selfHolding s frames)]

/-- An array that holds itself is not handed back, so the slices do not partition
it. -/
theorem self_holding_arrays_are_not_sliced :
    let s : Site := ⟨Engine.exhausted, ⟨⟨0⟩, "", ⟨none, "", false, .usual⟩⟩, ⟨some 1, some 1, 0⟩⟩
    selfHolding.heap.WellFormed ∧ selfHolding.heap.items ⟨0⟩ = [.array ⟨0⟩] ∧
      callNative s arraySliceNative [.array ⟨0⟩, .number 0.0, .number 1.0] selfHolding =
        (.error (.exhausted none), selfHolding) := by
  intro s
  have hm : selfHolding.heap.WellFormed := by
    refine Heap.ofArrays_wellFormed fun xs hxs v hv => ?_
    rw [List.mem_singleton.mp hxs] at hv
    rw [List.mem_singleton.mp hv]
    exact Nat.one_pos
  have hbounds : sliceBounds 1 (some 0.0) (some 1.0) = (0, 1) := by decide +kernel
  have hsliced : sliced [Value.array ⟨0⟩] [0.0, 1.0] = [.array ⟨0⟩] := by
    show sliceList [Value.array ⟨0⟩] (sliceBounds 1 (some 0.0) (some 1.0)) = _
    rw [hbounds]
    rfl
  have hrun : arraySliceNative.operation.run s [.array ⟨0⟩, .number 0.0, .number 1.0] selfHolding =
      (.ok (listProduct (sliced [Value.array ⟨0⟩] [0.0, 1.0])), selfHolding) := rfl
  refine ⟨hm, rfl, ?_⟩
  rw [callNative_of_ok rfl hrun, hsliced, receive_listProduct_eq, List.mapM_cons, bind_assoc,
    Eval.bind_run_error (copyValue_selfHolding s _)]

end Examples

end RuleScript
