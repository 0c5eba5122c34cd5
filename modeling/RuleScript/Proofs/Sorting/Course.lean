/-
# The course of a sort

What the steps of a sort keep, the whole sort keeps. This is shown once, for
whatever it is that they keep: of a merge, a property of the elements that are
left and one of the result (`Merge.Kept`), and of the pile, a property of the
elements of its runs, and how they are related to the elements that they come
from (`Keeper`). That a sort loses nothing and that it sorts are two cases.

Key definitions: `Progress.Meets`, `Merge.Kept`, `Keeper`, `Keeper.Upheld`.
Key theorems: `Merge.Kept.run`, `Keeper.Upheld.add`, `Keeper.Upheld.collapse`,
`Keeper.Upheld.march`, `Keeper.Upheld.sortItems`.
-/
import RuleScript.Proofs.Sorting.Searching

namespace RuleScript.Sorting

open Eval (Ensures)

variable {I : Machine → Prop} {lt : Comparison}

/-! ### Merging -/

/-- The merge has the property `M` if it goes on, and the result the property
`R` if it has ended. -/
def Progress.Meets (M : Merge → Prop) (R : Merged → Prop) : Progress → Prop
  | .ongoing _ m => M m
  | .ended r => R r

namespace Merge

section

variable {M N : Merge → Prop} {R : Merged → Prop} {side : Side} {m : Merge} {A : Except Stop Nat → Prop}

theorem gallopShort_meets
    (hgallop : Ensures I A (Eval.attempt (gallop side (waitsFor lt side (m.long.getD 0 .null)) m.short)))
    (hstop : ∀ e, A (.error e) → R (m.finish (some e)))
    (hfirst : ∀ n, A (.ok n) → ((m.moveShort n).settle n).Meets N R)
    (hsecond : ∀ m', N m' → ∀ n, ((m'.moveLong 1).settle n).Meets M R) :
    Ensures I (Progress.Meets M R) (gallopShort lt side m) := by
  refine hgallop.bind ?_
  rintro (e | n) hn
  · exact .pure (hstop e hn)
  · have hsettle := hfirst n hn
    dsimp only
    cases hp : (m.moveShort n).settle n with
    | ended r =>
      rw [hp] at hsettle
      exact .pure hsettle
    | ongoing count m' =>
      rw [hp] at hsettle
      exact .pure (hsecond m' hsettle count)

theorem gallopLong_meets
    (hgallop : Ensures I A (Eval.attempt (gallop side (givesWayTo lt side (m.short.getD 0 .null)) m.long)))
    (hstop : ∀ e, A (.error e) → R (m.finish (some e)))
    (hfirst : ∀ n, A (.ok n) → ((m.moveLong n).settle n).Meets N R)
    (hsecond : ∀ m', N m' → ∀ n, ((m'.moveShort 1).settle n).Meets M R) :
    Ensures I (Progress.Meets M R) (gallopLong lt side m) := by
  refine hgallop.bind ?_
  rintro (e | n) hn
  · exact .pure (hstop e hn)
  · have hsettle := hfirst n hn
    dsimp only
    cases hp : (m.moveLong n).settle n with
    | ended r =>
      rw [hp] at hsettle
      exact .pure hsettle
    | ongoing count m' =>
      rw [hp] at hsettle
      exact .pure (hsecond m' hsettle count)

/-- Both runs are galloped through, in either order. -/
theorem gallopBoth_meets (hshort : ∀ m, N m → Ensures I (Progress.Meets M R) (gallopShort lt side m))
    (hlong : ∀ m, N m → Ensures I (Progress.Meets M R) (gallopLong lt side m)) (hagain : ∀ m, M m → N m)
    (h : N m) : Ensures I (Progress.Meets M R) (gallopBoth lt side m) := by
  cases side with
  | left =>
    refine (hshort m h).bind ?_
    rintro (⟨n, m'⟩ | r) hp
    · refine (hlong m' (hagain m' hp)).bind ?_
      rintro (⟨k, m''⟩ | r) hq
      · exact .pure hq
      · exact .pure hq
    · exact .pure hp
  | right =>
    refine (hlong m h).bind ?_
    rintro (⟨n, m'⟩ | r) hp
    · refine (hshort m' (hagain m' hp)).bind ?_
      rintro (⟨k, m''⟩ | r) hq
      · exact .pure hq
      · exact .pure hq
    · exact .pure hp

end

/-- What the steps of a merge keep. `M k` is true of a merge that needs at most
`k` more steps, `A` of an answer to the question which element is next, and `R`
of the result. -/
structure Kept (I : Machine → Prop) (lt : Comparison) (side : Side) (M : Nat → Merge → Prop)
    (A : Merge → Except Stop Bool → Prop) (R : Merged → Prop) : Prop where
  last {m : Merge} : M 0 m → R (m.finish none)
  ask {k : Nat} {m : Merge} : M (k + 1) m →
    Ensures I (A m) (Eval.attempt (waitsFor lt side (m.long.getD 0 .null) (m.short.getD 0 .null)))
  stop {k : Nat} {m : Merge} {e : Stop} : M (k + 1) m → A m (.error e) → R (m.finish (some e))
  long {k : Nat} {m : Merge} (count : Nat) : M (k + 1) m → A m (.ok true) →
    ((m.moveLong 1).settle count).Meets (M k) R
  short {k : Nat} {m : Merge} (count : Nat) : M (k + 1) m → A m (.ok false) →
    ((m.moveShort 1).settle count).Meets (M k) R
  gallop {k : Nat} {m : Merge} : M (k + 1) m → Ensures I (Progress.Meets (M k) R) (gallopBoth lt side m)
  threshold {k : Nat} {m : Merge} (t : Nat) : M k m → M k { m with threshold := t }

namespace Kept

variable {side : Side} {M : Nat → Merge → Prop} {A : Merge → Except Stop Bool → Prop}
  {R : Merged → Prop} (h : Kept I lt side M A R)
include h

/-- **What the steps of a merge keep, the merge keeps.** -/
theorem run : ∀ {fuel : Nat} (pace : Pace) {m : Merge}, M fuel m → Ensures I R (run lt side fuel pace m)
  | 0, _, _, hm => .pure (h.last hm)
  | fuel + 1, .single shortWins longWins, m, hm => by
    refine (h.ask hm).bind ?_
    rintro (e | longNext) hnext
    · exact .pure (h.stop hm hnext)
    · cases longNext with
      | true =>
        have hmoved := h.long (longWins + 1) hm hnext
        simp only [if_true]
        cases hp : (m.moveLong 1).settle (longWins + 1) with
        | ended r =>
          rw [hp] at hmoved
          exact .pure hmoved
        | ongoing wins m' =>
          rw [hp] at hmoved
          exact .ite (fun _ => run _ hmoved) fun _ => run _ hmoved
      | false =>
        have hmoved := h.short (shortWins + 1) hm hnext
        simp only [Bool.false_eq_true, if_false]
        cases hp : (m.moveShort 1).settle (shortWins + 1) with
        | ended r =>
          rw [hp] at hmoved
          exact .pure hmoved
        | ongoing wins m' =>
          rw [hp] at hmoved
          exact .ite (fun _ => run _ hmoved) fun _ => run _ hmoved
  | fuel + 1, .galloping threshold, m, hm => by
    refine (h.gallop (h.threshold (max 1 (threshold - 1)) hm)).bind ?_
    rintro (⟨count, m'⟩ | r) hp
    · exact .ite (fun _ => run _ hp) fun _ => run _ (h.threshold _ hp)
    · exact .pure hp

/-- A merge starts with the first element of the long run. -/
theorem start {threshold : Nat} {short long : List Value}
    (hfirst : (((⟨[], short, long, threshold⟩ : Merge).moveLong 1).settle 0).Meets
      (M (short.length + long.length)) R) :
    Ensures I R (start lt side threshold short long) := by
  unfold Merge.start
  cases hp : ((⟨[], short, long, threshold⟩ : Merge).moveLong 1).settle 0 with
  | ended r =>
    rw [hp] at hfirst
    exact .pure hfirst
  | ongoing count m =>
    rw [hp] at hfirst
    exact h.run _ hfirst

end Kept

end Merge

/-! ### The pile -/

theorem runItems_cons (r : Run) (runs : List Run) : runItems (r :: runs) = runItems runs ++ r.items := by
  unfold runItems
  rw [List.reverse_cons, List.flatMap_append, List.flatMap_singleton]

/-- What is true of elements that are not in a run yet, and of those of a run,
how what is handed back is related to what was given, and whether the
comparison always answers. -/
structure Keeper where
  Raw : List Value → Prop
  Good : List Value → Prop
  Same : List Value → List Value → Prop
  Answering : Prop

namespace Keeper

variable (K : Keeper)

/-- The steps of a sort by the comparison keep this. -/
structure Upheld (I : Machine → Prop) (lt : Comparison) : Prop where
  refl (xs : List Value) : K.Same xs xs
  trans {xs ys zs : List Value} : K.Same xs ys → K.Same ys zs → K.Same xs zs
  append {xs ys xs' ys' : List Value} : K.Same xs ys → K.Same xs' ys' → K.Same (xs ++ xs') (ys ++ ys')
  perm {xs ys : List Value} : K.Same xs ys → xs.Perm ys
  ne {xs : List Value} : K.Answering → K.Good xs → xs ≠ []
  merge {a b : List Value} (threshold : Nat) : K.Good a → K.Good b →
    Ensures I (fun r => (K.Answering → r.stop = none) ∧ K.Good r.items ∧ K.Same r.items (a ++ b))
      (mergeRuns lt threshold a b)
  take {xs : List Value} (least : Nat) : K.Raw xs → xs ≠ [] →
    Ensures I (fun r => (K.Answering → r.2.2 = none ∧ r.2.1.length < xs.length) ∧ K.Good r.1 ∧
      K.Raw r.2.1 ∧ K.Same (r.1 ++ r.2.1) xs) (takeRun lt least xs)

/-- A pile of good runs, with an answer to every question if the comparison
answers. -/
structure Piled (p : Pile) : Prop where
  stop : K.Answering → p.stop = none
  runs : ∀ r ∈ p.runs, K.Good r.items

namespace Upheld

variable {K : Keeper} (h : K.Upheld I lt)
include h

theorem append_left (zs : List Value) {xs ys : List Value} (hsame : K.Same xs ys) :
    K.Same (zs ++ xs) (zs ++ ys) := h.append (h.refl zs) hsame

theorem append_right (zs : List Value) {xs ys : List Value} (hsame : K.Same xs ys) :
    K.Same (xs ++ zs) (ys ++ zs) := h.append hsame (h.refl zs)

theorem mergeTop (threshold : Nat) {top below : Run} (htop : K.Good top.items)
    (hbelow : K.Good below.items) :
    Ensures I (fun r => (K.Answering → r.2.2 = none) ∧ K.Good r.1.items ∧
      K.Same r.1.items (below.items ++ top.items)) (mergeTop lt threshold top below) :=
  (h.merge threshold hbelow htop).bind fun _ hr => .pure hr

theorem mergeDeeper (depth : Nat) : ∀ {rest : List Run} (threshold : Nat) {top : Run},
    K.Good top.items → (∀ r ∈ rest, K.Good r.items) →
    Ensures I (fun p => K.Piled p ∧ K.Same (runItems p.runs) (runItems (top :: rest)))
      (mergeDeeper lt depth threshold top rest)
  | [], _, top, htop, hrest =>
    .pure ⟨⟨fun _ => rfl, List.forall_mem_cons.mpr ⟨htop, hrest⟩⟩, h.refl _⟩
  | below :: rest, threshold, top, htop, hruns => by
    obtain ⟨hbelow, hrest⟩ := List.forall_mem_cons.mp hruns
    refine .ite (fun _ => ?_) fun _ =>
      .pure ⟨⟨fun _ => rfl, List.forall_mem_cons.mpr ⟨htop, hruns⟩⟩, h.refl _⟩
    refine (h.mergeTop threshold htop hbelow).bind ?_
    rintro ⟨merged, threshold', stop⟩ ⟨hstop, hmerged, hsame⟩
    have hwhole : K.Same (runItems (merged :: rest)) (runItems (top :: below :: rest)) := by
      rw [runItems_cons, runItems_cons, runItems_cons, List.append_assoc]
      exact h.append_left (runItems rest) hsame
    cases stop with
    | some e => exact .pure ⟨⟨hstop, List.forall_mem_cons.mpr ⟨hmerged, hrest⟩⟩, hwhole⟩
    | none =>
      refine (mergeDeeper depth threshold' hmerged hrest).weaken fun p hp => ?_
      exact ⟨hp.1, h.trans hp.2 hwhole⟩

/-- **A run is put on the pile.** -/
theorem add (n : Nat) {p : Pile} (hp : K.Piled p) {items : List Value} (hitems : K.Good items) :
    Ensures I (fun q => K.Piled q ∧ K.Same (runItems q.runs) (runItems p.runs ++ items))
      (p.add lt n items) := by
  obtain ⟨runs, threshold, stop⟩ := p
  obtain ⟨hstop, hruns⟩ := hp
  cases runs with
  | nil =>
    refine .pure ⟨⟨hstop, List.forall_mem_cons.mpr ⟨hitems, hruns⟩⟩, ?_⟩
    rw [runItems_cons]
    exact h.refl _
  | cons top rest =>
    obtain ⟨htop, hrest⟩ := List.forall_mem_cons.mp hruns
    refine (h.mergeDeeper (borderDepth n top items.length) threshold htop hrest).bind ?_
    rintro ⟨runs', threshold', stop'⟩ ⟨⟨hstop', hruns'⟩, hsame⟩
    cases runs' with
    | nil =>
      refine .pure ⟨⟨hstop', List.forall_mem_cons.mpr ⟨hitems, hruns'⟩⟩, ?_⟩
      rw [runItems_cons]
      exact h.append_right items hsame
    | cons first rest' =>
      obtain ⟨hfirst, hrest'⟩ := List.forall_mem_cons.mp hruns'
      refine .pure ⟨⟨hstop', List.forall_mem_cons.mpr
        ⟨hitems, List.forall_mem_cons.mpr ⟨hfirst, hrest'⟩⟩⟩, ?_⟩
      rw [runItems_cons]
      refine h.append_right items ?_
      rw [runItems_cons] at hsame ⊢
      exact hsame

/-- **All runs of the pile are merged.** -/
theorem collapse : ∀ {fuel : Nat} {p : Pile}, K.Piled p →
    Ensures I (fun q => K.Piled q ∧ K.Same (runItems q.runs) (runItems p.runs) ∧
      (K.Answering → p.runs.length ≤ fuel → q.runs.length ≤ 1)) (p.collapse lt fuel)
  | 0, p, hp => .pure ⟨hp, h.refl _, fun _ hfuel => Nat.le_succ_of_le hfuel⟩
  | fuel + 1, ⟨runs, threshold, some e⟩, hp =>
    .pure ⟨hp, h.refl _, fun hanswers => absurd (hp.stop hanswers) nofun⟩
  | fuel + 1, ⟨[], threshold, none⟩, hp => .pure ⟨hp, h.refl _, fun _ _ => Nat.zero_le 1⟩
  | fuel + 1, ⟨[_], threshold, none⟩, hp => .pure ⟨hp, h.refl _, fun _ _ => Nat.le_refl 1⟩
  | fuel + 1, ⟨[c, b], threshold, none⟩, hp => by
    obtain ⟨hc, hb, hnil⟩ := List.forall_mem_cons.mp hp.runs |>.imp_right List.forall_mem_cons.mp
    refine (h.mergeTop threshold hc hb).bind ?_
    rintro ⟨merged, threshold', stop⟩ ⟨hstop, hmerged, hsame⟩
    refine .pure ⟨⟨hstop, List.forall_mem_cons.mpr ⟨hmerged, hnil⟩⟩, ?_, fun _ _ => Nat.le_refl 1⟩
    simp only [runItems_cons, List.append_assoc]
    exact h.append_left (runItems []) hsame
  | fuel + 1, ⟨c :: b :: a :: rest, threshold, none⟩, hp => by
    obtain ⟨hc, hb, ha, hrest⟩ := List.forall_mem_cons.mp hp.runs |>.imp_right fun h =>
      (List.forall_mem_cons.mp h).imp_right List.forall_mem_cons.mp
    refine .ite (fun _ => ?_) fun _ => ?_
    · refine (h.mergeTop threshold hb ha).bind ?_
      rintro ⟨merged, threshold', stop⟩ ⟨hstop, hmerged, hsame⟩
      have hpiled : K.Piled ⟨c :: merged :: rest, threshold', stop⟩ :=
        ⟨hstop, List.forall_mem_cons.mpr ⟨hc, List.forall_mem_cons.mpr ⟨hmerged, hrest⟩⟩⟩
      refine (collapse hpiled).weaken fun q hq => ⟨hq.1, h.trans hq.2.1 ?_, fun hanswers hfuel =>
        hq.2.2 hanswers (Nat.le_of_succ_le_succ hfuel)⟩
      simp only [runItems_cons, List.append_assoc]
      rw [← List.append_assoc a.items]
      exact h.append_left (runItems rest) (h.append_right c.items hsame)
    · refine (h.mergeTop threshold hc hb).bind ?_
      rintro ⟨merged, threshold', stop⟩ ⟨hstop, hmerged, hsame⟩
      have hpiled : K.Piled ⟨merged :: a :: rest, threshold', stop⟩ :=
        ⟨hstop, List.forall_mem_cons.mpr ⟨hmerged, List.forall_mem_cons.mpr ⟨ha, hrest⟩⟩⟩
      refine (collapse hpiled).weaken fun q hq => ⟨hq.1, h.trans hq.2.1 ?_, fun hanswers hfuel =>
        hq.2.2 hanswers (Nat.le_of_succ_le_succ hfuel)⟩
      simp only [runItems_cons, List.append_assoc]
      exact h.append_left (runItems rest) (h.append_left a.items hsame)

/-! ### The march over the elements -/

/-- **The march takes all elements.** -/
theorem march (n least : Nat) : ∀ {fuel : Nat} {m : March}, K.Piled m.pile → K.Raw m.rest →
    Ensures I (fun m' => K.Piled m'.pile ∧
      K.Same (runItems m'.pile.runs ++ m'.rest) (runItems m.pile.runs ++ m.rest) ∧
      (K.Answering → m.rest.length ≤ fuel → m'.rest = [])) (march lt n least fuel m)
  | 0, m, hp, _ =>
    .pure ⟨hp, h.refl _, fun _ hfuel => List.eq_nil_of_length_eq_zero (Nat.le_zero.mp hfuel)⟩
  | fuel + 1, ⟨pile, rest⟩, hp, hraw => by
    refine .ite (fun hend => .pure ⟨hp, h.refl _, fun hanswers _ => ?_⟩) fun hgoes => ?_
    · have hstop : pile.stop.isSome = false := by rw [hp.stop hanswers]; rfl
      dsimp only at hend
      rw [hstop, Bool.or_false] at hend
      exact List.isEmpty_iff.mp hend
    · have hne : rest ≠ [] := by
        rintro rfl
        exact hgoes rfl
      refine (h.take least hraw hne).bind ?_
      rintro ⟨items, rest', stop⟩ ⟨hanswer, hitems, hraw', hsame⟩
      cases stop with
      | some e =>
        exact .pure ⟨⟨fun hanswers => absurd (hanswer hanswers).1 nofun, hp.runs⟩,
          h.append_left _ hsame, fun hanswers => absurd (hanswer hanswers).1 nofun⟩
      | none =>
        refine (h.add n hp hitems).bind fun q hq => ?_
        refine (march n least (m := ⟨q, rest'⟩) hq.1 hraw').weaken fun m' hm' => ?_
        refine ⟨hm'.1, h.trans hm'.2.1 (h.trans (h.append_right rest' hq.2) ?_), fun hanswers hfuel => ?_⟩
        · rw [List.append_assoc]
          exact h.append_left (runItems pile.runs) hsame
        · have hshorter := (hanswer hanswers).2
          dsimp only at hshorter hfuel
          exact hm'.2.2 hanswers (by dsimp only; omega)

/-- There are no more runs than elements. -/
theorem length_le_runItems (hanswers : K.Answering) : ∀ {runs : List Run}, (∀ r ∈ runs, K.Good r.items) →
    runs.length ≤ (runItems runs).length
  | [], _ => Nat.le_refl 0
  | r :: runs, hruns => by
    obtain ⟨hr, hrest⟩ := List.forall_mem_cons.mp hruns
    have ih := length_le_runItems hanswers hrest
    have hpos : 0 < r.items.length := List.length_pos_iff.mpr (h.ne hanswers hr)
    rw [runItems_cons, List.length_append, List.length_cons]
    omega

/-- **What the steps of a sort keep, the sort keeps.** If the comparison always
answers, there is one run in the end. -/
theorem sortItems {xs : List Value} (hraw : K.Raw xs) :
    Ensures I (fun r => K.Same r.1 xs ∧ (K.Answering → r.2 = none ∧ (r.1 ≠ [] → K.Good r.1)))
      (sortItems lt xs) := by
  have hstart : K.Piled ⟨[], Merge.leastGallop, none⟩ :=
    ⟨fun _ => rfl, fun r hr => absurd hr List.not_mem_nil⟩
  refine (h.march (m := ⟨⟨[], Merge.leastGallop, none⟩, xs⟩) xs.length
    (leastRun xs.length xs.length 0) hstart hraw).bind ?_
  rintro ⟨pile, rest⟩ ⟨hp, hsame, hrest⟩
  refine (h.collapse hp).bind ?_
  rintro ⟨runs, threshold, stop⟩ ⟨hq, hsame', hone⟩
  refine .pure ⟨h.trans (h.append_right rest hsame') hsame, fun hanswers => ⟨hq.stop hanswers, ?_⟩⟩
  have hempty : rest = [] := hrest hanswers (Nat.le_refl _)
  subst hempty
  dsimp only at hsame hone ⊢
  rw [List.append_nil] at hsame ⊢
  have hruns : pile.runs.length ≤ xs.length :=
    Nat.le_trans (h.length_le_runItems hanswers hp.runs) (Nat.le_of_eq (h.perm hsame).length_eq)
  rcases runs with _ | ⟨r, _ | ⟨r', runs⟩⟩
  · exact fun hne => absurd rfl hne
  · intro _
    rw [runItems_cons]
    exact hq.runs r List.mem_cons_self
  · exact absurd (hone hanswers hruns) (by rw [List.length_cons, List.length_cons]; omega)

end Upheld

end Keeper

end RuleScript.Sorting
