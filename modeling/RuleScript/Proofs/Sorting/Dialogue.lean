/-
# Sorting is a dialogue with its comparison

A sort touches the machine only through its comparison. `Queries` says this of
the parts of a sort that let a stop of the comparison through, and `Dialogue`
of the parts that catch it: they ask about two values, go on with the answer,
and when there is none they ask nothing more and hand back what they have
together with the stop. Both are about the computation as a function of the
comparison, so that what a sort asks next depends on the answers alone.

A sort makes no values of its own: if its elements have a property `P`, and
null has it (which stands in where a list is too short), then it asks about
such values only and hands back such values only.

Key definitions: `Queries`, `Dialogue`, `Listed`.
Key theorems: `Queries.attempt`, `Dialogue.bind`, `sortItems_dialogue`.
-/
import RuleScript.Library.Sorting
import RuleScript.Proofs.Computation

namespace RuleScript

/-! ### Questions -/

namespace Eval

variable {α β γ : Type}

/-- Go on with what a computation returns, or end with what is made of its
stop. -/
def elseHalt (x : Eval α) (next : α → Eval β) (halt : Stop → β) : Eval β := fun m =>
  match x m with
  | (.ok a, m') => next a m'
  | (.error s, m') => (.ok (halt s), m')

theorem attempt_bind (x : Eval α) (f : α → Eval β) :
    attempt (x >>= f) = elseHalt x (fun a => attempt (f a)) .error := by
  funext m
  unfold attempt elseHalt
  rw [bind_run]
  rcases x m with ⟨_ | _, _⟩ <;> rfl

/-- What was halted may be handed on. -/
theorem elseHalt_bind {x : Eval α} {next : α → Eval β} {halt : Stop → β} {f : β → Eval γ}
    {halt' : Stop → γ} (h : ∀ s, f (halt s) = pure (halt' s)) :
    elseHalt x next halt >>= f = elseHalt x (fun a => next a >>= f) halt' := by
  funext m
  rw [bind_run]
  unfold elseHalt
  rcases x m with ⟨s | a, m'⟩
  · show f (halt s) m' = _
    rw [h]
    rfl
  · exact (bind_run _ _ _).symm

end Eval

/-- A computation that only asks a comparison about values that satisfy `P`. -/
inductive Queries {α : Type} (P : Value → Prop) : (Comparison → Eval α) → Prop
  | answer (a : α) : Queries P fun _ => pure a
  | ask {x y : Value} (hx : P x) (hy : P y) {next : Bool → Comparison → Eval α}
    (h : ∀ b, Queries P (next b)) : Queries P fun lt => lt x y >>= fun b => next b lt

/-- A computation that asks a comparison about values that satisfy `P` until
it has no answer; then it ends with what `halt` makes of the stop. Otherwise it
ends with something that is `done`. -/
inductive Dialogue {α γ : Type} (P : Value → Prop) (done : α → Prop) (halt : γ → Stop → α) :
    (Comparison → Eval α) → Prop
  | answer {a : α} (h : done a) : Dialogue P done halt fun _ => pure a
  | ask {x y : Value} (hx : P x) (hy : P y) {next : Bool → Comparison → Eval α} (c : γ)
    (h : ∀ b, Dialogue P done halt (next b)) :
    Dialogue P done halt fun lt => Eval.elseHalt (lt x y) (fun b => next b lt) (halt c)

/-- A list of values that satisfy `P`. -/
abbrev Listed (P : Value → Prop) := { xs : List Value // ∀ v ∈ xs, P v }

namespace Queries

variable {α β : Type} {P : Value → Prop}

theorem compare {x y : Value} (hx : P x) (hy : P y) : Queries P fun lt => lt x y := by
  have h := ask hx hy fun b => answer b
  simpa only [bind_pure] using h

theorem bind {F : Comparison → Eval α} {G : α → Comparison → Eval β} (hF : Queries P F)
    (hG : ∀ a, Queries P (G a)) : Queries P fun lt => F lt >>= fun a => G a lt := by
  induction hF with
  | answer a => simpa only [pure_bind] using hG a
  | ask hx hy _ ih => simpa only [bind_assoc] using ask hx hy ih

theorem ite {c : Prop} [Decidable c] {F G : Comparison → Eval α} (hF : Queries P F)
    (hG : Queries P G) : Queries P fun lt => if c then F lt else G lt := by
  by_cases h : c
  · simpa only [if_pos h] using hF
  · simpa only [if_neg h] using hG

/-- Catching the stop of a computation that asks makes it a dialogue. -/
theorem attempt {F : Comparison → Eval α} (hF : Queries P F) :
    Dialogue P (fun r => ∃ a, r = .ok a) (fun (_ : Unit) => .error) fun lt => Eval.attempt (F lt) := by
  induction hF with
  | answer a => exact .answer ⟨a, rfl⟩
  | ask hx hy _ ih => simpa only [Eval.attempt_bind] using Dialogue.ask hx hy () ih

end Queries

namespace Dialogue

variable {α β γ δ : Type} {P : Value → Prop} {done : α → Prop} {halt : γ → Stop → α}
  {done' : β → Prop} {halt' : δ → Stop → β}

/-- One dialogue after another: what was halted is handed on without a
question. -/
theorem bind {F : Comparison → Eval α} {G : α → Comparison → Eval β} (hF : Dialogue P done halt F)
    (hG : ∀ a, done a → Dialogue P done' halt' (G a))
    (hhalt : ∀ c, ∃ c', ∀ s lt, G (halt c s) lt = pure (halt' c' s)) :
    Dialogue P done' halt' fun lt => F lt >>= fun a => G a lt := by
  induction hF with
  | answer ha => simpa only [pure_bind] using hG _ ha
  | @ask x y hx hy next c _ ih =>
    obtain ⟨c', hc⟩ := hhalt c
    have hlt : (fun lt => Eval.elseHalt (lt x y) (fun b => next b lt) (halt c) >>= fun a => G a lt) =
        fun lt => Eval.elseHalt (lt x y) (fun b => next b lt >>= fun a => G a lt) (halt' c') :=
      funext fun lt => Eval.elseHalt_bind fun s => hc s lt
    rw [hlt]
    exact ask hx hy c' ih

theorem ite {c : Prop} [Decidable c] {F G : Comparison → Eval α} (hF : Dialogue P done halt F)
    (hG : Dialogue P done halt G) : Dialogue P done halt fun lt => if c then F lt else G lt := by
  by_cases h : c
  · simpa only [if_pos h] using hF
  · simpa only [if_neg h] using hG

end Dialogue

namespace Sorting

variable {P : Value → Prop} (hnull : P .null)

include hnull in
theorem getD_of_forall {xs : List Value} (hxs : ∀ v ∈ xs, P v) (i : Nat) : P (xs.getD i .null) := by
  rw [List.getD_eq_getElem?_getD]
  cases h : xs[i]? with
  | none => exact hnull
  | some v => exact hxs v (List.mem_of_getElem? h)

/-! ### Runs -/

theorem runLength_queries (descending : Bool) : ∀ {xs : List Value} {last : Value},
    (∀ v ∈ xs, P v) → P last → Queries P fun lt => runLength lt descending last xs
  | [], _, _, _ => .answer 0
  | x :: xs, last, hxs, hlast => by
    obtain ⟨hx, hxs⟩ := List.forall_mem_cons.mp hxs
    refine .ask hx hlast fun b => .ite ?_ (.answer 0)
    exact (runLength_queries descending hxs hx).bind fun n => .answer (n + 1)

theorem frontRun_queries : ∀ {xs : List Value}, (∀ v ∈ xs, P v) → Queries P fun lt => frontRun lt xs
  | [], _ => .answer (0, false)
  | [_], _ => .answer (1, false)
  | x :: y :: rest, hxs => by
    obtain ⟨hx, hy, hrest⟩ := List.forall_mem_cons.mp hxs |>.imp_right List.forall_mem_cons.mp
    refine .ask hy hx fun descending => ?_
    exact (runLength_queries descending hrest hy).bind fun n => .answer (n + 2, descending)

section

include hnull

theorem placeBetween_queries {sorted : List Value} (hsorted : ∀ v ∈ sorted, P v) {pivot : Value}
    (hpivot : P pivot) : ∀ fuel l r : Nat,
    Queries P fun lt => placeBetween lt sorted pivot fuel l r
  | 0, l, _ => .answer l
  | fuel + 1, l, r => by
    refine .ite ?_ (.answer l)
    refine .ask hpivot (getD_of_forall hnull hsorted _) fun b => .ite ?_ ?_
    · exact placeBetween_queries hsorted hpivot fuel l _
    · exact placeBetween_queries hsorted hpivot fuel _ r

theorem insertAll_dialogue : ∀ {rest sorted : List Value}, (∀ v ∈ rest, P v) → (∀ v ∈ sorted, P v) →
    Dialogue P (fun r => r.2 = none ∧ ∀ v ∈ r.1, P v) (fun (items : Listed P) s => (items.1, some s))
      fun lt => insertAll lt sorted rest
  | [], _, _, hsorted => .answer ⟨rfl, hsorted⟩
  | x :: rest, sorted, hxs, hsorted => by
    obtain ⟨hx, hrest⟩ := List.forall_mem_cons.mp hxs
    have hplace := placeBetween_queries hnull hsorted hx (sorted.length + 1) 0 sorted.length
    have hall : ∀ v ∈ sorted ++ x :: rest, P v := List.forall_mem_append.mpr ⟨hsorted, hxs⟩
    refine hplace.attempt.bind ?_ fun _ => ⟨⟨_, hall⟩, fun s lt => rfl⟩
    rintro _ ⟨k, rfl⟩
    refine insertAll_dialogue hrest (List.forall_mem_append.mpr ⟨?_, List.forall_mem_cons.mpr ⟨hx, ?_⟩⟩)
    · exact fun v hv => hsorted v (List.mem_of_mem_take hv)
    · exact fun v hv => hsorted v (List.mem_of_mem_drop hv)

/-! ### Galloping -/

section Gallop

variable {stops : Comparison → Value → Eval Bool}
  (hstops : ∀ x, P x → Queries P fun lt => stops lt x) {xs : List Value} (hxs : ∀ v ∈ xs, P v)
include hstops hxs

theorem reach_queries : ∀ fuel last next : Nat,
    Queries P fun lt => reach (stops lt) xs fuel last next
  | 0, _, _ => .answer _
  | fuel + 1, last, next => by
    refine .ite ?_ (.answer _)
    refine (hstops _ (getD_of_forall hnull hxs _)).bind fun b => .ite (.answer _) ?_
    exact reach_queries fuel next (2 * next + 1)

theorem halve_queries (side : Side) : ∀ fuel l r : Nat,
    Queries P fun lt => halve side (stops lt) xs fuel l r
  | 0, l, _ => .answer l
  | fuel + 1, l, r => by
    refine .ite ?_ (.answer l)
    refine (hstops _ (getD_of_forall hnull hxs _)).bind fun b => .ite ?_ ?_
    · exact halve_queries side fuel l _
    · exact halve_queries side fuel _ r

theorem gallop_queries (side : Side) : Queries P fun lt => gallop side (stops lt) xs := by
  refine (hstops _ (getD_of_forall hnull hxs _)).bind fun b => .ite (.answer 0) ?_
  exact (reach_queries hnull hstops hxs _ _ _).bind fun p => halve_queries hnull hstops hxs side _ _ p.2

end Gallop

end

theorem waitsFor_queries (side : Side) {y x : Value} (hy : P y) (hx : P x) :
    Queries P fun lt => waitsFor lt side y x := by
  cases side
  · exact .compare hy hx
  · exact .compare hx hy

theorem givesWayTo_queries (side : Side) {x y : Value} (hx : P x) (hy : P y) :
    Queries P fun lt => givesWayTo lt side x y :=
  (waitsFor_queries side hy hx).bind fun b => .answer (!b)

/-! ### Merging -/

/-- A merge that has ended without an answer. -/
def Merged.halt (r : Listed P × Nat) (s : Stop) : Merged := ⟨r.1.1, r.2, some s⟩

/-- A merge that has ended with values that satisfy `P`, and has not been
stopped. -/
def Merged.Done (P : Value → Prop) (r : Merged) : Prop := r.stop = none ∧ ∀ v ∈ r.items, P v

/-- A merge of values that satisfy `P`. -/
structure Merge.Of (P : Value → Prop) (m : Merge) : Prop where
  done : ∀ v ∈ m.done, P v
  short : ∀ v ∈ m.short, P v
  long : ∀ v ∈ m.long, P v

/-- A merge of values that satisfy `P` that has not been stopped. -/
def Progress.Done (P : Value → Prop) : Progress → Prop
  | .ongoing _ m => m.Of P
  | .ended r => r.Done P

namespace Merge

theorem Of.rest {m : Merge} (hm : m.Of P) {xs : List Value} (hxs : ∀ v ∈ xs, P v) :
    ∀ v ∈ m.done.reverse ++ xs, P v :=
  List.forall_mem_append.mpr ⟨fun v hv => hm.done v (List.mem_reverse.mp hv), hxs⟩

theorem Of.finish {m : Merge} (hm : m.Of P) : ∀ v ∈ (m.finish none).items, P v :=
  hm.rest (List.forall_mem_append.mpr ⟨hm.short, hm.long⟩)

theorem Of.moveShort {m : Merge} (hm : m.Of P) (n : Nat) : (m.moveShort n).Of P where
  done := List.forall_mem_append.mpr
    ⟨fun v hv => hm.short v (List.mem_of_mem_take (List.mem_reverse.mp hv)), hm.done⟩
  short v hv := hm.short v (List.mem_of_mem_drop hv)
  long := hm.long

theorem Of.moveLong {m : Merge} (hm : m.Of P) (n : Nat) : (m.moveLong n).Of P where
  done := List.forall_mem_append.mpr
    ⟨fun v hv => hm.long v (List.mem_of_mem_take (List.mem_reverse.mp hv)), hm.done⟩
  short := hm.short
  long v hv := hm.long v (List.mem_of_mem_drop hv)

theorem settle_done {m : Merge} (hm : m.Of P) (count : Nat) : (m.settle count).Done P := by
  unfold settle
  split
  · exact ⟨rfl, hm.finish⟩
  · exact ⟨rfl, hm.finish⟩
  · rename_i x hx _
    refine ⟨rfl, hm.rest (List.forall_mem_append.mpr ⟨hm.long, ?_⟩)⟩
    exact hx ▸ hm.short
  · exact hm

/-- A merge that has settled after one move may settle after another. -/
theorem settle_twice_dialogue {m : Merge} (hm : m.Of P) {next : Merge → Merge}
    (hnext : ∀ {m : Merge}, m.Of P → (next m).Of P) (count : Nat) :
    Dialogue P (Progress.Done P) (fun (r : Listed P × Nat) s => .ended (.halt r s))
      fun _ => (match m.settle count with
        | .ongoing n m => pure ((next m).settle n)
        | ended => pure ended : Eval Progress) := by
  have hsettle := settle_done hm count
  cases h : m.settle count with
  | ongoing n m =>
    rw [h] at hsettle
    exact .answer (settle_done (hnext hsettle) n)
  | ended r =>
    rw [h] at hsettle
    exact .answer hsettle

include hnull

theorem gallopShort_dialogue (side : Side) {m : Merge} (hm : m.Of P) :
    Dialogue P (Progress.Done P) (fun (r : Listed P × Nat) s => .ended (.halt r s))
      fun lt => gallopShort lt side m := by
  have hlong : P (m.long.getD 0 .null) := getD_of_forall hnull hm.long 0
  have hask := gallop_queries hnull (fun x hx => waitsFor_queries side hlong hx) hm.short side
  refine hask.attempt.bind ?_ fun _ => ⟨(⟨_, hm.finish⟩, _), fun s lt => rfl⟩
  rintro _ ⟨n, rfl⟩
  exact settle_twice_dialogue (hm.moveShort n) (fun h => h.moveLong 1) n

theorem gallopLong_dialogue (side : Side) {m : Merge} (hm : m.Of P) :
    Dialogue P (Progress.Done P) (fun (r : Listed P × Nat) s => .ended (.halt r s))
      fun lt => gallopLong lt side m := by
  have hshort : P (m.short.getD 0 .null) := getD_of_forall hnull hm.short 0
  have hask := gallop_queries hnull (fun y hy => givesWayTo_queries side hshort hy) hm.long side
  refine hask.attempt.bind ?_ fun _ => ⟨(⟨_, hm.finish⟩, _), fun s lt => rfl⟩
  rintro _ ⟨n, rfl⟩
  exact settle_twice_dialogue (hm.moveLong n) (fun h => h.moveShort 1) n

theorem gallopBoth_dialogue (side : Side) {m : Merge} (hm : m.Of P) :
    Dialogue P (Progress.Done P) (fun (r : Listed P × Nat) s => .ended (.halt r s))
      fun lt => gallopBoth lt side m := by
  cases side with
  | left =>
    refine (gallopShort_dialogue hnull .left hm).bind ?_ fun r => ⟨r, fun s lt => rfl⟩
    intro p hp
    cases p with
    | ended r => exact .answer hp
    | ongoing n m =>
      refine (gallopLong_dialogue hnull .left hp).bind ?_ fun r => ⟨r, fun s lt => rfl⟩
      intro q hq
      cases q with
      | ended r => exact .answer hq
      | ongoing k m => exact .answer hq
  | right =>
    refine (gallopLong_dialogue hnull .right hm).bind ?_ fun r => ⟨r, fun s lt => rfl⟩
    intro p hp
    cases p with
    | ended r => exact .answer hp
    | ongoing n m =>
      refine (gallopShort_dialogue hnull .right hp).bind ?_ fun r => ⟨r, fun s lt => rfl⟩
      intro q hq
      cases q with
      | ended r => exact .answer hq
      | ongoing k m => exact .answer hq

theorem run_dialogue (side : Side) : ∀ (fuel : Nat) (pace : Pace) {m : Merge}, m.Of P →
    Dialogue P (Merged.Done P) (Merged.halt (P := P)) fun lt => run lt side fuel pace m
  | 0, _, m, hm => .answer ⟨rfl, hm.finish⟩
  | fuel + 1, .single shortWins longWins, m, hm => by
    have hask := waitsFor_queries side (getD_of_forall hnull hm.long 0) (getD_of_forall hnull hm.short 0)
    refine hask.attempt.bind ?_ fun _ => ⟨(⟨_, hm.finish⟩, _), fun s lt => rfl⟩
    rintro _ ⟨longNext, rfl⟩
    cases longNext with
    | true =>
      have hsettle := settle_done (hm.moveLong 1) (longWins + 1)
      simp only [if_true]
      cases h : (m.moveLong 1).settle (longWins + 1) with
      | ended r =>
        rw [h] at hsettle
        exact .answer hsettle
      | ongoing wins m =>
        rw [h] at hsettle
        exact .ite (run_dialogue side fuel _ hsettle) (run_dialogue side fuel _ hsettle)
    | false =>
      have hsettle := settle_done (hm.moveShort 1) (shortWins + 1)
      simp only [Bool.false_eq_true, if_false]
      cases h : (m.moveShort 1).settle (shortWins + 1) with
      | ended r =>
        rw [h] at hsettle
        exact .answer hsettle
      | ongoing wins m =>
        rw [h] at hsettle
        exact .ite (run_dialogue side fuel _ hsettle) (run_dialogue side fuel _ hsettle)
  | fuel + 1, .galloping threshold, m, hm => by
    have hboth := gallopBoth_dialogue hnull side (m := { m with threshold := max 1 (threshold - 1) })
      ⟨hm.done, hm.short, hm.long⟩
    refine hboth.bind (fun p hp => ?_) fun r => ⟨r, fun s lt => rfl⟩
    cases p with
    | ended r => exact .answer hp
    | ongoing count m =>
      refine .ite (run_dialogue side fuel _ hp) (run_dialogue side fuel _ ?_)
      exact ⟨hp.done, hp.short, hp.long⟩

theorem start_dialogue (side : Side) (threshold : Nat) {short long : List Value}
    (hshort : ∀ v ∈ short, P v) (hlong : ∀ v ∈ long, P v) :
    Dialogue P (Merged.Done P) (Merged.halt (P := P)) fun lt => start lt side threshold short long := by
  have hm : (⟨[], short, long, threshold⟩ : Merge).Of P := ⟨by simp, hshort, hlong⟩
  have hsettle := settle_done (hm.moveLong 1) 0
  unfold start
  cases h : ((⟨[], short, long, threshold⟩ : Merge).moveLong 1).settle 0 with
  | ended r =>
    rw [h] at hsettle
    exact .answer hsettle
  | ongoing _ m =>
    rw [h] at hsettle
    exact run_dialogue hnull side _ _ hsettle

end Merge

section

include hnull

theorem mergeParts_dialogue (threshold : Nat) {a b : List Value} (ha : ∀ v ∈ a, P v)
    (hb : ∀ v ∈ b, P v) :
    Dialogue P (Merged.Done P) (Merged.halt (P := P)) fun lt => mergeParts lt threshold a b := by
  have hreverse {xs : List Value} (hxs : ∀ v ∈ xs, P v) : ∀ v ∈ xs.reverse, P v :=
    fun v hv => hxs v (List.mem_reverse.mp hv)
  refine .ite (Merge.start_dialogue hnull .left threshold ha hb) ?_
  refine (Merge.start_dialogue hnull .right threshold (hreverse hb) (hreverse ha)).bind ?_ ?_
  · exact fun r hr => .answer ⟨hr.1, hreverse hr.2⟩
  · exact fun r => ⟨(⟨_, hreverse r.1.2⟩, r.2), fun s lt => rfl⟩

theorem mergeRuns_dialogue (threshold : Nat) {a b : List Value} (ha : ∀ v ∈ a, P v)
    (hb : ∀ v ∈ b, P v) :
    Dialogue P (Merged.Done P) (Merged.halt (P := P)) fun lt => mergeRuns lt threshold a b := by
  have hab : ∀ v ∈ a ++ b, P v := List.forall_mem_append.mpr ⟨ha, hb⟩
  have hfront := gallop_queries hnull
    (fun x hx => waitsFor_queries .left (getD_of_forall hnull hb 0) hx) ha .left
  refine hfront.attempt.bind ?_ fun _ => ⟨(⟨a ++ b, hab⟩, threshold), fun s lt => rfl⟩
  rintro _ ⟨inPlace, rfl⟩
  dsimp only
  cases hlast : (a.drop inPlace).getLast? with
  | none => exact .answer ⟨rfl, hab⟩
  | some last =>
    have hmoving : ∀ v ∈ a.drop inPlace, P v := fun v hv => ha v (List.mem_of_mem_drop hv)
    have hback := gallop_queries hnull
      (fun x hx => waitsFor_queries .right (hmoving last (List.mem_of_getLast? hlast)) hx)
      (fun v hv => hb v (List.mem_reverse.mp hv)) .right
    refine hback.attempt.bind ?_ fun _ => ⟨(⟨a ++ b, hab⟩, threshold), fun s lt => rfl⟩
    rintro _ ⟨behind, rfl⟩
    refine .ite (.answer ⟨rfl, hab⟩) ?_
    have haround {xs : List Value} (hxs : ∀ v ∈ xs, P v) :
        ∀ v ∈ a.take inPlace ++ (xs ++ b.drop (b.length - behind)), P v := by
      refine List.forall_mem_append.mpr ⟨fun v hv => ha v (List.mem_of_mem_take hv), ?_⟩
      exact List.forall_mem_append.mpr ⟨hxs, fun v hv => hb v (List.mem_of_mem_drop hv)⟩
    refine (mergeParts_dialogue hnull threshold hmoving
      fun v hv => hb v (List.mem_of_mem_take hv)).bind ?_ ?_
    · exact fun r hr => .answer ⟨hr.1, haround hr.2⟩
    · exact fun r => ⟨(⟨_, haround r.1.2⟩, r.2), fun s lt => rfl⟩

/-! ### The pile of runs -/

end

/-- Runs of values that satisfy `P`. -/
def RunsOf (P : Value → Prop) (runs : List Run) : Prop := ∀ r ∈ runs, ∀ v ∈ r.items, P v

theorem RunsOf.items {runs : List Run} (h : RunsOf P runs) : ∀ v ∈ runItems runs, P v := by
  intro v hv
  obtain ⟨r, hr, hv⟩ := List.mem_flatMap.mp hv
  exact h r (List.mem_reverse.mp hr) v hv

/-- A pile of values that satisfy `P` whose comparison always had an answer. -/
def Pile.Done (P : Value → Prop) (p : Pile) : Prop := p.stop = none ∧ RunsOf P p.runs

/-- A pile whose comparison had no answer. -/
def Pile.halt (p : { runs : List Run // RunsOf P runs } × Nat) (s : Stop) : Pile :=
  ⟨p.1.1, p.2, some s⟩

section

include hnull

theorem mergeTop_dialogue (threshold : Nat) {top below : Run} (htop : ∀ v ∈ top.items, P v)
    (hbelow : ∀ v ∈ below.items, P v) :
    Dialogue P (fun r => r.2.2 = none ∧ ∀ v ∈ r.1.items, P v)
      (fun (r : { run : Run // ∀ v ∈ run.items, P v } × Nat) s => (r.1.1, r.2, some s)) fun lt =>
      mergeTop lt threshold top below := by
  refine (mergeRuns_dialogue hnull threshold hbelow htop).bind (fun r hr => .answer ⟨hr.1, hr.2⟩) ?_
  exact fun r => ⟨(⟨{ below with items := r.1.1 }, r.1.2⟩, r.2), fun s lt => rfl⟩

theorem mergeDeeper_dialogue (depth : Nat) : ∀ {rest : List Run} (threshold : Nat) {top : Run},
    (∀ v ∈ top.items, P v) → RunsOf P rest →
    Dialogue P (Pile.Done P) (Pile.halt (P := P)) fun lt => mergeDeeper lt depth threshold top rest
  | [], _, _, htop, hrest => .answer ⟨rfl, List.forall_mem_cons.mpr ⟨htop, hrest⟩⟩
  | below :: rest, threshold, top, htop, hruns => by
    obtain ⟨hbelow, hrest⟩ := List.forall_mem_cons.mp hruns
    refine .ite ?_ (.answer ⟨rfl, List.forall_mem_cons.mpr ⟨htop, hruns⟩⟩)
    refine (mergeTop_dialogue hnull threshold htop hbelow).bind ?_
      fun r => ⟨(⟨r.1.1 :: rest, List.forall_mem_cons.mpr ⟨r.1.2, hrest⟩⟩, r.2), fun s lt => rfl⟩
    rintro ⟨merged, threshold, _⟩ ⟨rfl, hmerged⟩
    exact mergeDeeper_dialogue depth threshold hmerged hrest

theorem Pile.add_dialogue (n : Nat) {p : Pile} (hp : p.Done P) {items : List Value}
    (hitems : ∀ v ∈ items, P v) :
    Dialogue P (Pile.Done P) (Pile.halt (P := P)) fun lt => p.add lt n items := by
  obtain ⟨runs, threshold, stop⟩ := p
  obtain ⟨hstop, hruns⟩ := hp
  cases runs with
  | nil => exact .answer ⟨hstop, List.forall_mem_cons.mpr ⟨hitems, hruns⟩⟩
  | cons top rest =>
    obtain ⟨htop, hrest⟩ := List.forall_mem_cons.mp hruns
    refine (mergeDeeper_dialogue hnull _ threshold htop hrest).bind (fun merged hm => ?_) fun r => ?_
    · obtain ⟨runs, threshold, stop⟩ := merged
      obtain ⟨hstop, hruns⟩ := hm
      cases runs with
      | nil => exact .answer ⟨hstop, List.forall_mem_cons.mpr ⟨hitems, hruns⟩⟩
      | cons first rest =>
        obtain ⟨hfirst, hrest⟩ := List.forall_mem_cons.mp hruns
        exact .answer ⟨hstop, List.forall_mem_cons.mpr ⟨hitems,
          List.forall_mem_cons.mpr ⟨hfirst, hrest⟩⟩⟩
    · obtain ⟨⟨runs, hruns⟩, threshold⟩ := r
      cases runs with
      | nil => exact ⟨(⟨_, List.forall_mem_cons.mpr ⟨hitems, hruns⟩⟩, threshold), fun s lt => rfl⟩
      | cons first rest =>
        obtain ⟨hfirst, hrest⟩ := List.forall_mem_cons.mp hruns
        exact ⟨(⟨⟨items, _, 0⟩ :: { first with depth := borderDepth n top items.length } :: rest,
          List.forall_mem_cons.mpr ⟨hitems, List.forall_mem_cons.mpr ⟨hfirst, hrest⟩⟩⟩, threshold),
          fun s lt => rfl⟩

end

theorem Pile.collapse_halt (lt : Comparison) (fuel : Nat)
    (p : { runs : List Run // RunsOf P runs } × Nat) (s : Stop) :
    (Pile.halt p s).collapse lt fuel = pure (.halt p s) := by
  cases fuel <;> rfl

section

include hnull

theorem Pile.collapse_dialogue : ∀ (fuel : Nat) {p : Pile}, p.Done P →
    Dialogue P (Pile.Done P) (Pile.halt (P := P)) fun lt => p.collapse lt fuel
  | 0, _, hp => .answer hp
  | fuel + 1, ⟨runs, threshold, _⟩, ⟨rfl, hruns⟩ => by
    match runs with
    | [] | [_] => exact .answer ⟨rfl, hruns⟩
    | [c, b] =>
      obtain ⟨hc, hb, hnil⟩ := List.forall_mem_cons.mp hruns |>.imp_right List.forall_mem_cons.mp
      refine (mergeTop_dialogue hnull threshold hc hb).bind ?_
        fun r => ⟨(⟨[r.1.1], List.forall_mem_cons.mpr ⟨r.1.2, hnil⟩⟩, r.2), fun s lt => rfl⟩
      rintro ⟨merged, threshold, _⟩ ⟨rfl, hmerged⟩
      exact .answer ⟨rfl, List.forall_mem_cons.mpr ⟨hmerged, hnil⟩⟩
    | c :: b :: a :: rest =>
      obtain ⟨hc, hb, ha, hrest⟩ := List.forall_mem_cons.mp hruns |>.imp_right fun h =>
        (List.forall_mem_cons.mp h).imp_right List.forall_mem_cons.mp
      have hmiddle {r : Run} (hr : ∀ v ∈ r.items, P v) : RunsOf P (c :: r :: rest) :=
        List.forall_mem_cons.mpr ⟨hc, List.forall_mem_cons.mpr ⟨hr, hrest⟩⟩
      have hfront {r : Run} (hr : ∀ v ∈ r.items, P v) : RunsOf P (r :: a :: rest) :=
        List.forall_mem_cons.mpr ⟨hr, List.forall_mem_cons.mpr ⟨ha, hrest⟩⟩
      refine .ite ?_ ?_
      · refine (mergeTop_dialogue hnull threshold hb ha).bind ?_
          fun r => ⟨(⟨_, hmiddle r.1.2⟩, r.2), fun s lt => collapse_halt lt fuel (⟨_, hmiddle r.1.2⟩, r.2) s⟩
        rintro ⟨merged, threshold, _⟩ ⟨rfl, hmerged⟩
        exact collapse_dialogue fuel ⟨rfl, hmiddle hmerged⟩
      · refine (mergeTop_dialogue hnull threshold hc hb).bind ?_
          fun r => ⟨(⟨_, hfront r.1.2⟩, r.2), fun s lt => collapse_halt lt fuel (⟨_, hfront r.1.2⟩, r.2) s⟩
        rintro ⟨merged, threshold, _⟩ ⟨rfl, hmerged⟩
        exact collapse_dialogue fuel ⟨rfl, hfront hmerged⟩

/-! ### The march over the elements -/

theorem takeRun_dialogue (least : Nat) {xs : List Value} (hxs : ∀ v ∈ xs, P v) :
    Dialogue P (fun r => r.2.2 = none ∧ (∀ v ∈ r.1, P v) ∧ ∀ v ∈ r.2.1, P v)
      (fun (r : Listed P × Listed P) s => (r.1.1, r.2.1, some s)) fun lt => takeRun lt least xs := by
  refine (frontRun_queries hxs).attempt.bind ?_ fun _ => ⟨(⟨xs, hxs⟩, ⟨[], by simp⟩), fun s lt => rfl⟩
  rintro _ ⟨⟨n, descending⟩, rfl⟩
  have hrest : ∀ v ∈ xs.drop (max n least), P v := fun v hv => hxs v (List.mem_of_mem_drop hv)
  have hrun : ∀ v ∈ (if descending then (xs.take n).reverse else xs.take n), P v := by
    intro v hv
    split at hv
    · exact hxs v (List.mem_of_mem_take (List.mem_reverse.mp hv))
    · exact hxs v (List.mem_of_mem_take hv)
  have hfill : ∀ v ∈ (xs.drop n).take (least - n), P v :=
    fun v hv => hxs v (List.mem_of_mem_drop (List.mem_of_mem_take hv))
  exact (insertAll_dialogue hnull hfill hrun).bind (fun r hr => .answer ⟨hr.1, hr.2, hrest⟩)
    fun items => ⟨(items, ⟨_, hrest⟩), fun s lt => rfl⟩

end

/-- A march whose comparison had no answer. -/
def March.halt (m : ({ runs : List Run // RunsOf P runs } × Nat) × Listed P) (s : Stop) : March :=
  ⟨.halt m.1 s, m.2.1⟩

theorem march_halt (lt : Comparison) (n least fuel : Nat)
    (m : ({ runs : List Run // RunsOf P runs } × Nat) × Listed P) (s : Stop) :
    march lt n least fuel (.halt m s) = pure (.halt m s) := by
  cases fuel with
  | zero => rfl
  | succ fuel => simp [march, March.halt, Pile.halt]

include hnull in
theorem march_dialogue (n least : Nat) : ∀ (fuel : Nat) {m : March}, m.pile.Done P →
    (∀ v ∈ m.rest, P v) →
    Dialogue P (fun m => m.pile.Done P ∧ ∀ v ∈ m.rest, P v) (March.halt (P := P))
      fun lt => march lt n least fuel m
  | 0, _, hm, hrest => .answer ⟨hm, hrest⟩
  | fuel + 1, m, hm, hrest => by
    refine .ite (.answer ⟨hm, hrest⟩) ?_
    refine (takeRun_dialogue hnull least hrest).bind ?_ fun r => ⟨((⟨m.pile.runs, hm.2⟩, m.pile.threshold),
      ⟨r.1.1 ++ r.2.1, List.forall_mem_append.mpr ⟨r.1.2, r.2.2⟩⟩), fun s lt => rfl⟩
    rintro ⟨items, rest, _⟩ ⟨rfl, hitems, hrest⟩
    refine (Pile.add_dialogue hnull n hm hitems).bind
      (fun pile hp => march_dialogue n least fuel hp hrest) ?_
    exact fun p => ⟨(p, ⟨rest, hrest⟩), fun s lt => march_halt lt n least fuel (p, ⟨rest, hrest⟩) s⟩

end Sorting

open Sorting in
/-- **A sort is a dialogue.** When its comparison has no answer, the sort ends
at once and hands back elements that do not depend on the stop. -/
theorem sortItems_dialogue {P : Value → Prop} (hnull : P .null) {xs : List Value}
    (hxs : ∀ v ∈ xs, P v) :
    Dialogue P (fun r => r.2 = none ∧ ∀ v ∈ r.1, P v) (fun (items : Listed P) s => (items.1, some s))
      fun lt => sortItems lt xs := by
  have hall {runs : List Run} (hruns : RunsOf P runs) {rest : List Value} (hrest : ∀ v ∈ rest, P v) :
      ∀ v ∈ runItems runs ++ rest, P v := List.forall_mem_append.mpr ⟨hruns.items, hrest⟩
  have hmarch := march_dialogue hnull xs.length (leastRun xs.length xs.length 0) xs.length
    (m := ⟨⟨[], Merge.leastGallop, none⟩, xs⟩) ⟨rfl, by simp [RunsOf]⟩ hxs
  refine hmarch.bind (fun m hm => ?_) fun m => ?_
  · refine (Pile.collapse_dialogue hnull xs.length hm.1).bind ?_ ?_
    · exact fun p hp => .answer ⟨hp.1, hall hp.2 hm.2⟩
    · exact fun p => ⟨⟨_, hall p.1.2 hm.2⟩, fun s lt => rfl⟩
  · refine ⟨⟨_, hall m.1.1.2 m.2.2⟩, fun s lt => ?_⟩
    show (do let pile ← (Pile.halt m.1 s).collapse lt xs.length; _) = _
    rw [Pile.collapse_halt, pure_bind]
    rfl

end RuleScript
