/-
# Cutting and joining texts

A text is cut at the leftmost occurrence of a piece, and what is behind that is cut
in the same way (`Cuts`). So occurrences do not overlap, one that starts inside the
one before is passed over, and pieces at the ends or next to each other leave empty
parts.

A cut can be read from its parts. With the piece between them they are the text
(`Cuts.intercalate`), no part contains the piece (`Cuts.lacks`), and the first one
ends where the piece is found (`Cuts.find?`). The other way round, what texts give
when they are joined may be cut elsewhere, as `a` and `ab` joined by `aa` are. This
cannot happen with a piece of one character that none of the texts contains
(`cuts_intercalate`).

Key definitions: `Leftmost`, `Cuts`.
Key theorems: `find?_eq_some_iff`, `find?_eq_none_iff`, `cut_eq_iff`,
`Cuts.intercalate`, `Cuts.lacks`, `cuts_intercalate`, `split_join_and_search_agree`.
-/
import RuleScript.Proofs.Library.Failure
import RuleScript.Proofs.Number.Nearest
import RuleScript.Proofs.Values.Delivery
import RuleScript.Proofs.Values.Results

namespace RuleScript

namespace Text

variable {piece cs front rest : List Char} {parts : List (List Char)} {k : Nat}

/-! ### Finding a piece -/

theorem isSome_dropPiece?_iff : ∀ {piece cs : List Char}, (dropPiece? piece cs).isSome = true ↔ piece <+: cs
  | [], cs => by simp [dropPiece?]
  | _ :: _, [] => by simp [dropPiece?]
  | p :: ps, c :: cs => by
    rw [dropPiece?, List.cons_prefix_cons]
    by_cases hpc : p = c
    · rw [if_pos hpc, isSome_dropPiece?_iff]
      simp [hpc]
    · simp [hpc]

/-- A piece stands in a text for the first time behind `front`, with `rest` behind it. -/
structure Leftmost (piece cs front rest : List Char) : Prop where
  eq : cs = front ++ (piece ++ rest)
  first : ∀ i < front.length, ¬piece <+: cs.drop i

/-- What the search finds is the least position at which the piece stands. -/
theorem find?_spec (piece : List Char) : ∀ cs : List Char,
    match find? piece cs with
    | some k => piece <+: cs.drop k ∧ ∀ i < k, ¬piece <+: cs.drop i
    | none => ∀ i, ¬piece <+: cs.drop i
  | [] => by
    cases piece with
    | nil => simp [find?]
    | cons p ps => simp [find?]
  | c :: cs => by
    have ih := find?_spec piece cs
    rw [find?]
    by_cases hhere : piece <+: c :: cs
    · rw [if_pos (isSome_dropPiece?_iff.mpr hhere)]
      exact ⟨hhere, fun i hi => absurd hi (Nat.not_lt_zero i)⟩
    · rw [if_neg (mt isSome_dropPiece?_iff.mp hhere)]
      cases hfind : find? piece cs with
      | none =>
        rw [hfind] at ih
        intro i
        cases i with
        | zero => exact hhere
        | succ i => exact ih i
      | some k =>
        rw [hfind] at ih
        refine ⟨ih.1, fun i hi => ?_⟩
        cases i with
        | zero => exact hhere
        | succ i => exact ih.2 i (Nat.lt_of_succ_lt_succ hi)

theorem infix_iff_exists_drop : piece <:+: cs ↔ ∃ i, piece <+: cs.drop i := by
  rw [List.infix_iff_prefix_suffix]
  constructor
  · rintro ⟨t, hstarts, hsuffix⟩
    exact ⟨_, by rwa [← List.suffix_iff_eq_drop.mp hsuffix]⟩
  · rintro ⟨i, hstarts⟩
    exact ⟨cs.drop i, hstarts, List.drop_suffix i cs⟩

/-- **A piece is not found where the text does not contain it.** -/
theorem find?_eq_none_iff : find? piece cs = none ↔ ¬piece <:+: cs := by
  have hspec := find?_spec piece cs
  rw [infix_iff_exists_drop, not_exists]
  cases hfind : find? piece cs with
  | none =>
    rw [hfind] at hspec
    exact ⟨fun _ => hspec, fun _ => rfl⟩
  | some k =>
    rw [hfind] at hspec
    exact ⟨fun hnone => (by cases hnone), fun hnone => absurd hspec.1 (hnone k)⟩

theorem Leftmost.find? (h : Leftmost piece cs front rest) : find? piece cs = some front.length := by
  have hspec := find?_spec piece cs
  have hhere : piece <+: cs.drop front.length := by
    rw [h.eq, List.drop_left]
    exact List.prefix_append piece rest
  cases hfind : Text.find? piece cs with
  | none =>
    rw [hfind] at hspec
    exact absurd hhere (hspec _)
  | some k =>
    rw [hfind] at hspec
    have hle : ¬front.length < k := fun hlt => hspec.2 _ hlt hhere
    have hge : ¬k < front.length := fun hlt => h.first _ hlt hspec.1
    rw [show k = front.length by omega]

/-- **What is found is the leftmost occurrence.** -/
theorem find?_eq_some_iff :
    find? piece cs = some k ↔ ∃ front rest, Leftmost piece cs front rest ∧ front.length = k := by
  constructor
  · intro hfind
    have hspec := find?_spec piece cs
    rw [hfind] at hspec
    obtain ⟨⟨rest, hrest⟩, hfirst⟩ := hspec
    have hlength : (cs.take k).length ≤ k := List.length_take_le k cs
    have hleft : Leftmost piece cs (cs.take k) rest :=
      ⟨by rw [hrest, List.take_append_drop], fun i hi => hfirst i (by omega)⟩
    have hfound := hleft.find?
    rw [hfind] at hfound
    exact ⟨_, rest, hleft, (Option.some.inj hfound).symm⟩
  · rintro ⟨front, rest, h, rfl⟩
    exact h.find?

/-! ### Cutting -/

/-- The parts of a text between the leftmost occurrences of a piece that do not
overlap. -/
inductive Cuts (piece : List Char) : List Char → List (List Char) → Prop
  | whole {cs : List Char} (h : ¬piece <:+: cs) : Cuts piece cs [cs]
  | cut {cs front rest : List Char} {parts : List (List Char)} (h : Leftmost piece cs front rest)
    (hrest : Cuts piece rest parts) : Cuts piece cs (front :: parts)

/-- What is to be passed over is dropped. -/
theorem cutFrom_skip (piece part : List Char) : ∀ (skip : Nat) (cs : List Char),
    cutFrom piece skip part cs = cutFrom piece 0 part (cs.drop skip)
  | 0, cs => rfl
  | skip + 1, [] => by simp [cutFrom]
  | skip + 1, c :: cs => by
    rw [cutFrom, cutFrom_skip piece part skip cs, List.drop_succ_cons]

/-- A text is cut where the piece is found, and then goes on behind the piece. -/
theorem cutFrom_eq (hpiece : piece ≠ []) : ∀ (cs part : List Char),
    cutFrom piece 0 part cs =
      match find? piece cs with
      | some k => (part.reverse ++ cs.take k) :: cut piece (cs.drop (k + piece.length))
      | none => [part.reverse ++ cs]
  | [], part => by
    have hnone : find? piece [] = none := by simp [find?, hpiece]
    rw [hnone]
    simp [cutFrom]
  | c :: cs, part => by
    have hlength : 0 < piece.length := List.length_pos_of_ne_nil hpiece
    rw [cutFrom, find?]
    split
    · obtain ⟨n, hn⟩ : ∃ n, piece.length = n + 1 := ⟨piece.length - 1, by omega⟩
      dsimp only
      rw [cutFrom_skip, ← cut, Nat.zero_add, List.take_zero, List.append_nil, hn, List.drop_succ_cons,
        Nat.add_sub_cancel]
    · rw [cutFrom_eq hpiece cs (c :: part)]
      cases find? piece cs with
      | none => simp
      | some k =>
        have hsucc : k + 1 + piece.length = k + piece.length + 1 := by omega
        simp [hsucc]

theorem cut_of_lacks (hpiece : piece ≠ []) (h : ¬piece <:+: cs) : cut piece cs = [cs] := by
  rw [cut, cutFrom_eq hpiece, find?_eq_none_iff.mpr h]
  rfl

theorem Leftmost.cut_eq (hpiece : piece ≠ []) (h : Leftmost piece cs front rest) :
    cut piece cs = front :: cut piece rest := by
  rw [cut, cutFrom_eq hpiece, h.find?]
  have hfront : cs.take front.length = front := by rw [h.eq, List.take_left]
  have hrest : cs.drop (front.length + piece.length) = rest := by
    rw [h.eq, ← List.append_assoc, ← List.length_append, List.drop_left]
  dsimp only
  rw [hfront, hrest]
  rfl

/-- **A text is cut at the leftmost occurrences that do not overlap.** -/
theorem cut_eq_iff (hpiece : piece ≠ []) : cut piece cs = parts ↔ Cuts piece cs parts := by
  constructor
  · rintro rfl
    have hcuts : ∀ (n : Nat) (cs : List Char), cs.length ≤ n → Cuts piece cs (cut piece cs) := by
      intro n
      induction n with
      | zero =>
        intro cs hn
        have hnil : cs = [] := List.eq_nil_of_length_eq_zero (by omega)
        have hnone : ¬piece <:+: cs := by
          rw [hnil, List.infix_nil]
          exact hpiece
        rw [cut_of_lacks hpiece hnone]
        exact .whole hnone
      | succ n ih =>
        intro cs hn
        by_cases h : piece <:+: cs
        · cases hfind : find? piece cs with
          | none => exact absurd h (find?_eq_none_iff.mp hfind)
          | some k =>
            obtain ⟨front, rest, hleft, -⟩ := find?_eq_some_iff.mp hfind
            have hlength : cs.length = front.length + (piece.length + rest.length) := by
              rw [hleft.eq, List.length_append, List.length_append]
            have hpos : 0 < piece.length := List.length_pos_of_ne_nil hpiece
            rw [hleft.cut_eq hpiece]
            exact .cut hleft (ih rest (by omega))
        · rw [cut_of_lacks hpiece h]
          exact .whole h
    exact hcuts cs.length cs (Nat.le_refl _)
  · intro h
    induction h with
    | whole h => exact cut_of_lacks hpiece h
    | cut h _ ih => rw [h.cut_eq hpiece, ih]

/-! ### What the parts tell -/

namespace Cuts

theorem ne_nil (h : Cuts piece cs parts) : parts ≠ [] := by cases h <;> simp

/-- **The parts with the piece between them are the text.** -/
theorem intercalate (h : Cuts piece cs parts) : piece.intercalate parts = cs := by
  induction h with
  | whole => exact List.intercalate_singleton
  | cut h hrest ih =>
    rw [List.intercalate_cons_of_ne_nil hrest.ne_nil, ih, List.append_assoc, h.eq]

/-- **No part contains the piece.** -/
theorem lacks (hpiece : piece ≠ []) (h : Cuts piece cs parts) : ∀ part ∈ parts, ¬piece <:+: part := by
  induction h with
  | whole h =>
    intro part hpart
    rwa [List.mem_singleton.mp hpart]
  | @cut cs front rest parts h hrest ih =>
    intro part hpart
    rcases List.mem_cons.mp hpart with rfl | hpart
    · intro hinside
      obtain ⟨i, hi⟩ := infix_iff_exists_drop.mp hinside
      have hlt : i < part.length := by
        by_contra hge
        rw [List.drop_eq_nil_of_le (Nat.le_of_not_lt hge), List.prefix_nil] at hi
        exact hpiece hi
      have hwhole : piece <+: cs.drop i := by
        rw [h.eq, List.drop_append_of_le_length (Nat.le_of_lt hlt)]
        exact hi.trans (List.prefix_append _ _)
      exact h.first i hlt hwhole
    · exact ih part hpart

/-- The first part ends where the piece is found; if there is no other part it is not
found at all. -/
theorem find? (h : Cuts piece cs parts) :
    (find? piece cs = none ∧ parts.length = 1) ∨
      ∃ part others, parts = part :: others ∧ others ≠ [] ∧ find? piece cs = some part.length := by
  cases h with
  | whole h => exact .inl ⟨find?_eq_none_iff.mpr h, rfl⟩
  | cut h hrest => exact .inr ⟨_, _, rfl, hrest.ne_nil, h.find?⟩

end Cuts

/-- **Texts without a character are what the text is cut into that they give with the
character between them.** -/
theorem cuts_intercalate {c : Char} : ∀ {parts : List (List Char)}, parts ≠ [] →
    (∀ part ∈ parts, c ∉ part) → Cuts [c] ([c].intercalate parts) parts
  | [part], _, hparts => by
    rw [List.intercalate_singleton]
    refine .whole fun hinside => ?_
    exact hparts part List.mem_cons_self (hinside.subset List.mem_cons_self)
  | part :: next :: others, _, hparts => by
    obtain ⟨hpart, hrest⟩ := List.forall_mem_cons.mp hparts
    refine .cut ⟨?_, fun i hi hstarts => ?_⟩ (cuts_intercalate (List.cons_ne_nil next others) hrest)
    · rw [List.intercalate_cons_cons, List.append_assoc]
    · rw [List.intercalate_cons_cons, List.append_assoc, List.drop_append_of_le_length (Nat.le_of_lt hi),
        List.drop_eq_getElem_cons hi, List.cons_append, List.cons_prefix_cons] at hstarts
      rw [hstarts.1] at hpart
      exact hpart (List.getElem_mem hi)

end Text

/-! ### The natives -/

/-- The texts that a text is split into: its parts between a separator, or its
characters if that is empty. -/
def splitTexts (text separator : String) : List String :=
  (if separator = "" then text.toList.map fun c => [c]
    else Text.cut separator.toList text.toList).map String.ofList

/-- The position at which a text is found in another as a number; `-1` if it is not. -/
def indexNumber (text search : String) : Float :=
  Number.ofInt (match Text.find? search.toList text.toList with | some k => k | none => -1)

theorem toList_splitTexts (text separator : String) : (splitTexts text separator).map String.toList =
    if separator = "" then text.toList.map fun c => [c] else Text.cut separator.toList text.toList := by
  simp [splitTexts]

/-- The parts between a separator. -/
theorem cuts_splitTexts {separator : String} (hseparator : separator ≠ "") (text : String) :
    Text.Cuts separator.toList text.toList ((splitTexts text separator).map String.toList) := by
  have hpiece : separator.toList ≠ [] := by simpa using hseparator
  rw [toList_splitTexts, if_neg hseparator]
  exact (Text.cut_eq_iff hpiece).mp rfl

theorem intercalate_chars : ∀ cs : List Char, [].intercalate (cs.map fun c => [c]) = cs
  | [] => rfl
  | [_] => rfl
  | c :: d :: cs => congrArg (c :: ·) (intercalate_chars (d :: cs))

/-- **The parts of a text are put together again with the separator.** -/
theorem join_splitTexts (text separator : String) : Text.join separator (splitTexts text separator) = text := by
  rw [← String.toList_inj, Text.join, String.toList_intercalate]
  by_cases hempty : separator = ""
  · rw [toList_splitTexts, if_pos hempty, hempty]
    exact intercalate_chars text.toList
  · exact (cuts_splitTexts hempty text).intercalate

/-- **What texts without a character give with the character between them is split into
the texts.** -/
theorem splitTexts_join {c : Char} {texts : List String} (hne : texts ≠ [])
    (htexts : ∀ t ∈ texts, c ∉ t.toList) :
    splitTexts (Text.join (String.singleton c) texts) (String.singleton c) = texts := by
  have hseparator : String.singleton c ≠ "" := by simp
  have hcuts : Text.Cuts [c] (Text.join (String.singleton c) texts).toList (texts.map String.toList) := by
    rw [Text.join, String.toList_intercalate, String.toList_singleton]
    refine Text.cuts_intercalate (by simpa using hne) fun part hpart => ?_
    obtain ⟨t, ht, rfl⟩ := List.mem_map.mp hpart
    exact htexts t ht
  rw [splitTexts, if_neg hseparator, String.toList_singleton,
    (Text.cut_eq_iff (List.cons_ne_nil c [])).mpr hcuts]
  simp

/-- A position is another number than `-1`. -/
theorem ofInt_ne_neg_one (k : Nat) : Number.ofInt k ≠ Number.ofInt (-1) := by
  intro heq
  have hposition := Number.ofInt_nearest k
  have hnegative := Number.ofInt_nearest (-1)
  have hsign : ¬(k : Int) < 0 := by omega
  rw [heq, decide_eq_false hsign] at hposition
  rw [decide_eq_true (by decide)] at hnegative
  generalize Number.decode (Number.ofInt (-1)) = x at hposition hnegative
  cases hposition <;> cases hnegative

section Natives

variable (s : Site) {m : Machine} {a : ArrayRef}

theorem callNative_split (text separator : String) (m : Machine) :
    HandsStrings (splitTexts text separator) m
      (callNative s StringOp.split.native [.string text, .string separator] m) := by
  let texts := splitTexts text separator
  have hproduct (parts : List (List Char)) :
      textsProduct parts = listProduct ((parts.map String.ofList).map .string) := by
    simp [textsProduct, listProduct]
  have hrun : StringOp.split.native.operation.run s [.string text, .string separator] m =
      (.ok (listProduct (texts.map .string)), m) := by
    have hbranch : StringOp.split.native.operation.run s [.string text, .string separator] m =
        (if separator = "" then pure (textsProduct (text.toList.map fun c => [c]))
          else pure (textsProduct (Text.cut separator.toList text.toList)) : Eval Product) m := rfl
    rw [hbranch]
    by_cases hempty : separator = ""
    · rw [if_pos hempty, hproduct]
      simp only [texts, splitTexts, if_pos hempty]
      rfl
    · rw [if_neg hempty, hproduct]
      simp only [texts, splitTexts, if_neg hempty]
      rfl
  rw [callNative_of_ok rfl hrun]
  exact receive_handsStrings s _ texts m

theorem callNative_join {texts : List String} (separator : String) (hitems : m.heap.items a = texts.map .string) :
    callNative s StringOp.join.native [.array a, .string separator] m =
      (.ok (.string (Text.join separator texts)), m) := by
  have hstrings : (texts.map Value.string).mapM (s.string "strings to join") = (pure texts : Eval _) := by
    clear hitems
    induction texts with
    | nil => rw [List.map_nil, List.mapM_nil]
    | cons t texts ih =>
      rw [List.map_cons, List.mapM_cons, ih]
      rfl
  have hrun : StringOp.join.native.operation.run s [.array a, .string separator] m =
      ((m.heap.items a).mapM (s.string "strings to join") >>= fun parts =>
        pure (.value (.string (Text.join separator parts))) : Eval Product) m := rfl
  rw [hitems, hstrings, pure_bind] at hrun
  rw [callNative_of_ok rfl hrun]
  rfl

theorem callNative_indexOf (text search : String) (m : Machine) :
    callNative s StringOp.indexOf.native [.string text, .string search] m =
      (.ok (.number (indexNumber text search)), m) := rfl

end Natives

/-- **Splitting, joining and searching agree.** A text that is split at a separator, also
at the empty one, is joined with it to the text again. If the separator is not empty, no
part contains it, and the search for it gives `-1` exactly if there is one part, and
otherwise the length of the first part. An array of texts, at least one, that do not
contain a character is what the text is split into at the character that they are joined
to with it. -/
theorem split_join_and_search_agree (s : Site) :
    (∀ (text separator : String) (m : Machine),
      let parts := splitTexts text separator
      HandsStrings parts m
        (callNative s StringOp.split.native [.string text, .string separator] m) ∧
      (∀ (a : ArrayRef) (m' : Machine), m'.heap.items a = parts.map .string →
        callNative s StringOp.join.native [.array a, .string separator] m' = (.ok (.string text), m')) ∧
      (separator ≠ "" → ∃ x : Float,
        callNative s StringOp.indexOf.native [.string text, .string separator] m = (.ok (.number x), m) ∧
        (x = Number.ofInt (-1) ↔ parts.length = 1) ∧
        (x ≠ Number.ofInt (-1) → ∃ first, parts.head? = some first ∧ x = Number.ofInt first.length) ∧
        ∀ part ∈ parts, ¬separator.toList <:+: part.toList)) ∧
    ∀ (c : Char) (texts : List String), texts ≠ [] → (∀ t ∈ texts, c ∉ t.toList) →
      ∀ (a : ArrayRef) (m : Machine), m.heap.items a = texts.map .string → ∃ text,
        callNative s StringOp.join.native [.array a, .string (String.singleton c)] m =
          (.ok (.string text), m) ∧
        ∀ m', HandsStrings texts m'
          (callNative s StringOp.split.native [.string text, .string (String.singleton c)] m') := by
  refine ⟨fun text separator m => ?_, fun c texts hne htexts a m hitems => ?_⟩
  · refine ⟨callNative_split s text separator m, fun a m' hitems => ?_,
      fun hseparator => ⟨_, callNative_indexOf s text separator m, ?_⟩⟩
    · rw [callNative_join s separator hitems, join_splitTexts]
    · have hcuts := cuts_splitTexts hseparator text
      have hpiece : separator.toList ≠ [] := by simpa using hseparator
      have hlacks : ∀ part ∈ splitTexts text separator, ¬separator.toList <:+: part.toList :=
        fun part hpart => hcuts.lacks hpiece _ (List.mem_map_of_mem hpart)
      unfold indexNumber
      rcases hcuts.find? with ⟨hnone, hone⟩ | ⟨first, others, hparts, hothers, hsome⟩
      · rw [List.length_map] at hone
        rw [hnone]
        exact ⟨⟨fun _ => hone, fun _ => rfl⟩, fun hne => absurd rfl hne, hlacks⟩
      · obtain ⟨t, ts, hsplit, rfl, rfl⟩ := List.map_eq_cons_iff.mp hparts
        have hmore : (t :: ts).length ≠ 1 := by simpa using hothers
        rw [hsplit] at hlacks
        rw [hsome, hsplit]
        refine ⟨⟨fun heq => absurd heq (ofInt_ne_neg_one _), fun hone => absurd hone hmore⟩,
          fun _ => ⟨t, rfl, ?_⟩, hlacks⟩
        rw [← String.length_toList]
  · refine ⟨_, callNative_join s _ hitems, fun m' => ?_⟩
    have hsplit := callNative_split s (Text.join (String.singleton c) texts) (String.singleton c) m'
    rwa [splitTexts_join hne htexts] at hsplit

/-- Occurrences that overlap: `aaa` is cut at the first `aa`, with an empty part before it.
The same two parts are found again between commas. -/
theorem split_join_and_search_agree_overlapping :
    let s : Site := ⟨Engine.exhausted, ⟨⟨0⟩, "", ⟨none, "", false, .usual⟩⟩, ⟨some 1, some 1, 0⟩⟩
    let m : Machine := .ofArrays [[.string "", .string "a"]]
    HandsStrings ["", "a"] m (callNative s StringOp.split.native [.string "aaa", .string "aa"] m) ∧
      callNative s StringOp.join.native [.array ⟨0⟩, .string "aa"] m = (.ok (.string "aaa"), m) ∧
      callNative s StringOp.indexOf.native [.string "aaa", .string "aa"] m =
        (.ok (.number (Number.ofInt 0)), m) ∧
      ∃ text, callNative s StringOp.join.native [.array ⟨0⟩, .string ","] m = (.ok (.string text), m) ∧
        HandsStrings ["", "a"] m (callNative s StringOp.split.native [.string text, .string ","] m) := by
  intro s m
  have hparts : splitTexts "aaa" "aa" = ["", "a"] := by decide +kernel
  obtain ⟨hlaws, hsingle⟩ := split_join_and_search_agree s
  obtain ⟨hsplit, hjoin, hsearch⟩ := hlaws "aaa" "aa" m
  rw [hparts] at hsplit hjoin hsearch
  obtain ⟨x, hindex, hone, hfirst, -⟩ := hsearch (by decide)
  have hne : x ≠ Number.ofInt (-1) := fun heq => absurd (hone.mp heq) (by decide)
  obtain ⟨first, hhead, rfl⟩ := hfirst hne
  obtain rfl : "" = first := Option.some.inj hhead
  obtain ⟨text, hjoined, hagain⟩ :=
    hsingle ',' ["", "a"] (List.cons_ne_nil _ _) (by decide) ⟨0⟩ m rfl
  exact ⟨hsplit, hjoin ⟨0⟩ m rfl, hindex, text, hjoined, hagain m⟩

end RuleScript
