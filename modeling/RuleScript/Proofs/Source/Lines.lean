/-
# Lines as they count and lines as they are displayed

For the position of a node only a line feed ends a line. A display cuts the
text at every line break: at form feeds, information separators and carriage
returns too, where a carriage return and the line feed after it are one break.

Both cut a text alike as long as its lines are whole (`Whole`), which is to say
that a break stands in them only as the carriage return before the line feed.
A line that is not whole is displayed as several, and from there on the
displayed lines are ahead.

Key definitions: `fed`, `shownPart`, `Whole`, `LineAt`.
Key theorems: `linesFrom_fed`, `lt_length_linesFrom`, `exists_lineAt`,
`LineAt.shown`, `LineAt.shown_above`.
-/
import Mathlib.Data.List.Induction
import RuleScript.Proofs.Source.Scanning

namespace RuleScript.Text

/-- Lines, each with the line feed that ends it. -/
def fed (ls : List (List Char)) : List Char := ls.flatMap (· ++ ['\n'])

/-- What a display shows of a line: the line up to its first break. -/
def shownPart (l : List Char) : List Char := l.takeWhile (!isLineBreak ·)

/-- A line that a display does not cut: it has no break, but for a carriage
return that joins the line feed. -/
def Whole (l : List Char) : Prop := l = shownPart l ∨ l = shownPart l ++ ['\r']

theorem fed_cons (l : List Char) (ls : List (List Char)) : fed (l :: ls) = l ++ '\n' :: fed ls := by
  simp [fed]

theorem fed_concat (ls : List (List Char)) (l : List Char) :
    fed (ls ++ [l]) = fed ls ++ (l ++ ['\n']) := by
  simp [fed]

theorem length_le_count_fed : ∀ ls : List (List Char), ls.length ≤ (fed ls).count '\n'
  | [] => Nat.zero_le _
  | l :: ls => by
    have hrest := length_le_count_fed ls
    rw [fed_cons, List.count_append, List.count_cons_self, List.length_cons]
    omega

/-! ### Cutting at breaks -/

theorem isLineBreak_feed : isLineBreak '\n' = true := by simp [isLineBreak, inRanges]

theorem isLineBreak_return : isLineBreak '\r' = true := by simp [isLineBreak, inRanges]

/-- A break ends the line, unless it is a carriage return that joins a line
feed. -/
theorem linesFrom_break {c : Char} (hc : isLineBreak c = true) {cs : List Char}
    (hjoin : c = '\r' → cs.head? ≠ some '\n') (line : List Char) :
    linesFrom line (c :: cs) = line.reverse :: linesFrom [] cs := by
  rw [linesFrom, if_pos hc]
  rintro rest rfl rfl
  exact hjoin rfl rfl

theorem linesFrom_feed (line cs : List Char) :
    linesFrom line ('\n' :: cs) = line.reverse :: linesFrom [] cs :=
  linesFrom_break isLineBreak_feed (by rintro ⟨⟩) line

theorem linesFrom_return_feed (line cs : List Char) :
    linesFrom line ('\r' :: '\n' :: cs) = line.reverse :: linesFrom [] cs := by
  rw [linesFrom]

/-- In any case the line before a break is done. -/
theorem exists_linesFrom_break {c : Char} (hc : isLineBreak c = true) (line cs : List Char) :
    ∃ more, linesFrom line (c :: cs) = line.reverse :: more := by
  by_cases hjoin : c = '\r' ∧ cs.head? = some '\n'
  · obtain ⟨rfl, hhead⟩ := hjoin
    obtain ⟨rest, rfl⟩ := List.head?_eq_some_iff.mp hhead
    exact ⟨_, linesFrom_return_feed line rest⟩
  · exact ⟨_, linesFrom_break hc (not_and.mp hjoin) line⟩

/-- Other characters are collected. -/
theorem linesFrom_other {c : Char} (hc : isLineBreak c = false) (line cs : List Char) :
    linesFrom line (c :: cs) = linesFrom (c :: line) cs := by
  rw [linesFrom, if_neg (by simp [hc])]
  rintro _ rfl -
  rw [isLineBreak_return] at hc
  cases hc

theorem linesFrom_unbroken : ∀ {cs : List Char}, (∀ c ∈ cs, isLineBreak c = false) →
    ∀ line rest : List Char, linesFrom line (cs ++ rest) = linesFrom (cs.reverse ++ line) rest
  | [], _, _, _ => rfl
  | c :: cs, h, line, rest => by
    obtain ⟨hc, hcs⟩ := List.forall_mem_cons.mp h
    rw [List.cons_append, linesFrom_other hc, linesFrom_unbroken hcs, List.reverse_cons,
      List.append_assoc, List.singleton_append]

/-- What comes after a line feed is cut on its own. -/
theorem linesFrom_append_feed (line cs rest : List Char) :
    linesFrom line (cs ++ '\n' :: rest) = linesFrom line (cs ++ ['\n']) ++ linesFrom [] rest := by
  fun_induction linesFrom line cs with
  | case1 line hline => simp [linesFrom_feed, linesFrom]
  | case2 line hline => simp [linesFrom_feed, linesFrom]
  | case3 line cs ih =>
    simp only [List.cons_append, linesFrom_return_feed, ih]
  | case4 line c cs hjoin hc ih =>
    -- a carriage return at the end joins the line feed that is put behind it
    cases cs with
    | nil =>
      by_cases hreturn : c = '\r'
      · subst hreturn
        simp [linesFrom_return_feed, linesFrom]
      · simp only [List.cons_append, List.nil_append] at ih ⊢
        rw [linesFrom_break hc (fun h => absurd h hreturn), linesFrom_break hc (fun h => absurd h hreturn),
          ih, List.cons_append]
    | cons d cs =>
      have hd (more : List Char) (h : c = '\r') : (d :: more).head? ≠ some '\n' := by
        intro hhead
        obtain rfl : d = '\n' := by simpa using hhead
        exact hjoin cs h rfl
      simp only [List.cons_append] at ih ⊢
      rw [linesFrom_break hc (hd _), linesFrom_break hc (hd _), ih, List.cons_append]
  | case5 line c cs hjoin hc ih =>
    have hc : isLineBreak c = false := Bool.eq_false_iff.mpr hc
    rw [List.cons_append, List.cons_append, linesFrom_other hc, linesFrom_other hc, ih]

/-- Each line feed ends a line. -/
theorem count_le_length_linesFrom (line cs : List Char) :
    cs.count '\n' ≤ (linesFrom line cs).length := by
  fun_induction linesFrom line cs with
  | case1 line hline => exact Nat.zero_le _
  | case2 line hline => exact Nat.zero_le _
  | case3 line cs ih =>
    rw [List.count_cons_of_ne (by decide), List.count_cons_self, List.length_cons]
    exact Nat.succ_le_succ ih
  | case4 line c cs hjoin hc ih =>
    rw [List.count_cons, List.length_cons]
    split <;> omega
  | case5 line c cs hjoin hc ih =>
    rwa [List.count_cons_of_ne]
    rintro rfl
    exact hc isLineBreak_feed

/-! ### Lines that are whole and lines that are not -/

theorem shownPart_append (l : List Char) : shownPart l ++ l.dropWhile (!isLineBreak ·) = l :=
  List.takeWhile_append_dropWhile

theorem shownPart_unbroken (l : List Char) : ∀ c ∈ shownPart l, isLineBreak c = false := by
  intro c hc
  simpa using List.mem_takeWhile_imp hc

/-- A line without breaks is whole and shown as it is. -/
theorem shownPart_of_unbroken {l : List Char} (h : ∀ c ∈ l, isLineBreak c = false) :
    shownPart l = l := List.takeWhile_eq_self_iff.mpr fun c hc => by simp [h c hc]

/-- Where a line is not shown to its end, a break stands. -/
theorem shownPart_cases (l : List Char) : l = shownPart l ∨
    ∃ c d, isLineBreak c = true ∧ l = shownPart l ++ c :: d := by
  cases hd : l.dropWhile (!isLineBreak ·) with
  | nil =>
    left
    simpa [hd] using (shownPart_append l).symm
  | cons c d =>
    right
    refine ⟨c, d, ?_, by simpa [hd] using (shownPart_append l).symm⟩
    have hhead := List.head?_dropWhile_not (!isLineBreak ·) l
    rw [hd] at hhead
    simpa using hhead

/-- A whole line is shown but for its carriage return. -/
theorem Whole.getElem?_shownPart {l : List Char} (hl : Whole l) {j : Nat} {c : Char} (hj : l[j]? = some c)
    (hc : isSpace c = false) : (shownPart l)[j]? = some c := by
  rcases hl with hl | hl
  · rwa [← hl]
  · rw [hl, List.getElem?_append] at hj
    split at hj
    · exact hj
    · obtain rfl : '\r' = c := List.mem_singleton.mp (List.mem_of_getElem? hj) ▸ rfl
      simp [isSpace, inRanges, spaceRanges] at hc

theorem linesFrom_shownPart (l rest : List Char) :
    linesFrom [] (shownPart l ++ rest) = linesFrom (shownPart l).reverse rest := by
  rw [linesFrom_unbroken (shownPart_unbroken l), List.append_nil]

/-- A line that is whole is displayed as one. -/
theorem linesFrom_whole {l : List Char} (hl : Whole l) (rest : List Char) :
    linesFrom [] (l ++ '\n' :: rest) = shownPart l :: linesFrom [] rest := by
  rcases hl with hl | hl
  · calc linesFrom [] (l ++ '\n' :: rest)
        = linesFrom [] (shownPart l ++ '\n' :: rest) := by rw [← hl]
      _ = shownPart l :: linesFrom [] rest := by
        rw [linesFrom_shownPart, linesFrom_feed, List.reverse_reverse]
  · calc linesFrom [] (l ++ '\n' :: rest)
        = linesFrom [] (shownPart l ++ '\r' :: '\n' :: rest) := by
          conv_lhs => rw [hl]
          rw [List.append_assoc, List.singleton_append]
      _ = shownPart l :: linesFrom [] rest := by
        rw [linesFrom_shownPart, linesFrom_return_feed, List.reverse_reverse]

/-- A line that is not whole is displayed as more than one. -/
theorem linesFrom_not_whole {l : List Char} (hfeed : '\n' ∉ l) (hl : ¬Whole l) (rest : List Char) :
    ∃ d, linesFrom [] (l ++ '\n' :: rest) = shownPart l :: linesFrom [] (d ++ '\n' :: rest) := by
  rcases shownPart_cases l with heq | ⟨c, d, hc, heq⟩
  · exact absurd (.inl heq) hl
  refine ⟨d, ?_⟩
  have hjoin : c = '\r' → (d ++ '\n' :: rest).head? ≠ some '\n' := by
    rintro rfl
    cases d with
    | nil => exact absurd (.inr heq) hl
    | cons e d =>
      intro hhead
      obtain rfl : e = '\n' := by simpa using hhead
      exact hfeed (heq ▸ by simp)
  calc linesFrom [] (l ++ '\n' :: rest)
      = linesFrom [] (shownPart l ++ c :: (d ++ '\n' :: rest)) := by
        conv_lhs => rw [heq]
        rw [List.append_assoc, List.cons_append]
    _ = shownPart l :: linesFrom [] (d ++ '\n' :: rest) := by
      rw [linesFrom_shownPart, linesFrom_break hc hjoin, List.reverse_reverse]

/-- What a display shows first is the first line up to its first break. -/
theorem exists_linesFrom {l below : List Char} (hl : l ≠ []) (hbelow : ∀ c ∈ below.head?, c = '\n') :
    ∃ more, linesFrom [] (l ++ below) = shownPart l :: more := by
  rcases shownPart_cases l with heq | ⟨c, d, hc, heq⟩
  · have hcut : linesFrom [] (l ++ below) = linesFrom (shownPart l).reverse below := by
      conv_lhs => rw [heq]
      exact linesFrom_shownPart l below
    rw [hcut]
    cases below with
    | nil =>
      have hne : (shownPart l).reverse.isEmpty = false := by simpa [← heq] using hl
      exact ⟨[], by simp [linesFrom, hne]⟩
    | cons c below =>
      obtain rfl : c = '\n' := hbelow c rfl
      exact ⟨_, by rw [linesFrom_feed, List.reverse_reverse]⟩
  · obtain ⟨more, hmore⟩ := exists_linesFrom_break hc (shownPart l).reverse (d ++ below)
    refine ⟨more, ?_⟩
    calc linesFrom [] (l ++ below)
        = linesFrom [] (shownPart l ++ c :: (d ++ below)) := by
          conv_lhs => rw [heq]
          rw [List.append_assoc, List.cons_append]
      _ = shownPart l :: more := by rw [linesFrom_shownPart, hmore, List.reverse_reverse]

/-! ### Lines above a line -/

/-- Lines that have ended are cut on their own. -/
theorem linesFrom_fed : ∀ (ls : List (List Char)) (cs : List Char),
    linesFrom [] (fed ls ++ cs) = linesFrom [] (fed ls) ++ linesFrom [] cs
  | [], cs => by simp [fed, linesFrom]
  | l :: ls, cs => by
    rw [fed_cons, List.append_assoc, List.cons_append, linesFrom_append_feed, linesFrom_fed ls cs,
      linesFrom_append_feed [] l (fed ls), List.append_assoc]

/-- Whole lines are displayed one for one. -/
theorem linesFrom_fed_whole : ∀ {ls : List (List Char)}, (∀ l ∈ ls, Whole l) →
    linesFrom [] (fed ls) = ls.map shownPart
  | [], _ => by simp [fed, linesFrom]
  | l :: ls, h => by
    obtain ⟨hl, hls⟩ := List.forall_mem_cons.mp h
    rw [fed_cons, linesFrom_whole hl, linesFrom_fed_whole hls, List.map_cons]

theorem length_le_linesFrom (line cs : List Char) (ls : List (List Char)) :
    ls.length < (linesFrom line (cs ++ '\n' :: fed ls)).length := by
  have hfeeds := count_le_length_linesFrom line (cs ++ '\n' :: fed ls)
  rw [List.count_append, List.count_cons_self] at hfeeds
  have hls := length_le_count_fed ls
  omega

/-- As soon as one of them is not whole there are more lines displayed. -/
theorem lt_length_linesFrom : ∀ {ls : List (List Char)}, (∀ l ∈ ls, '\n' ∉ l) →
    (¬∀ l ∈ ls, Whole l) → ls.length < (linesFrom [] (fed ls)).length
  | [], _, h => absurd (by simp) h
  | l :: ls, hfeed, h => by
    obtain ⟨hl, hls⟩ := List.forall_mem_cons.mp hfeed
    rw [fed_cons, List.length_cons]
    by_cases hwhole : Whole l
    · rw [linesFrom_whole hwhole, List.length_cons]
      refine Nat.succ_lt_succ (lt_length_linesFrom hls fun hall => h ?_)
      exact List.forall_mem_cons.mpr ⟨hwhole, hall⟩
    · obtain ⟨d, hd⟩ := linesFrom_not_whole hl hwhole (fed ls)
      rw [hd, List.length_cons]
      exact Nat.succ_lt_succ (length_le_linesFrom [] d ls)

theorem splitOn_fed : ∀ {ls : List (List Char)}, (∀ l ∈ ls, '\n' ∉ l) → ∀ cs : List Char,
    (fed ls ++ cs).splitOn '\n' = ls ++ cs.splitOn '\n'
  | [], _, _ => rfl
  | l :: ls, h, cs => by
    obtain ⟨hl, hls⟩ := List.forall_mem_cons.mp h
    rw [fed_cons, List.append_assoc, List.cons_append, List.splitOn_append_cons_self_of_not_mem hl,
      splitOn_fed hls, List.cons_append]

/-! ### A line of a text -/

/-- A text with one of its lines, what is above it and what is below it. -/
structure LineAt (cs : List Char) (above : List (List Char)) (line below : List Char) : Prop where
  text : cs = fed above ++ (line ++ below)
  above_feed : ∀ l ∈ above, '\n' ∉ l
  line_feed : '\n' ∉ line
  below_feed : ∀ c ∈ below.head?, c = '\n'

/-- What stands before a place in a text: lines that have ended, one for each
line feed, and the begin of a line. -/
theorem exists_fed_append (before : List Char) : ∃ above left,
    before = fed above ++ left ∧ (∀ l ∈ above, '\n' ∉ l) ∧ '\n' ∉ left ∧
      above.length = before.count '\n' ∧
      left.length = (before.reverse.takeWhile (· ≠ '\n')).length := by
  induction before using List.reverseRecOn with
  | nil => exact ⟨[], [], rfl, by simp, by simp, rfl, rfl⟩
  | append_singleton before c ih =>
    obtain ⟨above, left, hbefore, habove, hleft, hlength, hcolumn⟩ := ih
    by_cases hc : c = '\n'
    · subst hc
      refine ⟨above ++ [left], [], ?_, ?_, by simp, by simp [hlength], by simp⟩
      · rw [hbefore, fed_concat, List.append_nil, List.append_assoc]
      · exact List.forall_mem_append.mpr ⟨habove, List.forall_mem_singleton.mpr hleft⟩
    · refine ⟨above, left ++ [c], ?_, habove, by simp [hleft, Ne.symm hc], ?_, ?_⟩
      · rw [hbefore, List.append_assoc]
      · simp [hlength, List.count_append, hc]
      · simp [hcolumn, hc]

/-- **Every place in a text is on a line.** Its number counts the line feeds
before it, and it is as far into the line as behind the last of them. -/
theorem exists_lineAt (before rest : List Char) : ∃ above left below,
    LineAt (before ++ rest) above (left ++ rest.takeWhile (· ≠ '\n')) below ∧
      above.length = before.count '\n' ∧
      left.length = (before.reverse.takeWhile (· ≠ '\n')).length := by
  obtain ⟨above, left, hbefore, habove, hleft, hlength, hcolumn⟩ := exists_fed_append before
  refine ⟨above, left, rest.dropWhile (· ≠ '\n'), ⟨?_, habove, ?_, ?_⟩, hlength, hcolumn⟩
  · rw [List.append_assoc, List.takeWhile_append_dropWhile, ← List.append_assoc, ← hbefore]
  · rw [List.mem_append, not_or]
    refine ⟨hleft, fun h => ?_⟩
    simpa using List.mem_takeWhile_imp h
  · intro c hc
    have hhead := List.head?_dropWhile_not (· ≠ '\n') rest
    rw [hc] at hhead
    simpa using hhead

namespace LineAt

variable {cs : List Char} {above : List (List Char)} {line below : List Char}
  (h : LineAt cs above line below)

include h

/-- It is the line that its number says. -/
theorem splitOn : ∃ more, cs.splitOn '\n' = above ++ line :: more := by
  have hline : ∃ more, (line ++ below).splitOn '\n' = line :: more := by
    cases below with
    | nil => exact ⟨[], by rw [List.append_nil, List.splitOn_eq_singleton h.line_feed]⟩
    | cons c below =>
      obtain rfl : c = '\n' := h.below_feed c rfl
      exact ⟨_, List.splitOn_append_cons_self_of_not_mem h.line_feed _⟩
  obtain ⟨more, hmore⟩ := hline
  exact ⟨more, by rw [h.text, splitOn_fed h.above_feed, hmore]⟩

/-- Under whole lines its first part is displayed under its number. -/
theorem shown (hline : line ≠ []) (hwhole : ∀ l ∈ above, Whole l) :
    (linesFrom [] cs)[above.length]? = some (shownPart line) := by
  obtain ⟨more, hmore⟩ := exists_linesFrom hline h.below_feed
  rw [h.text, linesFrom_fed, linesFrom_fed_whole hwhole, hmore, List.getElem?_append_right (by simp)]
  simp

/-- Otherwise what is displayed under its number stands above it. -/
theorem shown_above (hwhole : ¬∀ l ∈ above, Whole l) :
    ∃ l ∈ linesFrom [] (fed above), (linesFrom [] cs)[above.length]? = some l := by
  have hlt := lt_length_linesFrom h.above_feed hwhole
  refine ⟨_, List.getElem_mem hlt, ?_⟩
  rw [h.text, linesFrom_fed, List.getElem?_append_left hlt, List.getElem?_eq_getElem hlt]

/-- A form feed above a line: the line is the second, and is displayed third. -/
example : (['\x0c', '\n', 'x'].splitOn '\n')[1]? = some ['x'] ∧
    linesFrom [] ['\x0c', '\n', 'x'] = [[], [], ['x']] := by decide +kernel

end LineAt

end RuleScript.Text
