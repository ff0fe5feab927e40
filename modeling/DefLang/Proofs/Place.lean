import DefLang.Text.Place

/-!
# Lines and places

`IsLine cs above line` says that `line` is a line of `cs` and that `above` is all in front of it.
`Trims line shown` says that `shown` is `line` without the carriage returns at its end.

The lines of a text are what line feeds separate (`textLines`), and each begins behind the line feed
of the one before it (`lineStart`). The place at an offset cuts the line around this offset in two,
and the line is shown trimmed. What a line begins with is shown in full unless it ends in a carriage
return.
-/

namespace DefLang

/-- A line of a text stands between line feeds or at an end of the text. -/
structure IsLine (cs above line : List Char) : Prop where
  above_eq : above = [] ∨ above.getLast? = some '\n'
  not_mem : '\n' ∉ line
  exists_below : ∃ below, cs = above ++ (line ++ below) ∧ (below = [] ∨ below.head? = some '\n')

/-- The line without the carriage returns at its end. -/
def Trims (line shown : List Char) : Prop :=
  ∃ n, line = shown ++ List.replicate n '\r' ∧ shown.getLast? ≠ some '\r'

section Line

variable {line shown start : List Char}

theorem dropWhile_line (cs : List Char) :
    cs.dropWhile (· != '\n') = [] ∨ (cs.dropWhile (· != '\n')).head? = some '\n' := by
  have hnot := List.head?_dropWhile_not (· != '\n') cs
  cases hdrop : cs.dropWhile (· != '\n') with
  | nil => exact .inl rfl
  | cons c rest =>
    rw [hdrop] at hnot
    exact .inr (by simpa using hnot)

theorem Trims.not_mem (h : Trims line shown) {c : Char} (hc : c ∉ line) : c ∉ shown := by
  obtain ⟨n, rfl, -⟩ := h
  exact fun hmem => hc (List.mem_append_left _ hmem)

end Line

def textLines (cs : List Char) : List (List Char) :=
  cs.splitOn '\n'

/-- The byte at which a line begins, lines being counted from zero. -/
def lineStart (cs : List Char) (n : Nat) : Nat :=
  byteLength (((textLines cs).take n).flatMap (· ++ ['\n']))

section Lines

variable {cs above line : List Char}

theorem length_textLines (cs : List Char) : (textLines cs).length = cs.count '\n' + 1 := by
  rw [textLines]
  induction cs with
  | nil => simp
  | cons c cs ih =>
    rw [List.splitOn_cons_eq_if_modifyHead]
    by_cases hc : c = '\n'
    · simp [hc, ih]
    · simp [hc, ih]

theorem flatMap_textLines (cs : List Char) :
    (textLines cs).flatMap (· ++ ['\n']) = cs ++ ['\n'] := by
  rw [textLines]
  induction cs with
  | nil => simp
  | cons c cs ih =>
    rw [List.splitOn_cons_eq_if_modifyHead]
    by_cases hc : c = '\n'
    · simp [hc, ih]
    · obtain ⟨first, more, hlines⟩ := List.exists_cons_of_ne_nil (List.splitOn_ne_nil '\n' cs)
      rw [hlines] at ih ⊢
      simpa [hc] using ih

theorem textLines_append (before after : List Char) :
    textLines (before ++ '\n' :: after) = textLines before ++ textLines after :=
  List.splitOn_append_cons_self before after

theorem textLines_of_not_mem (hline : '\n' ∉ line) : textLines line = [line] :=
  List.splitOn_eq_singleton hline

theorem exists_textLines_eq_cons {below : List Char} (hline : '\n' ∉ line)
    (hbelow : below = [] ∨ below.head? = some '\n') :
    ∃ more, textLines (line ++ below) = line :: more := by
  cases below with
  | nil =>
    rw [List.append_nil, textLines_of_not_mem hline]
    exact ⟨[], rfl⟩
  | cons c below =>
    have hc : c = '\n' := by simpa using hbelow
    rw [hc, textLines_append, textLines_of_not_mem hline]
    exact ⟨_, rfl⟩

/-- A line is counted by the line feeds above it, and begins behind them. -/
theorem IsLine.textLines_eq (h : IsLine cs above line) :
    (textLines cs)[above.count '\n']? = some line ∧
      lineStart cs (above.count '\n') = byteLength above := by
  obtain ⟨habove, hline, below, rfl, hbelow⟩ := h
  obtain ⟨more, hmore⟩ := exists_textLines_eq_cons hline hbelow
  rcases habove with rfl | hlast
  · simp [hmore, lineStart]
  · obtain ⟨init, rfl⟩ := List.getLast?_eq_some_iff.1 hlast
    have hlines : textLines (init ++ ['\n'] ++ (line ++ below)) =
        textLines init ++ line :: more := by
      rw [List.append_assoc, List.singleton_append, textLines_append, hmore]
    have hcount : (init ++ ['\n']).count '\n' = (textLines init).length := by
      simp [length_textLines]
    rw [hcount, lineStart, hlines, List.take_left, flatMap_textLines]
    simp

end Lines

namespace Place

theorem trims_shownLine (p : Place) : Trims (p.before ++ p.after) p.shownLine := by
  rw [shownLine]
  generalize p.before ++ p.after = line
  let returns := line.reverse.takeWhile (· == '\r')
  let rest := line.reverse.dropWhile (· == '\r')
  have hreturns : returns = List.replicate returns.length '\r' := by
    refine List.eq_replicate_iff.2 ⟨rfl, fun c hc => ?_⟩
    simpa using List.all_eq_true.1 List.all_takeWhile c hc
  refine ⟨returns.length, ?_, ?_⟩
  · rw [← List.reverse_replicate, ← hreturns, ← List.reverse_append,
      List.takeWhile_append_dropWhile, List.reverse_reverse]
  · rw [List.getLast?_reverse]
    intro hhead
    have hnot := List.head?_dropWhile_not (· == '\r') line.reverse
    rw [hhead] at hnot
    cases hnot

theorem exists_find? (before after : List Char) :
    ∃ p above, find? (before ++ after) (byteLength before) = some p ∧
      IsLine (before ++ after) above (p.before ++ p.after) ∧ before = above ++ p.before ∧
      p.line = above.count '\n' + 1 ∧ p.after = after.takeWhile (· != '\n') := by
  let above := (before.reverse.dropWhile (· != '\n')).reverse
  let lineBefore := (before.reverse.takeWhile (· != '\n')).reverse
  let lineAfter := after.takeWhile (· != '\n')
  have hbefore : before = above ++ lineBefore := by
    rw [← List.reverse_append, List.takeWhile_append_dropWhile, List.reverse_reverse]
  have hnotBefore : '\n' ∉ lineBefore := by
    intro hmem
    simpa using List.all_eq_true.1 List.all_takeWhile '\n' (List.mem_reverse.1 hmem)
  have hnotAfter : '\n' ∉ lineAfter := by
    intro hmem
    simpa using List.all_eq_true.1 List.all_takeWhile '\n' hmem
  have habove : above = [] ∨ above.getLast? = some '\n' := by
    rw [List.reverse_eq_nil_iff, List.getLast?_reverse]
    exact dropWhile_line before.reverse
  refine ⟨⟨before.count '\n' + 1, lineBefore, lineAfter⟩, above, ?_, ⟨habove, ?_, ?_⟩, hbefore, ?_,
    rfl⟩
  · rw [find?, splitAtByte?_eq_some_iff.2 ⟨rfl, rfl⟩]
    rfl
  · simp [hnotBefore, hnotAfter]
  · refine ⟨after.dropWhile (· != '\n'), ?_, dropWhile_line after⟩
    rw [List.append_assoc, List.takeWhile_append_dropWhile, ← List.append_assoc, ← hbefore]
  · -- The part of the line in front of the place holds no line feed.
    have hcount := congrArg (List.count '\n') hbefore
    rw [List.count_append, List.count_eq_zero_of_not_mem hnotBefore] at hcount
    exact congrArg (· + 1) hcount

end Place

end DefLang
