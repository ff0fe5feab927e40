import DefLang.Proofs.Report

/-!
# Lines and columns as coordinates

A place names its offset: the bytes in front of its line and those of the characters in front of its
column add up to it (`Place.Locates`). Places come in the order of their offsets, first by line and
then by column.

A report shows the line of its place right behind the message. This is the second line of the report
unless the message itself goes over several lines, as it does for a lexeme with a line feed in it.
-/

namespace DefLang

namespace Place

/-- The line of a place, and the offset that its line and its column name. -/
structure Locates (p : Place) (cs : List Char) (offset : Nat) (line : List Char) : Prop where
  getElem? : (textLines cs)[p.line - 1]? = some line
  column_le : p.column - 1 ≤ line.length
  offset_eq : lineStart cs (p.line - 1) + byteLength (line.take (p.column - 1)) = offset

theorem exists_locates (before after : List Char) :
    ∃ p line, find? (before ++ after) (byteLength before) = some p ∧
      p.line = before.count '\n' + 1 ∧ p.Locates (before ++ after) (byteLength before) line ∧
      '\n' ∉ line ∧ Trims line p.shownLine := by
  obtain ⟨p, above, hfind, hline, hbefore, hnumber, -⟩ := exists_find? before after
  obtain ⟨hget, hstart⟩ := hline.textLines_eq
  have hnot : '\n' ∉ p.before := fun hmem => hline.not_mem (List.mem_append_left _ hmem)
  have hcount : before.count '\n' = above.count '\n' := by
    rw [hbefore, List.count_append, List.count_eq_zero_of_not_mem hnot, Nat.add_zero]
  refine ⟨p, p.before ++ p.after, hfind, by rw [hnumber, hcount], ⟨?_, ?_, ?_⟩, hline.not_mem,
    p.trims_shownLine⟩
  · rw [hnumber, Nat.add_sub_cancel, hget]
  · simp [column]
  · rw [hnumber, Nat.add_sub_cancel, hstart, column, Nat.add_sub_cancel, List.take_left,
      ← byteLength_append, ← hbefore]

theorem lt_of_append {before between after after' : List Char} {p q : Place}
    (hp : find? (before ++ after) (byteLength before) = some p)
    (hq : find? (before ++ between ++ after') (byteLength (before ++ between)) = some q)
    (hne : between ≠ []) : p.line < q.line ∨ p.line = q.line ∧ p.column < q.column := by
  rw [find?, splitAtByte?_eq_some_iff.2 ⟨rfl, rfl⟩] at hp hq
  cases hp
  cases hq
  simp only [column, List.length_reverse, List.count_append, List.reverse_append]
  by_cases hmem : '\n' ∈ between
  · have hpos := List.count_pos_iff.2 hmem
    omega
  · have hbreak : ∀ c ∈ between.reverse, (c != '\n') = true := by
      intro c hc
      refine bne_iff_ne.2 ?_
      rintro rfl
      exact hmem (List.mem_reverse.1 hc)
    have hlength := List.length_pos_iff.2 hne
    rw [List.count_eq_zero_of_not_mem hmem, List.takeWhile_append_of_pos hbreak, List.length_append,
      List.length_reverse]
    omega

theorem exists_of_find? {cs : List Char} {offset : Nat} {p : Place} (h : find? cs offset = some p) :
    ∃ before after, cs = before ++ after ∧ byteLength before = offset := by
  obtain ⟨⟨before, after⟩, hsplit, -⟩ := Option.map_eq_some_iff.1 h
  exact ⟨before, after, splitAtByte?_eq_some_iff.1 hsplit⟩

theorem lt_of_find? {cs : List Char} {m n : Nat} {p q : Place} (hp : find? cs m = some p)
    (hq : find? cs n = some q) (h : m < n) :
    p.line < q.line ∨ p.line = q.line ∧ p.column < q.column := by
  obtain ⟨before, after, rfl, rfl⟩ := exists_of_find? hp
  obtain ⟨before', after', hcs, rfl⟩ := exists_of_find? hq
  have hprefix : before <+: before ++ after := List.prefix_append before after
  have hprefix' : before' <+: before ++ after := ⟨after', hcs.symm⟩
  rcases List.prefix_or_prefix_of_prefix hprefix hprefix' with ⟨between, rfl⟩ | ⟨between, rfl⟩
  · rw [hcs] at hq
    refine lt_of_append hp hq ?_
    rintro rfl
    simp at h
  · rw [byteLength_append] at h
    omega

end Place

namespace Failure

/-- The offset of a failure in a source; past the end it is the end. -/
def offsetIn (failure : Failure) (source : String) : Nat :=
  min (failure.offset?.getD (byteLength source.toList)) (byteLength source.toList)

theorem place?_eq_find? (failure : Failure) (source : String) :
    failure.place? source = Place.find? source.toList (failure.offsetIn source) :=
  rfl

theorem report?_of_place? {failure : Failure} {source : String} {p : Place}
    (h : failure.place? source = some p) :
    failure.report? source =
      some (caretReport p.line (p.column - 1) failure.message p.shownLine) := by
  rw [report?, h]
  rfl

end Failure

/-- The line and the column of a report name the offset of the failure, wherever this is between two
characters. The line is shown without the carriage returns at its end, behind the lines of the
message, of which there is one for whatever fails to compile. Failures at different offsets are
reported in the order of these. -/
theorem report?_locates (source : String) :
    (∀ (failure : Failure) (before after : List Char), source.toList = before ++ after →
      failure.offsetIn source = byteLength before →
      ∃ p line shown report, failure.place? source = some p ∧ p.line = before.count '\n' + 1 ∧
        p.Locates source.toList (byteLength before) line ∧ Trims line shown ∧
        failure.report? source = some report ∧
        report = caretReport p.line (p.column - 1) failure.message shown ∧
        (textLines report.toList)[failure.message.toList.count '\n' + 1]? = some shown ∧
        ('\n' ∉ failure.message.toList → (textLines report.toList)[1]? = some shown)) ∧
    (∀ (o : Options) (failure : Failure), compile o source = .error failure →
      '\n' ∉ failure.message.toList) ∧
    ∀ (failure failure' : Failure) (p p' : Place), failure.place? source = some p →
      failure'.place? source = some p' → failure.offsetIn source < failure'.offsetIn source →
      p.line < p'.line ∨ p.line = p'.line ∧ p.column < p'.column := by
  refine ⟨?_, ?_, ?_⟩
  · intro failure before after hsource hoffset
    obtain ⟨p, line, hfind, hnumber, hlocates, hline, htrims⟩ :=
      Place.exists_locates before after
    rw [← hsource] at hfind hlocates
    have hplace : failure.place? source = some p := by
      rw [failure.place?_eq_find?, hoffset, hfind]
    have hshown := getElem?_textLines_caretReport p.line (p.column - 1) failure.message
      (htrims.not_mem hline)
    refine ⟨p, line, p.shownLine, _, hplace, hnumber, hlocates, htrims,
      Failure.report?_of_place? hplace, rfl, hshown, fun hmessage => ?_⟩
    rwa [List.count_eq_zero_of_not_mem hmessage] at hshown
  · intro o failure h
    obtain ⟨before, blamed, rest, -, hblames⟩ := exists_blames h
    exact hblames.lineFeed_not_mem_message
  · intro failure failure' p p' hp hp' hlt
    rw [Failure.place?_eq_find?] at hp hp'
    exact Place.lt_of_find? hp hp' hlt

theorem report?_locates_second_line :
    (∃ p line shown report, (Failure.scan ⟨7, "x"⟩).place? "é\r\n日x\r\ny" = some p ∧
      p.line = "é\r\n日".toList.count '\n' + 1 ∧
      p.Locates "é\r\n日x\r\ny".toList (byteLength "é\r\n日".toList) line ∧ Trims line shown ∧
      (Failure.scan ⟨7, "x"⟩).report? "é\r\n日x\r\ny" = some report ∧
      report = caretReport p.line (p.column - 1) (Failure.scan ⟨7, "x"⟩).message shown ∧
      (textLines report.toList)[1]? = some shown) ∧
    compile {} "é\r\n日x\r\ny" = .error (.scan ⟨0, "é\r\n日x\r\ny"⟩) ∧
    '\n' ∉ (Failure.scan ⟨0, "é\r\n日x\r\ny"⟩).message.toList ∧
    (Failure.scan ⟨7, "x"⟩).place? "é\r\n日x\r\ny" = some ⟨2, ['日'], ['x', '\r']⟩ ∧
    (Failure.scan ⟨90, "x"⟩).place? "é\r\n日x\r\ny" = some ⟨3, ['y'], []⟩ ∧
    (2 < 3 ∨ 2 = 3 ∧ (⟨2, ['日'], ['x', '\r']⟩ : Place).column <
      (⟨3, ['y'], []⟩ : Place).column) := by
  have hplace : (Failure.scan ⟨7, "x"⟩).place? "é\r\n日x\r\ny" =
      some ⟨2, ['日'], ['x', '\r']⟩ := by
    decide +kernel
  have hend : (Failure.scan ⟨90, "x"⟩).place? "é\r\n日x\r\ny" = some ⟨3, ['y'], []⟩ := by
    decide +kernel
  have hcompile : compile {} "é\r\n日x\r\ny" = .error (.scan ⟨0, "é\r\n日x\r\ny"⟩) := by
    decide +kernel
  obtain ⟨p, line, shown, report, hp, hnumber, hlocates, htrims, hreport, heq, -, hsecond⟩ :=
    (report?_locates "é\r\n日x\r\ny").1 (.scan ⟨7, "x"⟩) "é\r\n日".toList "x\r\ny".toList
      (by decide) (by decide)
  refine ⟨⟨p, line, shown, report, hp, hnumber, hlocates, htrims, hreport, heq, ?_⟩, hcompile, ?_,
    hplace, hend, ?_⟩
  · exact hsecond (ScanError.lineFeed_not_mem_message _)
  · exact (report?_locates _).2.1 _ _ hcompile
  · exact (report?_locates _).2.2 _ _ _ _ hplace hend (by decide)

/-- A failure that blames a lexeme with a line feed in it. No source has such a lexeme. -/
def brokenLexeme : Failure :=
  .grammar (.unexpected .identifier ⟨.identifier, "a\nb", 0⟩)

/-- The second line of a report is not always the line of its place: here it is the rest of the
message. -/
theorem report?_second_line_of_message :
    brokenLexeme.offsetIn "x" = byteLength [] ∧
    brokenLexeme.report? "x" =
      some "1:1: expected identifier, but got identifier \"a\nb\"\nx\n^" ∧
    ¬ ∃ p line shown report, brokenLexeme.place? "x" = some p ∧
      p.Locates "x".toList (byteLength []) line ∧ Trims line shown ∧
      brokenLexeme.report? "x" = some report ∧ (textLines report.toList)[1]? = some shown := by
  have hplace : brokenLexeme.place? "x" = some ⟨1, [], ['x']⟩ := by
    decide +kernel
  have hreport : brokenLexeme.report? "x" =
      some "1:1: expected identifier, but got identifier \"a\nb\"\nx\n^" := by
    decide +kernel
  refine ⟨by decide, hreport, ?_⟩
  rintro ⟨p, line, shown, report, hp, hlocates, ⟨n, hline, -⟩, hr, hsecond⟩
  rw [hplace] at hp
  rw [hreport] at hr
  cases hp
  cases hr
  have hfirst : (textLines "x".toList)[0]? = some line := hlocates.getElem?
  have hrest : some shown = some ['b', '"'] := hsecond.symm
  cases hfirst
  cases hrest
  simp at hline

end DefLang
