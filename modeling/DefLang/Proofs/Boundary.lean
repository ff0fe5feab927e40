import DefLang.Proofs.Coordinate
import DefLang.Proofs.Length

/-!
# Offsets inside characters

A source can be cut at a byte unless this is past the end or inside a character (`InsideChar`), and
a report needs only one such cut. `Failure.slicedReport?` makes the report with bounds in bytes: it
looks for the line feeds around the offset and slices the source five times. Where the first slice
can be taken, all can, and the report is the same.

Failures of compiling are never inside a character, since all that is scanned is ASCII and parsing
blames a token at the place where it was found.
-/

namespace DefLang

/-- The byte is behind the first one of a character and not behind its last one. -/
def InsideChar (cs : List Char) (n : Nat) : Prop :=
  ∃ before c after, cs = before ++ c :: after ∧ byteLength before < n ∧
    n < byteLength before + c.utf8Size

theorem not_insideChar_zero (cs : List Char) : ¬ InsideChar cs 0 := by
  rintro ⟨before, c, after, -, hlt, -⟩
  omega

theorem insideChar_cons_iff {c : Char} {cs : List Char} {n : Nat} :
    InsideChar (c :: cs) n ↔ 0 < n ∧ n < c.utf8Size ∨ InsideChar cs (n - c.utf8Size) := by
  constructor
  · rintro ⟨before, c', after, heq, hlt, hlt'⟩
    cases before with
    | nil =>
      cases heq
      simp only [byteLength_nil, Nat.zero_add] at hlt hlt'
      exact .inl ⟨hlt, hlt'⟩
    | cons b before =>
      cases heq
      rw [byteLength_cons] at hlt hlt'
      exact .inr ⟨before, c', after, rfl, by omega, by omega⟩
  · rintro (⟨hpos, hlt⟩ | ⟨before, c', after, rfl, hlt, hlt'⟩)
    · exact ⟨[], c, cs, rfl, by simpa using hpos, by simpa using hlt⟩
    · refine ⟨c :: before, c', after, rfl, ?_, ?_⟩ <;> rw [byteLength_cons] <;> omega

theorem splitAtByte?_eq_none_iff {n : Nat} {cs : List Char} :
    splitAtByte? n cs = none ↔ byteLength cs < n ∨ InsideChar cs n := by
  fun_induction splitAtByte? n cs with
  | case1 cs => simp [not_insideChar_zero]
  | case2 n => simp
  | case3 n c cs hle ih =>
    rw [Option.map_eq_none_iff, ih, insideChar_cons_iff, byteLength_cons]
    have hsize : ¬ n + 1 < c.utf8Size := by omega
    simp only [hsize, and_false, false_or]
    exact or_congr_left (by omega)
  | case4 n c cs hlt =>
    have hinside : InsideChar (c :: cs) (n + 1) := insideChar_cons_iff.2 (.inl (by omega))
    simp [hinside]

section Slices

variable {cs before after : List Char} {c : Char}

/-- The text between two bytes. -/
def slice? (cs : List Char) (start stop : Nat) : Option (List Char) := do
  let (front, _) ← splitAtByte? stop cs
  let (_, middle) ← splitAtByte? start front
  return middle

theorem slice?_eq_some (before middle after : List Char) {start stop : Nat}
    (hcs : cs = before ++ (middle ++ after)) (hstart : byteLength before = start)
    (hstop : byteLength (before ++ middle) = stop) : slice? cs start stop = some middle := by
  have hfront : splitAtByte? stop cs = some (before ++ middle, after) :=
    splitAtByte?_eq_some_iff.2 ⟨by rw [hcs, List.append_assoc], hstop⟩
  have hmiddle : splitAtByte? start (before ++ middle) = some (before, middle) :=
    splitAtByte?_eq_some_iff.2 ⟨rfl, hstart⟩
  rw [slice?, hfront]
  change (splitAtByte? start (before ++ middle)).bind _ = _
  rw [hmiddle]
  rfl

def lastByte? (c : Char) : List Char → Option Nat
  | [] => none
  | a :: as => ((lastByte? c as).map (a.utf8Size + ·)).or (if a = c then some 0 else none)

theorem lastByte?_eq_none (h : c ∉ cs) : lastByte? c cs = none := by
  induction cs with
  | nil => rfl
  | cons a as ih =>
    obtain ⟨hne, hmem⟩ := not_or.1 (mt List.mem_cons.2 h)
    rw [lastByte?, ih hmem, if_neg (Ne.symm hne)]
    rfl

theorem lastByte?_append_cons (h : c ∉ after) :
    lastByte? c (before ++ c :: after) = some (byteLength before) := by
  induction before with
  | nil => simp [lastByte?, lastByte?_eq_none h]
  | cons a before ih =>
    rw [List.cons_append, lastByte?, ih]
    rfl

end Slices

/-- What is above the line around a byte, this line up to the byte, and the whole line, cut out by
bounds in bytes. -/
def sliceLine? (cs : List Char) (offset : Nat) : Option (List Char × List Char × List Char) := do
  let front ← slice? cs 0 offset
  let start := ((lastByte? '\n' front).map (· + 1)).getD 0
  let back ← slice? cs offset (byteLength cs)
  let stop := ((firstByte? (· == '\n') back).map (offset + ·)).getD (byteLength cs)
  let above ← slice? cs 0 start
  let before ← slice? cs start offset
  let line ← slice? cs start stop
  return (above, before, line)

section Line

variable {cs above before after below : List Char} {offset : Nat}

theorem lastByte?_lineFeed (habove : above = [] ∨ above.getLast? = some '\n')
    (hbefore : '\n' ∉ before) :
    ((lastByte? '\n' (above ++ before)).map (· + 1)).getD 0 = byteLength above := by
  rcases habove with rfl | hlast
  · rw [List.nil_append, lastByte?_eq_none hbefore]
    rfl
  · obtain ⟨init, rfl⟩ := List.getLast?_eq_some_iff.1 hlast
    rw [List.append_assoc, List.singleton_append, lastByte?_append_cons hbefore, byteLength_append]
    rfl

theorem firstByte?_lineFeed (hbelow : below = [] ∨ below.head? = some '\n')
    (hafter : '\n' ∉ after) (offset : Nat) :
    ((firstByte? (· == '\n') (after ++ below)).map (offset + ·)).getD
      (offset + byteLength (after ++ below)) = offset + byteLength after := by
  have hline : (after ++ below).takeWhile (fun c => !(c == '\n')) = after := by
    rw [List.takeWhile_append_of_pos]
    · rcases hbelow with rfl | hhead
      · simp
      · obtain ⟨rest, rfl⟩ := List.head?_eq_some_iff.1 hhead
        simp
    · intro c hc
      have hne : c ≠ '\n' := fun heq => hafter (heq ▸ hc)
      simp [hne]
  rw [Option.getD_map (offset + ·), firstByte?_getD, hline]

theorem IsLine.sliceLine?_eq (h : IsLine cs above (before ++ after))
    (hoffset : byteLength (above ++ before) = offset) :
    sliceLine? cs offset = some (above, before, before ++ after) := by
  obtain ⟨habove, hline, below, hcs, hbelow⟩ := h
  obtain ⟨hbefore, hafter⟩ := not_or.1 (mt List.mem_append.2 hline)
  have hlength : offset + byteLength (after ++ below) = byteLength cs := by
    rw [← hoffset, hcs, ← byteLength_append]
    simp
  have hfront : slice? cs 0 offset = some (above ++ before) :=
    slice?_eq_some [] _ (after ++ below) (by simp [hcs]) rfl hoffset
  have hback : slice? cs offset (byteLength cs) = some (after ++ below) :=
    slice?_eq_some (above ++ before) _ [] (by simp [hcs]) hoffset
      (by rw [byteLength_append, hoffset, hlength])
  have hslice : slice? cs 0 (byteLength above) = some above :=
    slice?_eq_some [] above _ hcs rfl rfl
  have hslice' : slice? cs (byteLength above) offset = some before :=
    slice?_eq_some above before (after ++ below) (by simp [hcs]) rfl hoffset
  have hslice'' : slice? cs (byteLength above) (offset + byteLength after) =
      some (before ++ after) :=
    slice?_eq_some above _ below hcs rfl (by rw [← List.append_assoc, byteLength_append, hoffset])
  have hstart := lastByte?_lineFeed habove hbefore
  have hstop := firstByte?_lineFeed hbelow hafter offset
  rw [hlength] at hstop
  simp only [sliceLine?, hfront, hstart, hback, hstop, hslice, hslice', hslice'',
    Option.bind_eq_bind, Option.bind_some]
  rfl

theorem sliceLine?_eq_none (h : splitAtByte? offset cs = none) : sliceLine? cs offset = none := by
  have hfront : slice? cs 0 offset = none := by
    rw [slice?, h]
    rfl
  rw [sliceLine?, hfront]
  rfl

end Line

namespace Failure

/-- The report, with bounds in bytes. -/
def slicedReport? (failure : Failure) (source : String) : Option String :=
  (sliceLine? source.toList (failure.offsetIn source)).map fun (above, before, line) =>
    caretReport (above.count '\n' + 1) before.length failure.message
      (line.reverse.dropWhile (· == '\r')).reverse

variable {failure : Failure} {source : String}

theorem report?_eq_none_iff :
    failure.report? source = none ↔ InsideChar source.toList (failure.offsetIn source) := by
  have hle : ¬ byteLength source.toList < failure.offsetIn source :=
    Nat.not_lt.2 (Nat.min_le_right _ _)
  rw [report?, Option.map_eq_none_iff, place?_eq_find?, Place.find?, Option.map_eq_none_iff,
    splitAtByte?_eq_none_iff, or_iff_right hle]

theorem slicedReport?_eq (failure : Failure) (source : String) :
    failure.slicedReport? source = failure.report? source := by
  cases hsplit : splitAtByte? (failure.offsetIn source) source.toList with
  | none =>
    rw [slicedReport?, sliceLine?_eq_none hsplit, report?, place?_eq_find?, Place.find?, hsplit]
    rfl
  | some parts =>
    obtain ⟨before, after⟩ := parts
    obtain ⟨hsource, hoffset⟩ := splitAtByte?_eq_some_iff.1 hsplit
    obtain ⟨p, above, hfind, hline, hbefore, hnumber, -⟩ := Place.exists_find? before after
    rw [← hsource] at hfind hline
    rw [hbefore] at hoffset
    have hplace : failure.place? source = some p := by
      rw [place?_eq_find?, ← hoffset, ← hbefore, hfind]
    rw [report?_of_place? hplace, slicedReport?, hline.sliceLine?_eq hoffset, hnumber]
    rfl

end Failure

theorem exists_before_of_compile {o : Options} {source : String} {failure : Failure}
    (h : compile o source = .error failure) :
    ∃ before after, source.toList = before ++ after ∧
      failure.offset?.getD (byteLength source.toList) = byteLength before ∧
      ∀ c ∈ before, c.toNat < 128 := by
  rcases compile_eq_error_iff.1 h with ⟨error, hscan, rfl⟩ | ⟨ts, error, hscan, hparse, rfl⟩
  · obtain ⟨before, rest, ts, hsource, hsplits, -, -, rfl⟩ := scanFrom_eq_error_iff.1 hscan
    exact ⟨before, rest, hsource, Nat.zero_add _, hsplits.toNat_lt⟩
  · have hsplits := scanFrom_eq_ok_iff.1 hscan
    cases htoken : error.token? with
    | none =>
      refine ⟨source.toList, [], (List.append_nil _).symm, ?_, hsplits.toNat_lt⟩
      simp [Failure.offset?, htoken]
    | some t =>
      obtain ⟨pre, post, rfl⟩ := List.append_of_mem (Definition.mem_of_token? hparse htoken)
      obtain ⟨before, rest, hsource, hoffset, hbefore⟩ := hsplits.exists_before
      refine ⟨before, t.lexeme.toList ++ rest, hsource, ?_, hbefore.toNat_lt⟩
      simp [Failure.offset?, htoken, hoffset]

/-- A failure has no report only where its offset, which counts as the end of the source if it is
past it, is inside a character. The slices that make up a report can be taken whenever the first of
them can. The failures of compiling are inside the source, behind ASCII characters only, and all of
them have a report. -/
theorem report?_fails_inside (source : String) :
    (∀ failure : Failure,
      (failure.report? source = none ↔ InsideChar source.toList (failure.offsetIn source)) ∧
      failure.slicedReport? source = failure.report? source) ∧
    ∀ (o : Options) (failure : Failure), compile o source = .error failure →
      failure.offset?.getD (byteLength source.toList) ≤ byteLength source.toList ∧
      (∃ before after, source.toList = before ++ after ∧
        failure.offset?.getD (byteLength source.toList) = byteLength before ∧
        ∀ c ∈ before, c.toNat < 128) ∧
      ∃ report, failure.report? source = some report := by
  refine ⟨fun failure => ⟨Failure.report?_eq_none_iff, failure.slicedReport?_eq source⟩, ?_⟩
  intro o failure h
  obtain ⟨before, after, hsource, hoffset, hascii⟩ := exists_before_of_compile h
  have hle : byteLength before ≤ byteLength source.toList := by
    rw [hsource, byteLength_append]
    exact Nat.le_add_right _ _
  refine ⟨hoffset ▸ hle, ⟨before, after, hsource, hoffset, hascii⟩, ?_⟩
  have hplace : failure.place? source = Place.find? (before ++ after) (byteLength before) := by
    rw [failure.place?_eq_find?, Failure.offsetIn, hoffset, Nat.min_eq_left hle, hsource]
  obtain ⟨p, -, hfind, -⟩ := Place.exists_find? before after
  exact ⟨_, Failure.report?_of_place? (hplace.trans hfind)⟩

theorem report?_fails_inside_third_byte :
    InsideChar "x日".toList 3 ∧ (Failure.scan ⟨3, ""⟩).report? "x日" = none ∧
    (Failure.scan ⟨9, ""⟩).report? "x日" ≠ none ∧
    compile ⟨.worded, false⟩ "def\tf(日)" = .error (.scan ⟨6, "日)"⟩) ∧
    (∃ before after, "def\tf(日)".toList = before ++ after ∧ 6 = byteLength before ∧
      ∀ c ∈ before, c.toNat < 128) ∧
    ∃ report, (Failure.scan ⟨6, "日)"⟩).report? "def\tf(日)" = some report := by
  have hinside : InsideChar "x日".toList 3 := ⟨['x'], '日', [], rfl, by decide, by decide⟩
  have hcompile : compile ⟨.worded, false⟩ "def\tf(日)" = .error (.scan ⟨6, "日)"⟩) := by
    decide +kernel
  have hfails := (report?_fails_inside "def\tf(日)").2 _ _ hcompile
  have hnone := ((report?_fails_inside "x日").1 (.scan ⟨3, ""⟩)).1.2 hinside
  exact ⟨hinside, hnone, by decide, hcompile, hfails.2.1, hfails.2.2⟩

end DefLang
