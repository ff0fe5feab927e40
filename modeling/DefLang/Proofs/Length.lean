import DefLang.Proofs.Layout

/-!
# Lengths of tokens

`Token.nextLength?` finds the token at the front of a text as its kind and its length in bytes, and
cuts nothing out: it takes the length of a marker, looks for the first character that does not
belong to a word, or compares what is left behind line breaks with the whole. These lengths are
those of the lexemes that `Token.next?` finds. So they are never zero and never end inside a
character, and all that they measure is ASCII.
-/

namespace DefLang

open Token (next?)

section Ascii

variable {c : Char}

theorem toNat_lt_of_isAlpha (h : c.isAlpha = true) : c.toNat < 128 := by
  rcases Bool.or_eq_true .. ▸ h with hupper | hlower
  · have hle : c.toNat ≤ 90 := UInt32.le_iff_toNat_le.1 (of_decide_eq_true hupper).2
    omega
  · have hz := (Bool.and_eq_true_iff.1 hlower).2
    have hle : c.toNat ≤ 122 := UInt32.le_iff_toNat_le.1 (of_decide_eq_true hz)
    omega

theorem toNat_lt_of_isDigit (h : c.isDigit = true) : c.toNat < 128 := by
  have hle : c.toNat ≤ 57 := (Char.isDigit_iff_toNat.1 h).2
  omega

theorem toNat_lt_of_isSpace (h : isSpace c = true) : c.toNat < 128 := by
  simp only [isSpace, isBlank, isLineBreak, Bool.or_eq_true, beq_iff_eq] at h
  rcases h with ((((rfl | rfl) | rfl) | rfl) | (rfl | rfl)) <;> decide

theorem isSpace_of_isBlank (h : isBlank c = true) : isSpace c = true := by
  rw [isSpace, h, Bool.true_or]

theorem isSpace_of_isLineBreak (h : isLineBreak c = true) : isSpace c = true := by
  rw [isSpace, h, Bool.or_true]

theorem Token.Kind.Fits.toNat_lt {d : Dialect} {kind : Kind} {lexeme : List Char}
    (h : kind.Fits d lexeme) : ∀ c ∈ lexeme, c.toNat < 128 := by
  rcases h.mem_markers with hmem | ⟨-, -, hall⟩ | ⟨-, -, hall⟩
  · have hascii : ∀ m ∈ markers d, (m.2.all fun c => c.toNat < 128) = true := by
      cases d <;> decide
    simpa using hascii _ hmem
  · exact fun c hc => toNat_lt_of_isAlpha (hall c hc)
  · exact fun c hc => toNat_lt_of_isDigit (hall c hc)

end Ascii

theorem Splits.toNat_lt {d : Dialect} {offset : Nat} {cs : List Char} {ts : List Token}
    (h : Splits d offset cs ts) : ∀ c ∈ cs, c.toNat < 128 := by
  induction h with
  | nil => simp
  | space hc _ ih => exact List.forall_mem_cons.2 ⟨toNat_lt_of_isSpace hc, ih⟩
  | lexeme hlexeme _ _ ih =>
    intro c hc
    rcases List.mem_append.1 hc with hc | hc
    · exact hlexeme.fits.toNat_lt c hc
    · exact ih c hc

/-- The byte at which the first character of a class stands. -/
def firstByte? (p : Char → Bool) : List Char → Option Nat
  | [] => none
  | c :: cs => if p c then some 0 else (firstByte? p cs).map (c.utf8Size + ·)

theorem firstByte?_getD (p : Char → Bool) (cs : List Char) :
    (firstByte? p cs).getD (byteLength cs) = byteLength (cs.takeWhile fun c => !p c) := by
  induction cs with
  | nil => rfl
  | cons c cs ih =>
    cases hc : p c with
    | true => simp [firstByte?, hc]
    | false =>
      have hstep : firstByte? p (c :: cs) = (firstByte? p cs).map (c.utf8Size + ·) := by
        simp [firstByte?, hc]
      rw [hstep, List.takeWhile_cons_of_pos (by simp [hc]), byteLength_cons, byteLength_cons, ← ih]
      cases firstByte? p cs <;> rfl

theorem drop_length_takeWhile (p : Char → Bool) (cs : List Char) :
    cs.drop (cs.takeWhile p).length = cs.dropWhile p := by
  have hdrop : (cs.takeWhile p ++ cs.dropWhile p).drop (cs.takeWhile p).length = cs.dropWhile p :=
    List.drop_left
  rwa [List.takeWhile_append_dropWhile] at hdrop

theorem byteLength_eq_zero_iff {cs : List Char} : byteLength cs = 0 ↔ cs = [] := by
  cases cs with
  | nil => simp
  | cons c cs =>
    have hc := c.utf8Size_pos
    simp only [byteLength_cons, reduceCtorEq, iff_false]
    omega

namespace Token

def markerLength? (text : String) (cs : List Char) : Option Nat :=
  if text.toList.isPrefixOf cs && !cutsWord text.toList (cs.drop text.toList.length) then
    some (byteLength text.toList)
  else
    none

/-- The length of a run of characters, unless it is empty or a word goes on behind it. -/
def wordLength? (p : Char → Bool) (cs : List Char) : Option Nat :=
  let n := (firstByte? (fun c => !p c) cs).getD (byteLength cs)
  if n = 0 || (cs.dropWhile p).head?.any isWordChar then none else some n

def Kind.length? (d : Dialect) (cs : List Char) : Kind → Option Nat
  | keyword => markerLength? d.keyword cs
  | opener => d.opener?.bind (markerLength? · cs)
  | closer => markerLength? d.closer cs
  | identifier => wordLength? Char.isAlpha cs
  | integer => wordLength? Char.isDigit cs
  | openParen => markerLength? "(" cs
  | closeParen => markerLength? ")" cs
  | comma => markerLength? "," cs
  | operator =>
    (operatorSymbols.find? (·.toList.isPrefixOf cs)).map (byteLength ·.toList)
  | lineBreak =>
    let n := byteLength cs - byteLength (cs.dropWhile isLineBreak)
    if 0 < n then some n else none

/-- The kind and the length of the token at the front of a text. -/
def nextLength? (d : Dialect) (cs : List Char) : Option (Kind × Nat) :=
  Kind.priority.findSome? fun kind => (kind.length? d cs).map (kind, ·)

namespace Kind

variable {d : Dialect} {cs : List Char} {kind : Kind}

theorem length?_eq_of_marker (text : String) (hlength : kind.length? d cs = markerLength? text cs)
    (hcandidate : kind.candidate d cs = marker text cs) (hne : text.toList ≠ []) :
    kind.length? d cs = (kind.lexeme? d cs).map byteLength := by
  rw [hlength, markerLength?, lexeme?, hcandidate, marker]
  cases hprefix : text.toList.isPrefixOf cs with
  | false => simp
  | true => cases hcuts : cutsWord text.toList (cs.drop text.toList.length) <;> simp [hne, hcuts]

theorem length?_eq_of_run {p : Char → Bool} (hlength : kind.length? d cs = wordLength? p cs)
    (hcandidate : kind.candidate d cs = cs.takeWhile p)
    (hp : ∀ c, p c = true → isWordChar c = true) :
    kind.length? d cs = (kind.lexeme? d cs).map byteLength := by
  have hn : (firstByte? (fun c => !p c) cs).getD (byteLength cs) = byteLength (cs.takeWhile p) := by
    simpa using firstByte?_getD (fun c => !p c) cs
  rw [hlength, wordLength?, lexeme?, hcandidate, hn, drop_length_takeWhile]
  by_cases hnil : cs.takeWhile p = []
  · simp [hnil]
  · -- The run ends in a word character, so it would cut a word that goes on.
    have hlast : isWordChar ((cs.takeWhile p).getLast hnil) = true :=
      hp _ (List.all_eq_true.1 List.all_takeWhile _ (List.getLast_mem hnil))
    rw [cutsWord, List.getLast?_eq_some_getLast hnil, Option.any_some, hlast, Bool.true_and]
    cases (cs.dropWhile p).head?.any isWordChar <;> simp [hnil, byteLength_eq_zero_iff]

theorem length?_operator (d : Dialect) (cs : List Char) :
    operator.length? d cs = (operator.lexeme? d cs).map byteLength := by
  have hcandidate : operator.candidate d cs =
      ((operatorSymbols.find? (·.toList.isPrefixOf cs)).map String.toList).getD [] := by
    rw [candidate, List.find?_map]
    rfl
  cases hfind : operatorSymbols.find? (·.toList.isPrefixOf cs) with
  | none =>
    rw [hfind] at hcandidate
    rw [length?, hfind, lexeme?, hcandidate]
    rfl
  | some symbol =>
    obtain ⟨op, rfl⟩ := mem_operatorSymbols_iff.1 (List.mem_of_find?_eq_some hfind)
    rw [hfind] at hcandidate
    have hne : op.symbol.toList ≠ [] := by cases op <;> decide
    have hcuts : cutsWord op.symbol.toList (cs.drop op.symbol.toList.length) = false := by
      cases op <;> rfl
    rw [length?, hfind, lexeme?_eq_some.2 ⟨hcandidate, hne, hcuts⟩]
    rfl

theorem length?_lineBreak (d : Dialect) (cs : List Char) :
    lineBreak.length? d cs = (lineBreak.lexeme? d cs).map byteLength := by
  have hn : byteLength cs - byteLength (cs.dropWhile isLineBreak) =
      byteLength (cs.takeWhile isLineBreak) := by
    have hsum := byteLength_append (cs.takeWhile isLineBreak) (cs.dropWhile isLineBreak)
    rw [List.takeWhile_append_dropWhile] at hsum
    omega
  rw [length?, hn]
  by_cases hnil : cs.takeWhile isLineBreak = []
  · simp [lexeme?, candidate, hnil]
  · have hpos := Nat.pos_of_ne_zero (mt byteLength_eq_zero_iff.1 hnil)
    rw [lexeme?_lineBreak_eq_some_iff.2 ⟨rfl, hnil⟩, if_pos hpos]
    rfl

theorem length?_eq (d : Dialect) (cs : List Char) (kind : Kind) :
    kind.length? d cs = (kind.lexeme? d cs).map byteLength := by
  cases kind with
  | keyword => exact length?_eq_of_marker d.keyword rfl rfl (by cases d <;> decide)
  | opener =>
    cases d with
    | worded => rfl
    | braced => exact length?_eq_of_marker "\x7b" rfl rfl (by decide)
  | closer => exact length?_eq_of_marker d.closer rfl rfl (by cases d <;> decide)
  | identifier => exact length?_eq_of_run rfl rfl fun c => isWordChar_of_isAlpha
  | integer => exact length?_eq_of_run rfl rfl fun c => isWordChar_of_isDigit
  | openParen => exact length?_eq_of_marker "(" rfl rfl (by decide)
  | closeParen => exact length?_eq_of_marker ")" rfl rfl (by decide)
  | comma => exact length?_eq_of_marker "," rfl rfl (by decide)
  | operator => exact length?_operator d cs
  | lineBreak => exact length?_lineBreak d cs

end Kind

variable {d : Dialect} {cs lexeme : List Char} {kind : Kind} {n : Nat}

/-- Measuring finds the same token as cutting it out. -/
theorem nextLength?_eq (d : Dialect) (cs : List Char) :
    nextLength? d cs = (next? d cs).map (Prod.map id byteLength) := by
  rw [nextLength?, next?, firstMatch, List.map_findSome?]
  refine congrArg (fun f => Kind.priority.findSome? f) (funext fun kind => ?_)
  rw [Kind.length?_eq]
  cases h : kind.lexeme? d cs <;> simp [h]

theorem nextLength?_eq_some_iff :
    nextLength? d cs = some (kind, n) ↔
      ∃ lexeme, next? d cs = some (kind, lexeme) ∧ byteLength lexeme = n := by
  rw [nextLength?_eq, Option.map_eq_some_iff]
  constructor
  · rintro ⟨⟨kind, lexeme⟩, hnext, hpair⟩
    cases hpair
    exact ⟨lexeme, hnext, rfl⟩
  · rintro ⟨lexeme, hnext, rfl⟩
    exact ⟨(kind, lexeme), hnext, rfl⟩

theorem nextLength?_eq_none_iff : nextLength? d cs = none ↔ next? d cs = none := by
  simp [nextLength?_eq]

theorem splitAtByte?_of_next? (h : next? d cs = some (kind, lexeme)) :
    ∃ rest, cs = lexeme ++ rest ∧ splitAtByte? (byteLength lexeme) cs = some (lexeme, rest) := by
  obtain ⟨rest, rfl⟩ := isPrefix_of_next? h
  exact ⟨rest, rfl, splitAtByte?_eq_some_iff.2 ⟨rfl, rfl⟩⟩

theorem byteLength_pos_of_next? (h : next? d cs = some (kind, lexeme)) : 0 < byteLength lexeme :=
  Nat.pos_of_ne_zero (mt byteLength_eq_zero_iff.1 (ne_nil_of_next? h))

theorem isLineBreak_of_next? (h : next? d cs = some (.lineBreak, lexeme)) :
    ∀ c ∈ lexeme, isLineBreak c = true := by
  obtain ⟨rfl, -⟩ := Kind.lexeme?_lineBreak_eq_some_iff.1 (lexeme?_of_firstMatch h).2
  exact List.all_eq_true.1 List.all_takeWhile

theorem isSpace_of_next? (h : next? d cs = some (kind, lexeme)) :
    ∀ c ∈ lexeme, if kind = .lineBreak then isLineBreak c = true else isSpace c = false := by
  by_cases hkind : kind = .lineBreak
  · subst hkind
    exact isLineBreak_of_next? h
  · simpa only [if_neg hkind] using ((next?_eq_some_iff hkind).1 h).1.fits.isSpace_eq_false

theorem toNat_lt_of_next? (h : next? d cs = some (kind, lexeme)) : ∀ c ∈ lexeme, c.toNat < 128 := by
  by_cases hkind : kind = .lineBreak
  · subst hkind
    exact fun c hc => toNat_lt_of_isSpace (isSpace_of_isLineBreak (isLineBreak_of_next? h c hc))
  · exact ((next?_eq_some_iff hkind).1 h).1.fits.toNat_lt

end Token

end DefLang
