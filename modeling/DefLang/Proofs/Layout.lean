import DefLang.Proofs.Lexeme
import DefLang.Compile

/-!
# Layout of a source

Scanning cuts a text at three kinds of places: it drops a space, it takes off a lexeme that does not
fuse with the rest, or it fails. `Splits` is the relation that the successful runs compute.

A `Layout` shows the same from above, without an order in which the text is gone through: lexemes
and gaps of spaces by turns, with the offset of each token and a gap that is not empty between
lexemes that need one. Scanning finds the tokens of a layout, and finds nothing else.
-/

namespace DefLang

open Token (next? scanFrom scan)

section Scan

variable {d : Dialect} {offset : Nat} {c : Char} {cs lexeme rest : List Char} {kind : Token.Kind}

theorem scanFrom_of_next? (hc : isBlank c = false) (h : next? d (c :: cs) = some (kind, lexeme)) :
    scanFrom d offset (c :: cs) =
      if kind = .lineBreak then
        scanFrom d (offset + byteLength lexeme) ((c :: cs).drop lexeme.length)
      else
        (scanFrom d (offset + byteLength lexeme) ((c :: cs).drop lexeme.length)).map
          (⟨kind, String.ofList lexeme, offset⟩ :: ·) := by
  rw [scanFrom, if_neg (by simp [hc])]
  split
  · next hnone => rw [h] at hnone; cases hnone
  · next kind' lexeme' hsome =>
    rw [h] at hsome
    cases hsome
    rfl

theorem scanFrom_of_next?_eq_none (hc : isBlank c = false) (h : next? d (c :: cs) = none) :
    scanFrom d offset (c :: cs) = .error ⟨offset, String.ofList (c :: cs)⟩ := by
  rw [scanFrom, if_neg (by simp [hc])]
  split
  · rfl
  · next hsome => rw [h] at hsome; cases hsome

theorem scanFrom_dropWhile_isLineBreak (d : Dialect) (offset : Nat) (cs : List Char) :
    scanFrom d offset cs =
      scanFrom d (offset + byteLength (cs.takeWhile isLineBreak)) (cs.dropWhile isLineBreak) := by
  cases cs with
  | nil => rfl
  | cons c cs =>
    cases hc : isLineBreak c with
    | false => simp [hc]
    | true =>
      have hblank : isBlank c = false := by
        simp only [isLineBreak, Bool.or_eq_true, beq_iff_eq] at hc
        rcases hc with rfl | rfl <;> decide
      have hsplit : (c :: cs).takeWhile isLineBreak ++ (c :: cs).dropWhile isLineBreak = c :: cs :=
        List.takeWhile_append_dropWhile
      have hdrop : (c :: cs).drop ((c :: cs).takeWhile isLineBreak).length =
          (c :: cs).dropWhile isLineBreak :=
        List.append_cancel_left
          ((List.prefix_iff_eq_append.1 (List.takeWhile_prefix _)).trans hsplit.symm)
      rw [scanFrom_of_next? hblank (Token.next?_of_isLineBreak hc), if_pos rfl, hdrop]

theorem scanFrom_space (hc : isSpace c = true) :
    scanFrom d offset (c :: cs) = scanFrom d (offset + c.utf8Size) cs := by
  rcases Bool.or_eq_true .. ▸ hc with hblank | hbreak
  · rw [scanFrom, if_pos hblank]
  · rw [scanFrom_dropWhile_isLineBreak d offset, scanFrom_dropWhile_isLineBreak d _ cs,
      List.takeWhile_cons_of_pos hbreak, List.dropWhile_cons_of_pos hbreak, byteLength_cons,
      Nat.add_assoc]

theorem scanFrom_lexeme (h : kind.IsLexeme d lexeme) (hfuses : fuses lexeme rest = false) :
    scanFrom d offset (lexeme ++ rest) =
      (scanFrom d (offset + byteLength lexeme) rest).map
        (⟨kind, String.ofList lexeme, offset⟩ :: ·) := by
  have hnext := Token.next?_of_isLexeme h hfuses
  have hkind : kind ≠ .lineBreak := by
    rintro rfl
    exact h.fits
  obtain ⟨c, cs, rfl, -⟩ := h.fits.exists_cons
  have hc := h.fits.isSpace_eq_false c List.mem_cons_self
  simp only [isSpace, Bool.or_eq_false_iff] at hc
  rw [List.cons_append] at hnext ⊢
  rw [scanFrom_of_next? hc.1 hnext, if_neg hkind, ← List.cons_append, List.drop_left]

end Scan

/-- The text `cs`, which begins at byte `offset`, consists of spaces and of the tokens `ts`. -/
inductive Splits (d : Dialect) : Nat → List Char → List Token → Prop
  | nil {offset : Nat} : Splits d offset [] []
  | space {offset : Nat} {c : Char} {cs : List Char} {ts : List Token} (hc : isSpace c = true)
      (h : Splits d (offset + c.utf8Size) cs ts) : Splits d offset (c :: cs) ts
  | lexeme {offset : Nat} {kind : Token.Kind} {lexeme rest : List Char} {ts : List Token}
      (hlexeme : kind.IsLexeme d lexeme) (hfuses : fuses lexeme rest = false)
      (h : Splits d (offset + byteLength lexeme) rest ts) :
      Splits d offset (lexeme ++ rest) (⟨kind, String.ofList lexeme, offset⟩ :: ts)

theorem Splits.spaces {d : Dialect} {offset : Nat} {gap cs : List Char} {ts : List Token}
    (hgap : ∀ c ∈ gap, isSpace c = true) (h : Splits d (offset + byteLength gap) cs ts) :
    Splits d offset (gap ++ cs) ts := by
  induction gap generalizing offset with
  | nil => simpa using h
  | cons c gap ih =>
    rw [byteLength_cons, ← Nat.add_assoc] at h
    exact .space (hgap c List.mem_cons_self)
      (ih (fun c' hc' => hgap c' (List.mem_cons_of_mem c hc')) h)

theorem Splits.isLexeme {d : Dialect} {offset : Nat} {cs : List Char} {ts : List Token}
    (h : Splits d offset cs ts) : ∀ t ∈ ts, t.kind.IsLexeme d t.lexeme.toList := by
  induction h with
  | nil => simp
  | space _ _ ih => exact ih
  | lexeme hlexeme _ _ ih => exact List.forall_mem_cons.2 ⟨by simpa using hlexeme, ih⟩

theorem Splits.of_scanFrom {d : Dialect} {offset : Nat} {cs : List Char} {ts : List Token}
    (h : scanFrom d offset cs = .ok ts) : Splits d offset cs ts := by
  induction offset, cs using Token.scanFrom.induct d generalizing ts with
  | case1 offset =>
    rw [scanFrom] at h
    cases h
    exact .nil
  | case2 offset c cs hc ih =>
    rw [scanFrom, if_pos hc] at h
    exact .space (by simp [isSpace, hc]) (ih h)
  | case3 offset c cs hc hnext =>
    rw [scanFrom_of_next?_eq_none (by simpa using hc) hnext] at h
    cases h
  | case4 offset c cs hc lexeme hnext ih =>
    rw [scanFrom_of_next? (by simpa using hc) hnext, if_pos rfl] at h
    obtain ⟨rfl, -⟩ := Token.Kind.lexeme?_lineBreak_eq_some_iff.1
      (Token.lexeme?_of_firstMatch hnext).2
    have hsplit := List.prefix_iff_eq_append.1
      (List.takeWhile_prefix isLineBreak : (c :: cs).takeWhile isLineBreak <+: c :: cs)
    rw [← hsplit]
    refine (ih h).spaces fun c' hc' => ?_
    simp [isSpace, List.all_eq_true.1 List.all_takeWhile c' hc']
  | case5 offset c cs hc kind lexeme hnext hkind ih =>
    rw [scanFrom_of_next? (by simpa using hc) hnext, if_neg hkind] at h
    obtain ⟨ts, hts, rfl⟩ := map_eq_ok_iff.1 h
    obtain ⟨hlexeme, rest, heq, hfuses⟩ := (Token.next?_eq_some_iff hkind).1 hnext
    rw [heq, List.drop_left] at ih hts
    rw [heq]
    exact .lexeme hlexeme hfuses (ih hts)

theorem scanFrom_eq_ok_iff {d : Dialect} {offset : Nat} {cs : List Char} {ts : List Token} :
    scanFrom d offset cs = .ok ts ↔ Splits d offset cs ts := by
  refine ⟨Splits.of_scanFrom, fun h => ?_⟩
  induction h with
  | nil => rw [scanFrom]
  | space hc _ ih => rw [scanFrom_space hc, ih]
  | lexeme hlexeme hfuses _ ih =>
    rw [scanFrom_lexeme hlexeme hfuses, ih]
    rfl

/-- A text behind one that splits is scanned from its own front, unless the two fuse. -/
theorem scanFrom_append {d : Dialect} {offset : Nat} {cs cs' : List Char} {ts : List Token}
    (h : Splits d offset cs ts) (hfuses : fuses cs cs' = false) :
    scanFrom d offset (cs ++ cs') =
      (scanFrom d (offset + byteLength cs) cs').map (ts ++ ·) := by
  induction h with
  | nil => exact (congrFun Except.map_id (scanFrom d _ cs')).symm
  | @space offset c cs ts hc _ ih =>
    rw [List.cons_append, scanFrom_space hc, ih (fuses_tail_eq_false hfuses), byteLength_cons,
      Nat.add_assoc]
  | @lexeme offset kind lexeme rest ts hlexeme hfuses' _ ih =>
    obtain ⟨hrest, hjunction⟩ := (fuses_append_assoc lexeme rest cs').1 ⟨hfuses', hfuses⟩
    rw [List.append_assoc, scanFrom_lexeme hlexeme hjunction, ih hrest, byteLength_append,
      Nat.add_assoc]
    cases scanFrom d (offset + (byteLength lexeme + byteLength rest)) cs' with
    | error e => rfl
    | ok us => rfl

theorem Splits.append {d : Dialect} {offset : Nat} {cs cs' : List Char} {ts ts' : List Token}
    (h : Splits d offset cs ts) (h' : Splits d (offset + byteLength cs) cs' ts')
    (hfuses : fuses cs cs' = false) : Splits d offset (cs ++ cs') (ts ++ ts') := by
  rw [← scanFrom_eq_ok_iff, scanFrom_append h hfuses, scanFrom_eq_ok_iff.2 h']
  rfl

/-- Lexemes that would run together: two words, or `>` or `<` in front of `=`. -/
def NeedsGap (lexeme lexeme' : List Char) : Prop :=
  (∀ c ∈ lexeme, isWordChar c = true) ∧ (∀ c ∈ lexeme', isWordChar c = true) ∨
    (lexeme = ['>'] ∨ lexeme = ['<']) ∧ lexeme' = ['=']

/-- The text of tokens with the gap behind each. -/
def pieceText (pieces : List (Token × List Char)) : List Char :=
  pieces.flatMap fun piece => piece.1.lexeme.toList ++ piece.2

/-- A text from byte `offset` on, as the gap `front` and tokens with the gap behind each. -/
structure Layout (d : Dialect) (offset : Nat) (front : List Char)
    (pieces : List (Token × List Char)) : Prop where
  front_space : ∀ c ∈ front, isSpace c = true
  gap_space : ∀ piece ∈ pieces, ∀ c ∈ piece.2, isSpace c = true
  isLexeme : ∀ piece ∈ pieces, piece.1.kind.IsLexeme d piece.1.lexeme.toList
  offset_eq : ∀ before t gap after, pieces = before ++ (t, gap) :: after →
    t.offset = offset + byteLength (front ++ pieceText before)
  gap_ne_nil : ∀ before t gap u gap' after, pieces = before ++ (t, gap) :: (u, gap') :: after →
    NeedsGap t.lexeme.toList u.lexeme.toList → gap ≠ []

section Gaps

variable {d : Dialect} {kind kind' : Token.Kind} {lexeme lexeme' : List Char}

theorem eq_of_getLast?_of_fits (h : kind.Fits d lexeme) :
    (lexeme.getLast? = some '>' → lexeme = ['>']) ∧
      (lexeme.getLast? = some '<' → lexeme = ['<']) := by
  rcases h.mem_markers with hmem | ⟨-, -, hall⟩ | ⟨-, -, hall⟩
  · have hlast : ∀ m ∈ Token.Kind.markers d, (m.2.getLast? = some '>' → m.2 = ['>']) ∧
        (m.2.getLast? = some '<' → m.2 = ['<']) := by
      cases d <;> decide
    exact hlast _ hmem
  · constructor <;> exact fun hlast => absurd (hall _ (List.mem_of_getLast? hlast)) (by decide)
  · constructor <;> exact fun hlast => absurd (hall _ (List.mem_of_getLast? hlast)) (by decide)

theorem eq_of_head?_of_fits (h : kind.Fits d lexeme) (hhead : lexeme.head? = some '=') :
    lexeme = ['='] := by
  rcases h.mem_markers with hmem | ⟨-, -, hall⟩ | ⟨-, -, hall⟩
  · have hassign : ∀ m ∈ Token.Kind.markers d, m.2.head? = some '=' → m.2 = ['='] := by
      cases d <;> decide
    exact hassign _ hmem hhead
  · exact absurd (hall _ (List.mem_of_head? hhead)) (by decide)
  · exact absurd (hall _ (List.mem_of_head? hhead)) (by decide)

theorem fuses_append_iff (h : kind.Fits d lexeme) (h' : kind'.Fits d lexeme') (rest : List Char) :
    fuses lexeme (lexeme' ++ rest) = true ↔ NeedsGap lexeme lexeme' := by
  obtain ⟨c, cs, rfl, -⟩ := h.exists_cons
  obtain ⟨b, bs, rfl, -⟩ := h'.exists_cons
  have hlast : (c :: cs).getLast? = some ((c :: cs).getLast (by simp)) :=
    List.getLast?_eq_some_getLast (by simp)
  have hmem : (c :: cs).getLast (by simp) ∈ c :: cs := List.getLast_mem (by simp)
  generalize (c :: cs).getLast (by simp) = a at hlast hmem
  simp only [fuses_eq_of_getLast? hlast, List.cons_append, List.head?_cons, Option.any_some,
    Bool.or_eq_true, Bool.and_eq_true, beq_iff_eq]
  constructor
  · rintro (⟨ha, hb⟩ | ⟨ha, rfl⟩)
    · have hword : ∀ c' ∈ c :: cs, isWordChar c' = true :=
        h.isWordChar_eq.resolve_right fun hnot => by simp [hnot a hmem] at ha
      have hword' : ∀ c' ∈ b :: bs, isWordChar c' = true :=
        h'.isWordChar_eq.resolve_right fun hnot => by simp [hnot b List.mem_cons_self] at hb
      exact .inl ⟨hword, hword'⟩
    · refine .inr ⟨?_, eq_of_head?_of_fits h' rfl⟩
      rcases ha with rfl | rfl
      · exact .inl ((eq_of_getLast?_of_fits h).1 hlast)
      · exact .inr ((eq_of_getLast?_of_fits h).2 hlast)
  · rintro (⟨hword, hword'⟩ | ⟨hop, hassign⟩)
    · exact .inl ⟨hword a hmem, hword' b List.mem_cons_self⟩
    · refine .inr ⟨?_, by simpa using congrArg List.head? hassign⟩
      rcases hop with hop | hop
      · exact .inl (by simpa [hop] using hlast.symm)
      · exact .inr (by simpa [hop] using hlast.symm)

theorem fuses_space_eq_false {c : Char} (hc : isSpace c = true) (rest : List Char) :
    fuses lexeme (c :: rest) = false := by
  have hassign : c ≠ '=' := by
    rintro rfl
    exact absurd hc (by decide)
  exact fuses_cons_eq_false (isWordChar_eq_false_of_isSpace hc) hassign _ _

end Gaps

@[simp] theorem pieceText_nil : pieceText [] = [] := rfl

@[simp] theorem pieceText_cons (t : Token) (gap : List Char) (pieces : List (Token × List Char)) :
    pieceText ((t, gap) :: pieces) = t.lexeme.toList ++ (gap ++ pieceText pieces) := by
  simp [pieceText]

namespace Layout

variable {d : Dialect} {offset : Nat} {front gap : List Char} {t : Token}
  {pieces : List (Token × List Char)}

theorem nil : Layout d offset [] [] where
  front_space := by simp
  gap_space := by simp
  isLexeme := by simp
  offset_eq := by simp
  gap_ne_nil := by simp

theorem space {c : Char} (hc : isSpace c = true) (h : Layout d (offset + c.utf8Size) front pieces) :
    Layout d offset (c :: front) pieces where
  front_space := List.forall_mem_cons.2 ⟨hc, h.front_space⟩
  gap_space := h.gap_space
  isLexeme := h.isLexeme
  offset_eq := by
    intro before u gap' after heq
    rw [h.offset_eq before u gap' after heq, List.cons_append, byteLength_cons, Nat.add_assoc]
  gap_ne_nil := h.gap_ne_nil

theorem lexeme (ht : t.kind.IsLexeme d t.lexeme.toList) (hoffset : t.offset = offset)
    (hfuses : fuses t.lexeme.toList (gap ++ pieceText pieces) = false)
    (h : Layout d (offset + byteLength t.lexeme.toList) gap pieces) :
    Layout d offset [] ((t, gap) :: pieces) where
  front_space := by simp
  gap_space := List.forall_mem_cons.2 ⟨h.front_space, h.gap_space⟩
  isLexeme := List.forall_mem_cons.2 ⟨ht, h.isLexeme⟩
  offset_eq := by
    intro before u gap' after heq
    cases before with
    | nil =>
      cases heq
      simp [hoffset]
    | cons piece before =>
      cases heq
      rw [h.offset_eq before u gap' after rfl]
      simp [Nat.add_assoc]
  gap_ne_nil := by
    intro before u gap' v gap'' after heq hneeds
    cases before with
    | nil =>
      cases heq
      rintro rfl
      have hv := (h.isLexeme _ List.mem_cons_self).fits
      rw [List.nil_append, pieceText_cons,
        (fuses_append_iff ht.fits hv (gap'' ++ pieceText after)).2 hneeds] at hfuses
      cases hfuses
    | cons piece before =>
      cases heq
      exact h.gap_ne_nil before u gap' v gap'' after rfl hneeds

theorem tail (h : Layout d offset front ((t, gap) :: pieces)) :
    Layout d (offset + byteLength front + byteLength t.lexeme.toList) gap pieces where
  front_space := h.gap_space _ List.mem_cons_self
  gap_space := fun piece hpiece => h.gap_space piece (List.mem_cons_of_mem _ hpiece)
  isLexeme := fun piece hpiece => h.isLexeme piece (List.mem_cons_of_mem _ hpiece)
  offset_eq := by
    intro before u gap' after heq
    rw [h.offset_eq ((t, gap) :: before) u gap' after (by rw [heq, List.cons_append])]
    simp [Nat.add_assoc]
  gap_ne_nil := by
    intro before u gap' v gap'' after heq
    exact h.gap_ne_nil ((t, gap) :: before) u gap' v gap'' after (by rw [heq, List.cons_append])

theorem fuses_eq_false (h : Layout d offset front ((t, gap) :: pieces)) :
    fuses t.lexeme.toList (gap ++ pieceText pieces) = false := by
  cases gap with
  | cons c gap =>
    have hc := h.gap_space _ List.mem_cons_self c List.mem_cons_self
    exact fuses_space_eq_false hc _
  | nil =>
    cases pieces with
    | nil => exact fuses_nil_right _
    | cons piece pieces =>
      obtain ⟨u, gap'⟩ := piece
      have ht := (h.isLexeme _ List.mem_cons_self).fits
      have hu := (h.isLexeme _ (List.mem_cons_of_mem _ List.mem_cons_self)).fits
      rw [List.nil_append, pieceText_cons, Bool.eq_false_iff, ne_eq, fuses_append_iff ht hu]
      exact fun hneeds => h.gap_ne_nil [] t [] u gap' pieces rfl hneeds rfl

theorem splits (h : Layout d offset front pieces) :
    Splits d offset (front ++ pieceText pieces) (pieces.map Prod.fst) := by
  induction pieces generalizing offset front with
  | nil => exact .spaces h.front_space .nil
  | cons piece pieces ih =>
    obtain ⟨t, gap⟩ := piece
    have hoffset : t.offset = offset + byteLength front := by
      simpa using h.offset_eq [] t gap pieces rfl
    have hsplit := Splits.lexeme (h.isLexeme _ List.mem_cons_self) h.fuses_eq_false (ih h.tail)
    rw [String.ofList_toList, ← hoffset] at hsplit
    rw [pieceText_cons]
    exact .spaces h.front_space (hoffset ▸ hsplit)

end Layout

theorem Splits.exists_layout {d : Dialect} {offset : Nat} {cs : List Char} {ts : List Token}
    (h : Splits d offset cs ts) :
    ∃ front pieces, Layout d offset front pieces ∧ pieces.map Prod.fst = ts ∧
      cs = front ++ pieceText pieces := by
  induction h with
  | nil => exact ⟨[], [], .nil, rfl, rfl⟩
  | space hc _ ih =>
    obtain ⟨front, pieces, hlayout, rfl, rfl⟩ := ih
    exact ⟨_ :: front, pieces, hlayout.space hc, rfl, rfl⟩
  | @lexeme offset kind lexeme rest ts hlexeme hfuses _ ih =>
    obtain ⟨front, pieces, hlayout, rfl, rfl⟩ := ih
    have heq : (String.ofList lexeme).toList = lexeme := String.toList_ofList
    refine ⟨[], (⟨kind, String.ofList lexeme, offset⟩, front) :: pieces, ?_, rfl, by simp⟩
    exact .lexeme (by rwa [heq]) rfl (by rwa [heq]) (by rwa [heq])

/-- Scanning computes the layout of a source: it gives the tokens of which the source consists, with
gaps of spaces around them, and fails on every other text. -/
theorem scan_eq_ok_iff_layout (d : Dialect) (source : String) (ts : List Token) :
    scan d source = .ok ts ↔
      ∃ front pieces, Layout d 0 front pieces ∧ pieces.map Prod.fst = ts ∧
        source.toList = front ++ pieceText pieces := by
  rw [scan, scanFrom_eq_ok_iff]
  constructor
  · exact Splits.exists_layout
  · rintro ⟨front, pieces, hlayout, rfl, htext⟩
    rw [htext]
    exact hlayout.splits

end DefLang
