import DefLang.Proofs.Cut
import Mathlib.Order.Bounds.Basic

/-!
# Flaws of a text

A text has a flaw where a word begins that is neither of letters nor of digits, and where a
character stands that is in no lexeme (`Flaw`). Both can be seen without going through the text in
front of them.

No flaw begins inside a lexeme, and where no lexeme stands at the front of a text there is a flaw.
So scanning fails exactly on the texts with flaws, and stops in front of the first one.
-/

namespace DefLang

open Token (scan scanFrom)

def symbolChars : List Char :=
  "(),+-*/=><&|%!".toList

/-- Whether a character is a space or can be in a lexeme of the dialect. -/
def isLegal (d : Dialect) (c : Char) : Bool :=
  isWordChar c || isSpace c || symbolChars.contains c ||
    d == .braced && (c == '\x7b' || c == '\x7d')

/-- A run of word characters that goes on neither in front nor behind. -/
structure IsWord (before word after : List Char) : Prop where
  ne_nil : word ≠ []
  all_word : ∀ c ∈ word, isWordChar c = true
  starts : before.getLast?.any isWordChar = false
  ends : after.head?.any isWordChar = false

/-- Behind `before` there is a word that is neither of letters nor of digits, or a character that is
in no lexeme. -/
inductive Flaw (d : Dialect) (before : List Char) : List Char → Prop
  | word {word after : List Char} (hword : IsWord before word after)
      (hletters : ¬ ∀ c ∈ word, c.isAlpha = true) (hdigits : ¬ ∀ c ∈ word, c.isDigit = true) :
      Flaw d before (word ++ after)
  | char {c : Char} {after : List Char} (hc : isLegal d c = false) : Flaw d before (c :: after)

/-- The text has a flaw at byte `n`. -/
def FlawAt (d : Dialect) (cs : List Char) (n : Nat) : Prop :=
  ∃ before rest, cs = before ++ rest ∧ byteLength before = n ∧ Flaw d before rest

theorem IsWord.takeWhile_eq {before word after : List Char} (h : IsWord before word after) :
    (word ++ after).takeWhile isWordChar = word := by
  rw [List.takeWhile_append_of_pos h.all_word]
  cases after with
  | nil => simp
  | cons b after =>
    have hb : isWordChar b = false := by simpa using h.ends
    simp [hb]

theorem Flaw.exists_cons {d : Dialect} {before rest : List Char} (h : Flaw d before rest) :
    ∃ c rest', rest = c :: rest' ∧ isSpace c = false := by
  cases h with
  | word hword =>
    obtain ⟨c, word', rfl⟩ := List.exists_cons_of_ne_nil hword.ne_nil
    exact ⟨c, _, rfl, isSpace_eq_false_of_isWordChar (hword.all_word c List.mem_cons_self)⟩
  | char hc =>
    simp only [isLegal, Bool.or_eq_false_iff] at hc
    exact ⟨_, _, rfl, hc.1.1.2⟩

section Lexeme

variable {d : Dialect} {kind : Token.Kind} {lexeme rest : List Char}

theorem Token.Kind.Fits.isLegal_eq (h : kind.Fits d lexeme) :
    ∀ c ∈ lexeme, isLegal d c = true := by
  rcases h.mem_markers with hmem | ⟨-, -, hall⟩ | ⟨-, -, hall⟩
  · have hlegal : ∀ m ∈ markers d, m.2.all (isLegal d) = true := by
      cases d <;> decide
    exact List.all_eq_true.1 (hlegal _ hmem)
  · intro c hc
    simp [isLegal, isWordChar_of_isAlpha (hall c hc)]
  · intro c hc
    simp [isLegal, isWordChar_of_isDigit (hall c hc)]

theorem Token.Kind.Fits.isAlpha_or_isDigit (h : kind.Fits d lexeme)
    (hword : ∀ c ∈ lexeme, isWordChar c = true) :
    (∀ c ∈ lexeme, c.isAlpha = true) ∨ ∀ c ∈ lexeme, c.isDigit = true := by
  rcases h.mem_markers with hmem | ⟨-, -, hall⟩ | ⟨-, -, hall⟩
  · have hletters : ∀ m ∈ markers d, m.2.all isWordChar = true → m.2.all Char.isAlpha = true := by
      cases d <;> decide
    exact .inl (List.all_eq_true.1 (hletters _ hmem (List.all_eq_true.2 hword)))
  · exact .inl hall
  · exact .inr hall

theorem IsWord.eq_lexeme {front inner tail word after : List Char}
    (hword : IsWord (front ++ inner) word after) (hlexeme : kind.IsLexeme d lexeme)
    (hfuses : fuses lexeme rest = false) (hcut : lexeme = inner ++ tail) (htail : tail ≠ [])
    (htext : tail ++ rest = word ++ after) : lexeme = word := by
  obtain ⟨c, tail, rfl⟩ := List.exists_cons_of_ne_nil htail
  obtain ⟨c', word, rfl⟩ := List.exists_cons_of_ne_nil hword.ne_nil
  obtain ⟨rfl, -⟩ := List.cons.inj htext
  have hc : c ∈ lexeme := by simp [hcut]
  have hall : ∀ c ∈ lexeme, isWordChar c = true := by
    apply hlexeme.fits.isWordChar_eq.resolve_right
    intro hnone
    have hcWord := hword.all_word c List.mem_cons_self
    rw [hnone c hc] at hcWord
    cases hcWord
  -- A character in front of the word inside the lexeme would be one more of its characters.
  have hinner : inner = [] := by
    cases hlast : inner.getLast? with
    | none => exact List.getLast?_eq_none_iff.1 hlast
    | some a =>
      have ha : a ∈ lexeme := by simp [hcut, List.mem_of_getLast? hlast]
      have hstarts := hword.starts
      rw [List.getLast?_append, hlast, Option.some_or, Option.any_some, hall a ha] at hstarts
      cases hstarts
  rw [hinner, List.nil_append] at hcut
  calc lexeme = (lexeme ++ rest).takeWhile isWordChar :=
        (takeWhile_append_of_fuses (fun _ h => h) (List.ne_nil_of_mem hc) hall hfuses).symm
    _ = c :: word := by rw [hcut, htext, hword.takeWhile_eq]

theorem not_flaw_of_isLexeme {front inner tail : List Char} (hlexeme : kind.IsLexeme d lexeme)
    (hfuses : fuses lexeme rest = false) (hcut : lexeme = inner ++ tail) (htail : tail ≠ []) :
    ¬ Flaw d (front ++ inner) (tail ++ rest) := by
  intro hflaw
  generalize htext : tail ++ rest = text at hflaw
  cases hflaw with
  | word hword hletters hdigits =>
    have hwhole := hword.eq_lexeme hlexeme hfuses hcut htail htext
    subst hwhole
    exact (hlexeme.fits.isAlpha_or_isDigit hword.all_word).elim hletters hdigits
  | char hc =>
    obtain ⟨c, tail, rfl⟩ := List.exists_cons_of_ne_nil htail
    obtain ⟨rfl, -⟩ := List.cons.inj htext
    rw [hlexeme.fits.isLegal_eq c (by simp [hcut])] at hc
    cases hc

end Lexeme

theorem Splits.isPrefix_of_flaw {d : Dialect} {offset : Nat} {cs rest inner after : List Char}
    {ts : List Token} (h : Splits d offset cs ts) (hfuses : fuses cs rest = false)
    (front : List Char) (heq : cs ++ rest = inner ++ after)
    (hflaw : Flaw d (front ++ inner) after) : cs <+: inner := by
  induction h generalizing front inner with
  | nil => exact List.nil_prefix
  | @space offset c cs ts hc _ ih =>
    cases inner with
    | nil =>
      obtain ⟨c', rest', rfl, hc'⟩ := hflaw.exists_cons
      cases heq
      rw [hc] at hc'
      cases hc'
    | cons b inner =>
      obtain ⟨rfl, htail⟩ := List.cons.inj heq
      rw [List.append_cons] at hflaw
      exact List.cons_prefix_cons.2 ⟨rfl, ih (fuses_tail_eq_false hfuses) _ htail hflaw⟩
  | @lexeme offset kind lexeme tail ts hlexeme hfuses' _ ih =>
    obtain ⟨htail, hjunction⟩ := (fuses_append_assoc lexeme tail rest).1 ⟨hfuses', hfuses⟩
    rw [List.append_assoc] at heq
    by_cases hinner : lexeme <+: inner
    · obtain ⟨inner, rfl⟩ := hinner
      rw [List.append_assoc, List.append_cancel_left_eq] at heq
      rw [← List.append_assoc] at hflaw
      exact (List.prefix_append_right_inj lexeme).2 (ih htail _ heq hflaw)
    · rcases List.append_eq_append_iff.1 heq with ⟨more, rfl, -⟩ | ⟨cut, hcut, rfl⟩
      · exact absurd (List.prefix_append lexeme more) hinner
      · have hne : cut ≠ [] := by
          rintro rfl
          exact hinner (by simp [hcut])
        exact absurd hflaw (not_flaw_of_isLexeme hlexeme hjunction hcut hne)

theorem Stuck.not_operator {d : Dialect} (op : Operator) (rest : List Char) :
    ¬ Stuck d (op.symbol.toList ++ rest) := by
  have hlexeme (op : Operator) : Token.Kind.operator.IsLexeme d op.symbol.toList :=
    ⟨⟨op, rfl⟩, by simp⟩
  have hlonger (op : Operator) (hop : op = .ge ∨ op = .le) (rest : List Char) :
      ¬ Stuck d (op.symbol.toList ++ rest) := by
    intro h
    have hfuses := h.fuses _ _ _ (hlexeme op) rfl
    rw [Token.Kind.fuses_operator_iff] at hfuses
    rcases hop with rfl | rfl <;> simp at hfuses
  intro h
  -- If the operator fuses with the rest, the text begins with a longer one, which does not.
  obtain ⟨hop, hhead⟩ :=
    (Token.Kind.fuses_operator_iff op).1 (h.fuses _ _ _ (hlexeme op) rfl)
  obtain ⟨rest, rfl⟩ := List.head?_eq_some_iff.1 hhead
  rcases hop with rfl | rfl
  · exact hlonger .ge (.inl rfl) rest h
  · exact hlonger .le (.inr rfl) rest h

theorem Stuck.isLegal_eq_false {d : Dialect} {c : Char} {rest : List Char} (h : Stuck d (c :: rest))
    (hspace : isSpace c = false) (hword : isWordChar c = false) : isLegal d c = false := by
  have hsingle (kind : Token.Kind) (hkind : kind.IsLexeme d [c]) (hgt : c ≠ '>') (hlt : c ≠ '<') :
      False := by
    have hfuses := h.fuses kind [c] rest hkind rfl
    rw [fuses_singleton_eq_false hword hgt hlt] at hfuses
    cases hfuses
  have hsymbol : c ∉ symbolChars := by
    intro hc
    have hcases : symbolChars.all (fun c => c == '(' || c == ')' || c == ',' ||
        Token.operatorSymbols.any (·.toList == [c])) = true := by
      decide
    have hkinds := List.all_eq_true.1 hcases c hc
    simp only [Bool.or_eq_true, beq_iff_eq, List.any_eq_true, or_assoc] at hkinds
    rcases hkinds with rfl | rfl | rfl | ⟨symbol, hmem, hop⟩
    · exact hsingle .openParen ⟨rfl, by simp⟩ (by decide) (by decide)
    · exact hsingle .closeParen ⟨rfl, by simp⟩ (by decide) (by decide)
    · exact hsingle .comma ⟨rfl, by simp⟩ (by decide) (by decide)
    · obtain ⟨op, rfl⟩ := Token.mem_operatorSymbols_iff.1 hmem
      rw [← List.singleton_append, ← hop] at h
      exact Stuck.not_operator op rest h
  have hbrace : d = .braced → c ≠ '\x7b' ∧ c ≠ '\x7d' := by
    rintro rfl
    constructor
    · rintro rfl
      exact hsingle .opener ⟨rfl, by simp⟩ (by decide) (by decide)
    · rintro rfl
      exact hsingle .closer ⟨rfl, by simp⟩ (by decide) (by decide)
  cases d with
  | worded => simp [isLegal, hword, hspace, hsymbol]
  | braced => simp [isLegal, hword, hspace, hsymbol, hbrace rfl]

theorem flaw_of_stuck_word {d : Dialect} {before word after : List Char}
    (h : Stuck d (word ++ after)) (hword : IsWord before word after) :
    Flaw d before (word ++ after) := by
  have hfuses : fuses word after = false := by
    rw [fuses_eq_cutsWord_of_word hword.all_word, Token.cutsWord, hword.ends, Bool.and_false]
  have hlexeme (kind : Token.Kind) (hkind : kind.IsLexeme d word) : False := by
    rw [h.fuses kind word after hkind rfl] at hfuses
    cases hfuses
  apply Flaw.word hword
  · intro hletters
    exact hlexeme _ (Token.Kind.isLexeme_ofWord hword.ne_nil hletters)
  · intro hdigits
    exact hlexeme .integer ⟨⟨hword.ne_nil, hdigits⟩, by simp⟩

theorem flaw_of_stuck {d : Dialect} {before rest : List Char} (h : Stuck d rest)
    (hfuses : fuses before rest = false) : Flaw d before rest := by
  obtain ⟨c, rest, rfl, hc⟩ := h.exists_cons
  cases hword : isWordChar c with
  | false => exact .char (h.isLegal_eq_false hc hword)
  | true =>
    have hsplit : (c :: rest).takeWhile isWordChar ++ (c :: rest).dropWhile isWordChar =
        c :: rest :=
      List.takeWhile_append_dropWhile
    rw [← hsplit] at h ⊢
    refine flaw_of_stuck_word h ⟨by simp [hword], List.all_eq_true.1 List.all_takeWhile, ?_, ?_⟩
    · cases hlast : before.getLast? with
      | none => rfl
      | some a =>
        rw [fuses_eq_of_getLast? hlast, List.head?_cons, Option.any_some, hword, Bool.and_true,
          Bool.or_eq_false_iff] at hfuses
        simpa using hfuses.1
    · cases hhead : ((c :: rest).dropWhile isWordChar).head? with
      | none => rfl
      | some b =>
        have hb := List.head?_dropWhile_not isWordChar (c :: rest)
        rw [hhead] at hb
        simpa using hb

theorem Splits.not_flawAt {d : Dialect} {offset n : Nat} {cs : List Char} {ts : List Token}
    (h : Splits d offset cs ts) : ¬ FlawAt d cs n := by
  rintro ⟨before, rest, heq, -, hflaw⟩
  obtain ⟨more, rfl⟩ :=
    h.isPrefix_of_flaw (fuses_nil_right cs) [] (by rwa [List.append_nil]) hflaw
  obtain ⟨c, rest, rfl, -⟩ := hflaw.exists_cons
  simp at heq

/-- What can be split and ends in front of a text that is stuck ends at the first flaw. -/
theorem Splits.isLeast_flawAt {d : Dialect} {offset : Nat} {before rest : List Char}
    {ts : List Token} (h : Splits d offset before ts) (hfuses : fuses before rest = false)
    (hstuck : Stuck d rest) :
    IsLeast {n | FlawAt d (before ++ rest) n} (byteLength before) := by
  refine ⟨⟨before, rest, rfl, rfl, flaw_of_stuck hstuck hfuses⟩, ?_⟩
  rintro n ⟨before', rest', heq, rfl, hflaw⟩
  obtain ⟨more, rfl⟩ := h.isPrefix_of_flaw hfuses [] heq hflaw
  rw [byteLength_append]
  omega

/-- Scanning fails on the texts that have a flaw, and stops in front of the first one. -/
theorem scan_eq_error_iff_first_flaw (d : Dialect) (source : String) :
    ((∃ e, scan d source = .error e) ↔ ∃ n, FlawAt d source.toList n) ∧
      ∀ e, scan d source = .error e ↔ IsLeast {n | FlawAt d source.toList n} e.offset ∧
        ∃ before, splitAtByte? e.offset source.toList = some (before, e.remaining.toList) := by
  obtain ⟨before, rest, ts, hsource, hsplits, hfuses, rfl | hstuck⟩ :=
    exists_splits_stuck d 0 source.toList
  · have hnone (n : Nat) : ¬ FlawAt d source.toList n := by
      rw [hsource, List.append_nil]
      exact hsplits.not_flawAt
    have hscan : scan d source = .ok ts := by
      rw [scan, hsource, List.append_nil, scanFrom_eq_ok_iff]
      exact hsplits
    rw [hscan]
    refine ⟨⟨?_, ?_⟩, fun e => ⟨?_, ?_⟩⟩
    · rintro ⟨e, ⟨⟩⟩
    · rintro ⟨n, hn⟩
      exact absurd hn (hnone n)
    · rintro ⟨⟩
    · rintro ⟨⟨hflaw, -⟩, -⟩
      exact absurd hflaw (hnone e.offset)
  · have hscan : scan d source = .error ⟨byteLength before, String.ofList rest⟩ := by
      rw [scan, hsource, scanFrom_append hsplits hfuses, hstuck.scanFrom_eq, Nat.zero_add]
      rfl
    have hleast := hsplits.isLeast_flawAt hfuses hstuck
    have hcut : splitAtByte? (byteLength before) (before ++ rest) = some (before, rest) :=
      splitAtByte?_eq_some_iff.2 ⟨rfl, rfl⟩
    rw [hscan, hsource]
    refine ⟨⟨fun _ => ⟨_, hleast.1⟩, fun _ => ⟨_, rfl⟩⟩, fun e => ⟨?_, ?_⟩⟩
    · rintro ⟨⟩
      exact ⟨hleast, before, by rw [hcut, String.toList_ofList]⟩
    · obtain ⟨offset, remaining⟩ := e
      rintro ⟨hleast', before', hcut'⟩
      obtain rfl : byteLength before = offset := hleast.unique hleast'
      rw [hcut, Option.some.injEq, Prod.mk.injEq] at hcut'
      rw [hcut'.2, String.ofList_toList]

end DefLang
