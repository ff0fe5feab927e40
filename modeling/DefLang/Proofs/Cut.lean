import DefLang.Proofs.Layout

/-!
# Cutting a source

A text that splits into tokens can be cut in front of any of them: what stands before the cut splits
into the tokens before it, and the offset of the token is the place of the cut.

A text that does not split is cut where scanning fails. `Stuck d cs` says that no lexeme stands at
the front of `cs`. Scanning fails exactly where a text that splits comes to a text that is stuck,
and what is put behind a stuck text leaves it stuck.
-/

namespace DefLang

open Token (next? scanFrom)

variable {d : Dialect} {offset : Nat} {cs lexeme rest : List Char} {ts us : List Token}

theorem Splits.exists_before {t : Token} (h : Splits d offset cs (ts ++ t :: us)) :
    ∃ before after, cs = before ++ (t.lexeme.toList ++ after) ∧
      t.offset = offset + byteLength before ∧ Splits d offset before ts := by
  generalize hall : ts ++ t :: us = all at h
  induction h generalizing ts with
  | nil => simp at hall
  | @space offset c cs all hc _ ih =>
    obtain ⟨before, after, rfl, hoffset, hbefore⟩ := ih hall
    exact ⟨c :: before, after, rfl, by rw [hoffset, byteLength_cons, Nat.add_assoc],
      .space hc hbefore⟩
  | @lexeme offset kind lexeme rest all hlexeme hfuses _ ih =>
    cases ts with
    | nil =>
      cases hall
      exact ⟨[], rest, by simp, rfl, .nil⟩
    | cons u ts =>
      cases hall
      obtain ⟨before, after, rfl, hoffset, hbefore⟩ := ih rfl
      have hjunction : fuses lexeme before = false := by
        by_cases hnil : before = []
        · rw [hnil, fuses_nil_right]
        · rwa [fuses_append_right lexeme hnil] at hfuses
      exact ⟨lexeme ++ before, after, by simp, by rw [hoffset, byteLength_append, Nat.add_assoc],
        .lexeme hlexeme hjunction hbefore⟩

/-- No lexeme stands at the front of the text, and no space. -/
structure Stuck (d : Dialect) (cs : List Char) : Prop where
  exists_cons : ∃ c rest, cs = c :: rest ∧ isSpace c = false
  fuses : ∀ kind lexeme rest, Token.Kind.IsLexeme d kind lexeme → cs = lexeme ++ rest →
    fuses lexeme rest = true

theorem Stuck.scanFrom_eq (h : Stuck d cs) (offset : Nat) :
    scanFrom d offset cs = .error ⟨offset, String.ofList cs⟩ := by
  obtain ⟨c, cs', rfl, hc⟩ := h.exists_cons
  obtain ⟨hblank, hbreak⟩ := Bool.or_eq_false_iff.1 hc
  refine scanFrom_of_next?_eq_none hblank ?_
  cases hnext : next? d (c :: cs') with
  | none => rfl
  | some found =>
    obtain ⟨kind, lexeme⟩ := found
    by_cases hkind : kind = .lineBreak
    · subst hkind
      obtain ⟨rfl, hne⟩ := Token.Kind.lexeme?_lineBreak_eq_some_iff.1
        (Token.lexeme?_of_firstMatch hnext).2
      simp [hbreak] at hne
    · obtain ⟨hlexeme, rest, heq, hfuses⟩ := (Token.next?_eq_some_iff hkind).1 hnext
      rw [h.fuses kind lexeme rest hlexeme heq] at hfuses
      cases hfuses

theorem Stuck.append (h : Stuck d cs) (more : List Char) : Stuck d (cs ++ more) := by
  obtain ⟨c, cs', rfl, hc⟩ := h.exists_cons
  refine ⟨⟨c, cs' ++ more, rfl, hc⟩, fun kind lexeme rest hlexeme heq => ?_⟩
  rcases List.append_eq_append_iff.1 heq with ⟨tail, rfl, -⟩ | ⟨tail, htail, rfl⟩
  · -- A lexeme that goes beyond the shorter text begins with all of it, which is then a lexeme too.
    obtain ⟨kind', hlexeme'⟩ := hlexeme.exists_of_isPrefix (List.prefix_append _ _) (by simp)
    have hfuses := h.fuses kind' (c :: cs') [] hlexeme' (List.append_nil _).symm
    rw [fuses_nil_right] at hfuses
    cases hfuses
  · have hfuses := h.fuses kind lexeme tail hlexeme htail
    by_cases hnil : tail = []
    · rw [hnil, fuses_nil_right] at hfuses
      cases hfuses
    · rwa [fuses_append_right lexeme hnil]

theorem fuses_spaces_append {gap before : List Char} (hgap : ∀ c ∈ gap, isSpace c = true)
    (h : fuses before rest = false) : fuses (gap ++ before) rest = false := by
  by_cases hnil : before = []
  · rw [hnil, List.append_nil]
    cases hlast : gap.getLast? with
    | none => rw [fuses, hlast, Option.any_none]
    | some a =>
      have ha := hgap a (List.mem_of_getLast? hlast)
      have hgt : a ≠ '>' := by
        rintro rfl
        exact absurd ha (by decide)
      have hlt : a ≠ '<' := by
        rintro rfl
        exact absurd ha (by decide)
      rw [fuses_eq_of_getLast? hlast, ← fuses_eq_of_getLast? (List.getLast?_singleton (a := a))]
      exact fuses_singleton_eq_false (isWordChar_eq_false_of_isSpace ha) hgt hlt rest
  · rwa [fuses_append_left gap hnil]

theorem stuck_or_lexeme {c : Char} (hc : isSpace c = false) (cs : List Char) :
    Stuck d (c :: cs) ∨ ∃ kind lexeme rest, Token.Kind.IsLexeme d kind lexeme ∧
      c :: cs = lexeme ++ rest ∧ fuses lexeme rest = false := by
  by_cases hfront : ∃ kind lexeme rest, Token.Kind.IsLexeme d kind lexeme ∧
      c :: cs = lexeme ++ rest ∧ fuses lexeme rest = false
  · exact .inr hfront
  · refine .inl ⟨⟨c, cs, rfl, hc⟩, fun kind lexeme rest hlexeme heq => ?_⟩
    cases hfuses : fuses lexeme rest with
    | true => rfl
    | false => exact absurd ⟨kind, lexeme, rest, hlexeme, heq, hfuses⟩ hfront

theorem exists_splits_stuck (d : Dialect) (offset : Nat) (cs : List Char) :
    ∃ before rest ts, cs = before ++ rest ∧ Splits d offset before ts ∧
      fuses before rest = false ∧ (rest = [] ∨ Stuck d rest) := by
  -- By induction on the length, since a step takes off a whole lexeme.
  induction hn : cs.length using Nat.strongRecOn generalizing offset cs with
  | ind n ih =>
    cases cs with
    | nil => exact ⟨[], [], [], rfl, .nil, rfl, .inl rfl⟩
    | cons c cs =>
      subst hn
      cases hc : isSpace c with
      | true =>
        obtain ⟨before, rest, ts, rfl, hsplits, hfuses, hrest⟩ :=
          ih cs.length (by simp) (offset + c.utf8Size) cs rfl
        exact ⟨c :: before, rest, ts, rfl, .space hc hsplits,
          fuses_spaces_append (List.forall_mem_singleton.2 hc) hfuses, hrest⟩
      | false =>
        rcases stuck_or_lexeme (d := d) hc cs with hstuck |
          ⟨kind, lexeme, tail, hlexeme, heq, hfuses⟩
        · exact ⟨[], c :: cs, [], rfl, .nil, rfl, .inr hstuck⟩
        · have hshorter : tail.length < (c :: cs).length := by
            obtain ⟨c', cs', rfl, -⟩ := hlexeme.fits.exists_cons
            simp only [heq, List.length_append, List.length_cons]
            omega
          obtain ⟨before, rest, ts, rfl, hsplits, hrest, hend⟩ :=
            ih tail.length hshorter (offset + byteLength lexeme) tail rfl
          obtain ⟨hbefore, hjunction⟩ := (fuses_append_assoc lexeme before rest).2 ⟨hrest, hfuses⟩
          exact ⟨lexeme ++ before, rest, _, by rw [heq, List.append_assoc],
            .lexeme hlexeme hbefore hsplits, hjunction, hend⟩

/-- Scanning fails where a text that splits comes to one that is stuck. -/
theorem scanFrom_eq_error_iff {e : ScanError} :
    scanFrom d offset cs = .error e ↔
      ∃ before rest ts, cs = before ++ rest ∧ Splits d offset before ts ∧
        fuses before rest = false ∧ Stuck d rest ∧
        e = ⟨offset + byteLength before, String.ofList rest⟩ := by
  constructor
  · intro h
    obtain ⟨before, rest, ts, rfl, hsplits, hfuses, rfl | hstuck⟩ := exists_splits_stuck d offset cs
    · rw [List.append_nil, scanFrom_eq_ok_iff.2 hsplits] at h
      cases h
    · rw [scanFrom_append hsplits hfuses, hstuck.scanFrom_eq] at h
      cases h
      exact ⟨before, rest, ts, rfl, hsplits, hfuses, hstuck, rfl⟩
  · rintro ⟨before, rest, ts, rfl, hsplits, hfuses, hstuck, rfl⟩
    rw [scanFrom_append hsplits hfuses, hstuck.scanFrom_eq]
    rfl

theorem scanFrom_append_of_error {e : ScanError} (h : scanFrom d offset cs = .error e)
    (more : List Char) :
    scanFrom d offset (cs ++ more) = .error ⟨e.offset, e.remaining ++ String.ofList more⟩ := by
  obtain ⟨before, rest, ts, rfl, hsplits, hfuses, hstuck, rfl⟩ := scanFrom_eq_error_iff.1 h
  obtain ⟨c, rest', rfl, -⟩ := hstuck.exists_cons
  rw [scanFrom_eq_error_iff]
  refine ⟨before, c :: rest' ++ more, ts, by simp, hsplits, ?_, hstuck.append more, ?_⟩
  · rwa [fuses_append_right before (by simp)]
  · rw [String.ofList_append]

end DefLang
