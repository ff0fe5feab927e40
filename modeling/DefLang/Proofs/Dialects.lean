import DefLang.Proofs.Cut
import DefLang.Proofs.Source
import Mathlib.Control.Monad.Basic

/-!
# One text in two dialects

Apart from braces, the two dialects have the same lexemes; only the kinds of words differ. A text
without braces is therefore cut into the same tokens in both, up to the kinds of its words, and in
the dialect without braces a text with braces fails at the first of them.

A definition in one dialect is never one in the other. Where it begins with `def`, the other dialect
reads this word as a name; where its body is in braces, the other dialect cannot scan the first one.
-/

namespace DefLang

open Token (scan scanFrom)

def isBrace (c : Char) : Bool :=
  c == '\x7b' || c == '\x7d'

/-- The token as another dialect has it: a word may be of another kind there. -/
def Token.recast (d : Dialect) (t : Token) : Token :=
  { t with
    kind := if t.lexeme.toList.all Char.isAlpha then .ofWord d t.lexeme.toList else t.kind }

section Lexeme

variable {d : Dialect} {kind : Token.Kind} {lexeme : List Char}

theorem isBrace_eq_false_of_isWordChar {c : Char} (h : isWordChar c = true) :
    isBrace c = false := by
  cases hc : isBrace c with
  | false => rfl
  | true =>
    simp only [isBrace, Bool.or_eq_true, beq_iff_eq] at hc
    rcases hc with rfl | rfl <;> exact absurd h (by decide)

theorem isBrace_eq_false_of_isSpace {c : Char} (h : isSpace c = true) : isBrace c = false := by
  cases hc : isBrace c with
  | false => rfl
  | true =>
    simp only [isBrace, Bool.or_eq_true, beq_iff_eq] at hc
    rcases hc with rfl | rfl <;> exact absurd h (by decide)

theorem Token.Kind.Fits.isBrace_eq_false (h : kind.Fits d lexeme)
    (hkind : d = .braced → kind ≠ .opener ∧ kind ≠ .closer) :
    ∀ c ∈ lexeme, isBrace c = false := by
  rcases h.mem_markers with hmem | ⟨-, -, hall⟩ | ⟨-, -, hall⟩
  · have hbrace : ∀ m ∈ markers d, (d = .braced → m.1 ≠ opener ∧ m.1 ≠ closer) →
        (m.2.all fun c => !isBrace c) = true := by
      cases d <;> decide
    simpa using hbrace _ hmem hkind
  · exact fun c hc => isBrace_eq_false_of_isWordChar (isWordChar_of_isAlpha (hall c hc))
  · exact fun c hc => isBrace_eq_false_of_isWordChar (isWordChar_of_isDigit (hall c hc))

theorem Token.isLexeme_recast {t : Token} (h : t.kind.IsLexeme d t.lexeme.toList)
    (hbrace : ∀ c ∈ t.lexeme.toList, isBrace c = false) (d' : Dialect) :
    (t.recast d').kind.IsLexeme d' t.lexeme.toList := by
  obtain ⟨kind, text, offset⟩ := t
  rw [recast]
  split
  · next hword =>
    obtain ⟨c, cs, heq, -⟩ := h.fits.exists_cons
    exact Kind.isLexeme_ofWord (by simp [heq]) (List.all_eq_true.1 hword)
  · next hword =>
    have hgroup : kind.group d ≠ .identifier :=
      fun hgroup => hword (List.all_eq_true.2 (h.fits.isAlpha hgroup).2)
    have hnoBrace (brace : Char) (hisBrace : isBrace brace = true) : text.toList ≠ [brace] := by
      intro heq
      rw [hbrace brace (by simp [heq])] at hisBrace
      cases hisBrace
    cases kind with
    | keyword => exact absurd rfl hgroup
    | identifier => exact absurd rfl hgroup
    | opener =>
      cases d with
      | worded => cases h.fits
      | braced => exact absurd (Option.some.inj h.fits).symm (hnoBrace '\x7b' (by decide))
    | closer =>
      cases d with
      | worded => exact absurd rfl hgroup
      | braced => exact absurd h.fits (hnoBrace '\x7d' (by decide))
    | _ => exact ⟨h.fits, by simp⟩

end Lexeme

section Text

variable {d : Dialect} {offset : Nat} {cs : List Char} {ts : List Token}

theorem Splits.isBrace_eq_false (h : Splits d offset cs ts)
    (hts : d = .braced → ∀ t ∈ ts, t.kind ≠ .opener ∧ t.kind ≠ .closer) :
    ∀ c ∈ cs, isBrace c = false := by
  induction h with
  | nil => simp
  | space hc _ ih => exact List.forall_mem_cons.2 ⟨isBrace_eq_false_of_isSpace hc, ih hts⟩
  | lexeme hlexeme _ _ ih =>
    have hfirst := hlexeme.fits.isBrace_eq_false fun hd => hts hd _ List.mem_cons_self
    have hrest := ih fun hd t ht => hts hd t (List.mem_cons_of_mem _ ht)
    exact List.forall_mem_append.2 ⟨hfirst, hrest⟩

/-- A text without braces is cut at the same places in each dialect. -/
theorem Splits.recast (h : Splits d offset cs ts) (hbrace : ∀ c ∈ cs, isBrace c = false)
    (d' : Dialect) : Splits d' offset cs (ts.map (Token.recast d')) := by
  induction h with
  | nil => exact .nil
  | space hc _ ih => exact .space hc (ih fun c hc' => hbrace c (List.mem_cons_of_mem _ hc'))
  | @lexeme offset kind lexeme rest ts hlexeme hfuses _ ih =>
    obtain ⟨hfirst, hrest⟩ := List.forall_mem_append.1 hbrace
    have ht : (String.ofList lexeme).toList = lexeme := String.toList_ofList
    have hrecast := Token.isLexeme_recast (t := ⟨kind, String.ofList lexeme, offset⟩)
      (by rwa [ht]) (by rwa [ht]) d'
    rw [ht] at hrecast
    exact .lexeme hrecast hfuses (ih hrest)

theorem stuck_brace {c : Char} (hc : isBrace c = true) (cs : List Char) :
    Stuck .worded (c :: cs) := by
  have hspace : isSpace c = false := by
    cases hc' : isSpace c with
    | false => rfl
    | true => rw [isBrace_eq_false_of_isSpace hc'] at hc; cases hc
  refine ⟨⟨c, cs, rfl, hspace⟩, fun kind lexeme rest hlexeme heq => ?_⟩
  obtain ⟨c', cs', rfl, -⟩ := hlexeme.fits.exists_cons
  cases heq
  rw [hlexeme.fits.isBrace_eq_false nofun c List.mem_cons_self] at hc
  cases hc

theorem fuses_brace_eq_false {brace : Char} (hbrace : isBrace brace = true)
    (before after : List Char) : fuses before (brace :: after) = false := by
  simp only [isBrace, Bool.or_eq_true, beq_iff_eq] at hbrace
  rcases hbrace with rfl | rfl <;> exact fuses_cons_eq_false (by decide) (by decide) _ _

theorem scan_worded_of_brace {source : String} {before after : List Char} {brace : Char}
    (hsource : source.toList = before ++ brace :: after) (hbrace : isBrace brace = true)
    (h : Splits .worded 0 before ts) :
    scan .worded source = .error ⟨byteLength before, String.ofList (brace :: after)⟩ := by
  rw [scan, hsource, scanFrom_append h (fuses_brace_eq_false hbrace before after),
    (stuck_brace hbrace after).scanFrom_eq, Nat.zero_add]
  rfl

end Text

theorem Definition.Derives.exists_opener {ts : List Token} {f : Definition}
    (h : Derives .braced ts f) :
    ∃ header opener rest, ts = header ++ opener :: rest ∧ opener.kind = .opener ∧
      ∀ t ∈ header, t.kind ≠ .opener ∧ t.kind ≠ .closer := by
  obtain ⟨header, opener, body, closer, rfl, hheader, hopener, -⟩ := derives_iff_header.1 h
  obtain ⟨t, rfl, ht⟩ := List.map_eq_singleton_iff.1 hopener
  exact ⟨header, t, _, rfl, ht, hheader.kind_ne⟩

theorem Definition.Derives.exists_keyword {d : Dialect} {ts : List Token} {f : Definition}
    (h : Derives d ts f) : ∃ t us, ts = t :: us ∧ t.kind = .keyword := by
  cases h with
  | intro hkeyword => exact ⟨_, _, rfl, hkeyword⟩

/-- No source defines something in both dialects. What is a definition in one of them fails in the
other at the word it begins with, which is a name there, or at the first brace. -/
theorem compile_other_dialect (source : String) (strict strict' : Bool) :
    (∀ out, compile ⟨.worded, strict⟩ source = .ok out →
      ∃ t ts, scan .worded source = .ok (t :: ts) ∧
        compile ⟨.braced, strict'⟩ source =
          .error (.grammar (.unexpected .keyword ⟨.identifier, "def", t.offset⟩))) ∧
      ∀ out, compile ⟨.braced, strict⟩ source = .ok out →
        ∃ before after, source.toList = before ++ '\x7b' :: after ∧ '\x7b' ∉ before ∧
          compile ⟨.worded, strict'⟩ source =
            .error (.scan ⟨byteLength before, String.ofList ('\x7b' :: after)⟩) := by
  constructor
  · intro out h
    obtain ⟨f, hsource, -⟩ := map_eq_ok_iff.1 h
    obtain ⟨ts, rest, hsplits, hderives, -⟩ := Definition.ofSource_eq_ok_iff.1 hsource
    obtain ⟨t, us, rfl, ht⟩ := hderives.exists_keyword
    have hlexeme : t.lexeme = "def" := by
      have hfits := (hsplits.isLexeme t (by simp)).fits
      rw [ht] at hfits
      exact String.toList_inj.1 hfits
    have hrecast := hsplits.recast (hsplits.isBrace_eq_false nofun) .braced
    have hfirst : t.recast .braced = ⟨.identifier, "def", t.offset⟩ := by
      rw [Token.recast, hlexeme]
      rfl
    rw [List.cons_append, List.map_cons, hfirst] at hrecast
    refine ⟨t, us ++ rest, scanFrom_eq_ok_iff.2 hsplits, ?_⟩
    exact compile_of_parse_eq_error (scanFrom_eq_ok_iff.2 hrecast) rfl
  · intro out h
    obtain ⟨f, hsource, -⟩ := map_eq_ok_iff.1 h
    obtain ⟨ts, rest, hsplits, hderives, -⟩ := Definition.ofSource_eq_ok_iff.1 hsource
    obtain ⟨header, opener, us, rfl, hopener, hheader⟩ := hderives.exists_opener
    have hlexeme : opener.lexeme.toList = ['\x7b'] := by
      have hfits := (hsplits.isLexeme opener (by simp)).fits
      rw [hopener] at hfits
      exact (Option.some.inj hfits).symm
    rw [List.append_assoc, List.cons_append] at hsplits
    obtain ⟨before, after, htext, -, hbefore⟩ := hsplits.exists_before
    rw [hlexeme, List.singleton_append] at htext
    have hbrace := hbefore.isBrace_eq_false fun _ => hheader
    refine ⟨before, after, htext, fun hmem => absurd (hbrace _ hmem) (by decide), ?_⟩
    exact compile_of_scan_eq_error
      (scan_worded_of_brace htext (by decide) (hbefore.recast hbrace .worded))

theorem compile_other_dialect_both :
    (∃ t ts, scan .worded "\n def act(a) a >= end x" = .ok (t :: ts) ∧
      compile ⟨.braced, true⟩ "\n def act(a) a >= end x" =
        .error (.grammar (.unexpected .keyword ⟨.identifier, "def", t.offset⟩))) ∧
    ∃ before after, "act f(def) \x7b end() \x7d \x7b".toList = before ++ '\x7b' :: after ∧
      '\x7b' ∉ before ∧ compile ⟨.worded, true⟩ "act f(def) \x7b end() \x7d \x7b" =
        .error (.scan ⟨byteLength before, String.ofList ('\x7b' :: after)⟩) := by
  have hworded : compile ⟨.worded, false⟩ "\n def act(a) a >= end x" =
      .ok "def act a a >= end" := by
    decide +kernel
  have hbraced : compile ⟨.braced, false⟩ "act f(def) \x7b end() \x7d \x7b" =
      .ok "def f def end  end" := by
    decide +kernel
  exact ⟨(compile_other_dialect _ false true).1 _ hworded,
    (compile_other_dialect _ false true).2 _ hbraced⟩

end DefLang
