import DefLang.Proofs.Cut
import DefLang.Proofs.Source
import DefLang.Proofs.Viable
import Mathlib.Control.Monad.Basic

/-!
# Continuing a source

A source that does not compile is unfinished or wrong. It is unfinished when its failure is at its
end, and then some text behind a space completes it: a spelling of the kinds that are missing, each
behind a space of its own. It is wrong when its failure is at some place in it, and then no text
behind a space makes it right.
-/

namespace DefLang

open Token (scan scanFrom)

def beginsWithSpace (text : String) : Bool :=
  text.toList.head?.any isSpace

namespace Dialect

def spelling (d : Dialect) : Token.Kind → String
  | .keyword => d.keyword
  | .opener => d.opener?.getD ""
  | .closer => d.closer
  | .identifier => "x"
  | .integer => "0"
  | .openParen => "("
  | .closeParen => ")"
  | .comma => ","
  | .operator => "+"
  | .lineBreak => "\n"

def hasKind (d : Dialect) : Token.Kind → Bool
  | .opener => d.opener?.isSome
  | .lineBreak => false
  | _ => true

/-- A text with tokens of these kinds, each behind a space. -/
def spellOut (d : Dialect) (kinds : List Token.Kind) : List Char :=
  kinds.flatMap fun kind => " ".toList ++ (d.spelling kind).toList

theorem isLexeme_spelling {d : Dialect} {kind : Token.Kind} (h : d.hasKind kind = true) :
    kind.IsLexeme d (d.spelling kind).toList := by
  cases kind with
  | keyword => exact ⟨rfl, by simp⟩
  | opener =>
    obtain ⟨text, htext⟩ := Option.isSome_iff_exists.1 h
    exact ⟨by simp [Token.Kind.Fits, spelling, htext], by simp⟩
  | closer => exact ⟨rfl, by simp⟩
  | identifier =>
    have hne : "x".toList ≠ [] := by decide
    have halpha : "x".toList.all Char.isAlpha = true := by decide
    exact ⟨⟨hne, List.all_eq_true.1 halpha⟩, fun _ => by cases d <;> decide⟩
  | integer =>
    have hne : "0".toList ≠ [] := by decide
    have hdigits : "0".toList.all Char.isDigit = true := by decide
    exact ⟨⟨hne, List.all_eq_true.1 hdigits⟩, by simp⟩
  | openParen => exact ⟨(rfl : "(".toList = ['(']), by simp⟩
  | closeParen => exact ⟨(rfl : ")".toList = [')']), by simp⟩
  | comma => exact ⟨(rfl : ",".toList = [',']), by simp⟩
  | operator => exact ⟨⟨.add, rfl⟩, by simp⟩
  | lineBreak => cases h

theorem splitsInto_spellOut (d : Dialect) {kinds : List Token.Kind}
    (h : kinds.all d.hasKind = true) :
    SplitsInto d (d.spellOut kinds) fun ts =>
      ts.map Token.kind = kinds ∧ ∀ t ∈ ts, t.lexeme = d.spelling t.kind := by
  have hpiece : ∀ kind ∈ kinds, SplitsInto d (d.spelling kind).toList fun ts =>
      ∃ t : Token, t.kind = kind ∧ [t] = ts ∧ t.lexeme = d.spelling t.kind := by
    intro kind hkind
    refine (SplitsInto.lexeme (isLexeme_spelling (List.all_eq_true.1 h kind hkind))).mono ?_
    rintro _ ⟨t, rfl, hlexeme, rfl⟩
    exact ⟨t, rfl, rfl, hlexeme⟩
  refine (SplitsInto.spaceLed hpiece).mono ?_
  rintro _ ⟨ts, hkinds, rfl, hlexemes⟩
  rw [← List.flatMap_def, List.flatMap_singleton']
  exact ⟨hkinds, hlexemes⟩

end Dialect

theorem Awaited.all_hasKind_missing {d : Dialect} {awaited : Awaited}
    (h : awaited = .opener → d.opener?.isSome = true) :
    (awaited.missing d).all d.hasKind = true := by
  have hblock : (block d).all d.hasKind = true := by cases d <;> rfl
  have hclosing (outer) : (closing outer).all d.hasKind = true := by
    simp [closing, Dialect.hasKind]
  cases awaited with
  | opener => simp [missing, Dialect.hasKind, h rfl]
  | body => rfl
  | nothing => rfl
  | _ => simp only [missing, List.all_cons, Dialect.hasKind, hblock, hclosing, Bool.true_and]

section Continuation

variable {o : Options} {source : String} {ts : List Token} {error : GrammarError}

/-- A source whose failure is at its end can be completed. -/
theorem exists_continuation (hscan : scan o.dialect source = .ok ts)
    (hparse : Definition.parse o ts = .error error) (htoken : error.token? = none) :
    ∃ text out, beginsWithSpace text = true ∧ compile o (source ++ text) = .ok out := by
  obtain ⟨q, hq⟩ := Definition.exists_advance_of_parse hparse htoken
  have hmissing := Awaited.all_hasKind_missing (Progress.opener?_of_start hq)
  obtain ⟨us, hsplits, hkinds, hlexemes⟩ :=
    (o.dialect.splitsInto_spellOut hmissing).space (0 + byteLength source.toList)
  have hintegers : ∀ t ∈ us, t.kind = .integer → (Decimal.read? t.lexeme).isSome := by
    intro t ht hkind
    rw [hlexemes t ht, hkind]
    exact (by decide : (Decimal.read? "0").isSome = true)
  obtain ⟨f, hrun⟩ := Progress.completedBy_missing o q us hkinds hintegers
  let text := String.ofList (" ".toList ++ o.dialect.spellOut (q.awaited.missing o.dialect))
  have hspace : beginsWithSpace text = true := by
    rw [beginsWithSpace, String.toList_ofList]
    rfl
  have hscan' : scan o.dialect (source ++ text) = .ok (ts ++ us) := by
    rw [scan, String.toList_append, String.toList_ofList, scanFrom_eq_ok_iff]
    exact (scanFrom_eq_ok_iff.1 hscan).append hsplits (fuses_space_append _ _)
  have hparse' : Definition.parse o (ts ++ us) = .ok f := by
    rw [Definition.parse_eq_run, Progress.run_append, hq, ok_bind, hrun]
  exact ⟨text, f.render, hspace, compile_eq_ok_iff.2 ⟨ts ++ us, f, hscan', hparse', rfl⟩⟩

theorem exists_scan_append {text : String} {us : List Token}
    (hscan : scan o.dialect source = .ok ts) (hspace : beginsWithSpace text = true)
    (h : scan o.dialect (source ++ text) = .ok us) : ∃ vs, us = ts ++ vs := by
  obtain ⟨c, hc, hspace⟩ := (Option.any_eq_true ..).1 hspace
  obtain ⟨rest, hrest⟩ := List.head?_eq_some_iff.1 hc
  rw [scan, String.toList_append, hrest, scanFrom_append (scanFrom_eq_ok_iff.1 hscan)
    (fuses_space_eq_false hspace rest), map_eq_ok_iff] at h
  obtain ⟨vs, -, rfl⟩ := h
  exact ⟨vs, rfl⟩

theorem compile_append_ne_ok {failure : Failure} {text : String}
    (h : compile o source = .error failure) (hoffset : failure.offset? ≠ none)
    (hspace : beginsWithSpace text = true) (out : String) :
    compile o (source ++ text) ≠ .ok out := by
  intro hok
  obtain ⟨us, f, hscan', hparse', -⟩ := compile_eq_ok_iff.1 hok
  rcases compile_eq_error_iff.1 h with ⟨error, hscan, rfl⟩ | ⟨ts, error, hscan, hparse, rfl⟩
  · rw [scan, String.toList_append, scanFrom_append_of_error hscan] at hscan'
    cases hscan'
  · obtain ⟨vs, rfl⟩ := exists_scan_append hscan hspace hscan'
    have htoken : error.token?.isSome = true := by
      rw [← Option.ne_none_iff_isSome]
      exact fun hnone => hoffset (by rw [Failure.offset?, hnone, Option.map_none])
    rw [Definition.parse_append_of_token? hparse htoken vs] at hparse'
    cases hparse'

end Continuation

/-- Unfinished sources are told from wrong ones: the failure is at the end of the source exactly
when the source can be scanned, does not compile, and does so with some text behind a space. -/
theorem offset?_eq_none_iff_continues (o : Options) (source : String) :
    ((∃ failure, compile o source = .error failure ∧ failure.offset? = none) ↔
      (∃ ts, scan o.dialect source = .ok ts) ∧ (∀ out, compile o source ≠ .ok out) ∧
        ∃ text out, beginsWithSpace text = true ∧ compile o (source ++ text) = .ok out) ∧
      ∀ failure, compile o source = .error failure → failure.offset? ≠ none →
        ∀ text, beginsWithSpace text = true → ∀ out, compile o (source ++ text) ≠ .ok out := by
  refine ⟨⟨?_, ?_⟩, fun failure h hoffset text hspace => compile_append_ne_ok h hoffset hspace⟩
  · rintro ⟨failure, h, hoffset⟩
    rcases compile_eq_error_iff.1 h with ⟨error, -, rfl⟩ | ⟨ts, error, hscan, hparse, rfl⟩
    · cases hoffset
    · have htoken : error.token? = none := Option.map_eq_none_iff.1 hoffset
      exact ⟨⟨ts, hscan⟩, by simp [h], exists_continuation hscan hparse htoken⟩
  · rintro ⟨⟨ts, hscan⟩, hne, text, out, hspace, hok⟩
    cases h : compile o source with
    | ok out' => exact absurd h (hne out')
    | error failure =>
      refine ⟨failure, rfl, ?_⟩
      cases hoffset : failure.offset? with
      | none => rfl
      | some offset =>
        exact absurd hok (compile_append_ne_ok h (by simp [hoffset]) hspace out)

theorem offset?_eq_none_iff_continues_calls :
    (∃ text out, beginsWithSpace text = true ∧
      compile ⟨.braced, true⟩ ("act f(a) \x7b g(h(1," ++ text) = .ok out) ∧
    ∀ text, beginsWithSpace text = true →
      ∀ out, compile ⟨.worded, false⟩ ("def f(a) g(," ++ text) ≠ .ok out := by
  have hend : compile ⟨.braced, true⟩ "act f(a) \x7b g(h(1," =
      .error (.grammar (.endOfInput .integer)) := by
    decide +kernel
  have hcomma : compile ⟨.worded, false⟩ "def f(a) g(," =
      .error (.grammar (.unexpected .identifier ⟨.comma, ",", 11⟩)) := by
    decide +kernel
  exact ⟨((offset?_eq_none_iff_continues _ _).1.1 ⟨_, hend, rfl⟩).2.2,
    (offset?_eq_none_iff_continues _ _).2 _ hcomma (by decide)⟩

end DefLang
