import DefLang.Proofs.Cut
import DefLang.Proofs.Place
import DefLang.Proofs.Viable
import Mathlib.Control.Monad.Basic

/-!
# What a report points at

A source that does not compile is cut by its failure: what stands in front, the text to blame, and
the rest (`Failure.Blames`). The text to blame is one character that begins no lexeme, a lexeme, or
nothing at the end of the source, and holds no space. So it is on one line, and trimming this line
leaves it there: the caret of the report stands under its first character.

Messages of failures to compile hold no line feed, since they quote texts in one line, and their
reports have three lines.
-/

namespace DefLang

theorem mem_toDigits {b n : Nat} {c : Char} (hb : 1 < b) (h : c ∈ Nat.toDigits b n) :
    ∃ k, c = Nat.digitChar k := by
  induction n using Nat.strongRecOn with
  | ind n ih =>
    rw [Nat.toDigits_eq_if hb] at h
    split at h
    · exact ⟨n, List.mem_singleton.1 h⟩
    · rcases List.mem_append.1 h with hinit | hlast
      · exact ih (n / b) (Nat.div_lt_self (by omega) hb) hinit
      · exact ⟨n % b, List.mem_singleton.1 hlast⟩

theorem lineFeed_not_mem_toDigits {b : Nat} (hb : 1 < b) (n : Nat) : '\n' ∉ Nat.toDigits b n := by
  intro hmem
  obtain ⟨k, hk⟩ := mem_toDigits hb hmem
  simp at hk

namespace Quoted

theorem lineFeed_not_mem_encodeChar (c : Char) : '\n' ∉ encodeChar c := by
  rw [encodeChar]
  cases hshort : shortEscape? c with
  | some letter =>
    have hletter : letter ≠ '\n' := by
      rintro rfl
      unfold shortEscape? at hshort
      split at hshort <;> cases hshort
    simp [hletter.symm]
  | none =>
    have hc : c ≠ '\n' := by
      rintro rfl
      cases hshort
    by_cases hhidden : isHidden c = true
    · simp [hhidden, lineFeed_not_mem_toDigits]
    · simp [hhidden, hc.symm]

end Quoted

theorem lineFeed_not_mem_quote (text : String) : '\n' ∉ (quote text).toList := by
  simp [quote, Quoted.encode, Quoted.lineFeed_not_mem_encodeChar]

theorem ScanError.lineFeed_not_mem_message (e : ScanError) : '\n' ∉ e.message.toList := by
  delta message
  simp [lineFeed_not_mem_toDigits, lineFeed_not_mem_quote]

theorem Token.Kind.lineFeed_not_mem_label (kind : Kind) : '\n' ∉ kind.label.toList := by
  cases kind <;> simp [label]

theorem GrammarError.lineFeed_not_mem_message (error : GrammarError)
    (h : ∀ t, error.token? = some t → '\n' ∉ t.lexeme.toList) : '\n' ∉ error.message.toList := by
  delta message
  cases error with
  | unexpected expected found => simp [Token.Kind.lineFeed_not_mem_label, h found rfl]
  | endOfInput expected => simp [Token.Kind.lineFeed_not_mem_label]
  | endOfLookahead expected distance =>
    simp [Token.Kind.lineFeed_not_mem_label, lineFeed_not_mem_toDigits]
  | integerTooLarge found => simp [h found rfl]
  | unknownOperator found => simp [h found rfl]
  | trailing found => simp [Token.Kind.lineFeed_not_mem_label, h found rfl]

/-- A place with a message, a line of a source, and a caret under the place. There is one line for
each of these, and one more for every line feed in the message. -/
def caretReport (line column : Nat) (message : String) (shown : List Char) : String :=
  line.repr ++ ":" ++ (column + 1).repr ++ ": " ++ message ++ "\n" ++ String.ofList shown ++ "\n" ++
    String.ofList (List.replicate column ' ') ++ "^"

theorem textLines_caretReport (line column : Nat) (message : String) {shown : List Char}
    (hshown : '\n' ∉ shown) :
    textLines (caretReport line column message shown).toList =
      textLines (line.repr ++ ":" ++ (column + 1).repr ++ ": " ++ message).toList ++
        [shown, List.replicate column ' ' ++ ['^']] := by
  have hcaret : '\n' ∉ List.replicate column ' ' ++ ['^'] := by simp
  have htext : (caretReport line column message shown).toList =
      (line.repr ++ ":" ++ (column + 1).repr ++ ": " ++ message).toList ++
        '\n' :: (shown ++ '\n' :: (List.replicate column ' ' ++ ['^'])) := by
    simp [caretReport]
  rw [htext, textLines_append, textLines_append, textLines_of_not_mem hshown,
    textLines_of_not_mem hcaret]
  rfl

theorem length_textLines_message (line column : Nat) (message : String) :
    (textLines (line.repr ++ ":" ++ (column + 1).repr ++ ": " ++ message).toList).length =
      message.toList.count '\n' + 1 := by
  rw [length_textLines]
  simp [List.count_eq_zero_of_not_mem, lineFeed_not_mem_toDigits]

theorem getElem?_textLines_caretReport (line column : Nat) (message : String) {shown : List Char}
    (hshown : '\n' ∉ shown) :
    (textLines (caretReport line column message shown).toList)[message.toList.count '\n' + 1]? =
      some shown := by
  rw [textLines_caretReport line column message hshown,
    ← length_textLines_message line column message, List.getElem?_append_right (Nat.le_refl _),
    Nat.sub_self]
  rfl

namespace Failure

/-- The text to blame stands between `before` and `rest`. -/
inductive Blames (d : Dialect) (before : List Char) : List Char → List Char → Failure → Prop
  | scan {c : Char} {rest : List Char} (hc : isSpace c = false) :
    Blames d before [c] rest (.scan ⟨byteLength before, String.ofList (c :: rest)⟩)
  | token {error : GrammarError} {t : Token} {rest : List Char} (htoken : error.token? = some t)
    (hoffset : t.offset = byteLength before) (hlexeme : t.kind.IsLexeme d t.lexeme.toList) :
    Blames d before t.lexeme.toList rest (.grammar error)
  | atEnd {error : GrammarError} (htoken : error.token? = none) :
    Blames d before [] [] (.grammar error)

namespace Blames

variable {d : Dialect} {before blamed rest : List Char} {failure : Failure} {source : String}

theorem isSpace_eq_false (h : Blames d before blamed rest failure) :
    ∀ c ∈ blamed, isSpace c = false := by
  cases h with
  | scan hc => simpa using hc
  | token _ _ hlexeme => exact hlexeme.fits.isSpace_eq_false
  | atEnd => simp

theorem lineFeed_not_mem_message (h : Blames d before blamed rest failure) :
    '\n' ∉ failure.message.toList := by
  cases h with
  | scan => exact ScanError.lineFeed_not_mem_message _
  | @token error t _ htoken _ hlexeme =>
    refine error.lineFeed_not_mem_message fun u hu hmem => ?_
    rw [htoken] at hu
    cases hu
    cases hlexeme.fits.isSpace_eq_false '\n' hmem
  | @atEnd error htoken => exact error.lineFeed_not_mem_message (by simp [htoken])

end Blames

end Failure

open Failure

variable {o : Options} {source : String} {failure : Failure}

theorem exists_blames (h : compile o source = .error failure) :
    ∃ before blamed rest, source.toList = before ++ (blamed ++ rest) ∧
      Blames o.dialect before blamed rest failure := by
  rcases compile_eq_error_iff.1 h with ⟨error, hscan, rfl⟩ | ⟨ts, error, hscan, hparse, rfl⟩
  · obtain ⟨before, stuck, ts, hsource, -, -, hstuck, rfl⟩ := scanFrom_eq_error_iff.1 hscan
    obtain ⟨c, rest, rfl, hc⟩ := hstuck.exists_cons
    rw [Nat.zero_add]
    exact ⟨before, [c], rest, hsource, .scan hc⟩
  · have hsplits := scanFrom_eq_ok_iff.1 hscan
    cases htoken : error.token? with
    | none => exact ⟨source.toList, [], [], by simp, .atEnd htoken⟩
    | some t =>
      have hmem := Definition.mem_of_token? hparse htoken
      obtain ⟨pre, post, rfl⟩ := List.append_of_mem hmem
      obtain ⟨before, rest, hsource, hoffset, -⟩ := hsplits.exists_before
      rw [Nat.zero_add] at hoffset
      exact ⟨before, t.lexeme.toList, rest, hsource,
        .token htoken hoffset (hsplits.isLexeme t hmem)⟩

end DefLang
