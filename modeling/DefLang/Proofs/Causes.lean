import DefLang.Proofs.Decimal
import DefLang.Proofs.Layout
import DefLang.Proofs.Viable
import Mathlib.Control.Monad.Basic

/-!
# The errors that a source can have

Tokens that come from a source are lexemes of its dialect, so an operator is one of those that are
known, an integer is a string of digits, and no token is a line break or, in a dialect without one,
an opener. A state of the machine names one kind when it cannot take a token and one at the end of
the tokens, and it looks for an opener only where the dialect has one. Together this leaves few of
the errors that a list of tokens can have (`GrammarError.Possible`).
-/

namespace DefLang

/-- What is known of an error in a source of the dialect. -/
def GrammarError.Possible (d : Dialect) : GrammarError → Prop
  | unexpected expected found =>
    expected ∈ [.keyword, .identifier, .openParen, .closeParen, .opener] ∧
      found.kind ≠ .lineBreak ∧ (d = .worded → expected ≠ .opener ∧ found.kind ≠ .opener)
  | endOfInput expected =>
    expected ≠ .operator ∧ expected ≠ .lineBreak ∧ (d = .worded → expected ≠ .opener)
  | endOfLookahead expected distance => expected = .openParen ∧ distance = 1
  | integerTooLarge found =>
    found.lexeme.toList ≠ [] ∧ (∀ c ∈ found.lexeme.toList, c.isDigit = true) ∧
      Nat.pow 2 63 ≤ Nat.ofDigitChars 10 found.lexeme.toList 0
  | unknownOperator _ => False
  | trailing found => found.kind ≠ .lineBreak ∧ (d = .worded → found.kind ≠ .opener)

theorem Awaited.mem_of_required? {awaited : Awaited} {kind : Token.Kind}
    (h : awaited.required? = some kind) :
    kind ∈ [.keyword, .identifier, .openParen, .closeParen, .opener] ∧
      (kind = .opener → awaited = .opener) := by
  cases awaited with
  | nameEnd name outer =>
    cases outer with
    | nil => cases h; exact ⟨by decide, by rintro ⟨⟩⟩
    | cons inner outer => cases h; exact ⟨by decide, by rintro ⟨⟩⟩
  | opener => cases h; exact ⟨by decide, fun _ => rfl⟩
  | nothing => cases h
  | _ => cases h; exact ⟨by decide, by rintro ⟨⟩⟩

theorem Token.Kind.IsLexeme.kind_ne {d : Dialect} {kind : Kind} {lexeme : List Char}
    (h : kind.IsLexeme d lexeme) : kind ≠ .lineBreak ∧ (d = .worded → kind ≠ .opener) := by
  refine ⟨?_, ?_⟩
  · rintro rfl
    exact h.fits
  · rintro rfl rfl
    cases h.fits

namespace Progress

variable {o : Options} {p : Progress} {t : Token} {error : GrammarError}

theorem awaited_ne_opener (hp : p.awaited = .opener → o.dialect.opener?.isSome = true)
    (hd : o.dialect = .worded) : p.awaited ≠ .opener := by
  intro hawaited
  have hsome := hp hawaited
  rw [hd] at hsome
  cases hsome

theorem possible_of_fault (hp : p.awaited = .opener → o.dialect.opener?.isSome = true)
    (ht : t.kind.IsLexeme o.dialect t.lexeme.toList) (h : Fault o p t error) :
    error.Possible o.dialect := by
  obtain ⟨hbreak, hopener⟩ := ht.kind_ne
  cases h with
  | unexpected _ hrequired =>
    obtain ⟨hmem, hawaited⟩ := Awaited.mem_of_required? hrequired
    exact ⟨hmem, hbreak, fun hd =>
      ⟨fun hkind => awaited_ne_opener hp hd (hawaited hkind), hopener hd⟩⟩
  | integerTooLarge hkind hvalue =>
    obtain ⟨hne, hdigits⟩ : Token.Kind.integer.Fits o.dialect t.lexeme.toList := hkind ▸ ht.fits
    exact ⟨hne, hdigits, Decimal.two_pow_le_of_read?_digits hne hdigits hvalue⟩
  | unknownOperator hkind hop =>
    obtain ⟨op, hsymbol⟩ : Token.Kind.operator.Fits o.dialect t.lexeme.toList := hkind ▸ ht.fits
    have hmem : t.lexeme ∈ Token.operatorSymbols :=
      Token.mem_operatorSymbols_iff.2 ⟨op, String.toList_inj.1 hsymbol⟩
    have hsome := Operator.isSome_ofSymbol?_iff.2 hmem
    rw [hop] at hsome
    cases hsome
  | trailing _ => exact ⟨hbreak, hopener⟩

theorem possible_of_finish (hp : p.awaited = .opener → o.dialect.opener?.isSome = true)
    (h : p.finish = .error error) : error.Possible o.dialect := by
  obtain ⟨f, awaited⟩ := p
  cases awaited with
  | opener =>
    cases h
    exact ⟨by decide, by decide, fun hd => absurd rfl (awaited_ne_opener hp hd)⟩
  | nameEnd name outer =>
    cases h
    exact ⟨rfl, rfl⟩
  | nothing => cases h
  | _ =>
    cases h
    exact ⟨by decide, by decide, fun _ => by decide⟩

end Progress

theorem Definition.possible_of_parse {o : Options} {ts : List Token} {error : GrammarError}
    (hts : ∀ t ∈ ts, t.kind.IsLexeme o.dialect t.lexeme.toList)
    (h : parse o ts = .error error) : error.Possible o.dialect := by
  rw [parse_eq_run] at h
  rcases Progress.exists_of_run_error h with ⟨q, hq, hfinish⟩ | ⟨pre, t, post, q, rfl, hq, hstep⟩
  · exact Progress.possible_of_finish (Progress.opener?_of_start hq) hfinish
  · exact Progress.possible_of_fault (Progress.opener?_of_start hq) (hts t (by simp))
      (Progress.fault_of_step hstep)

/-- Every source that can be scanned compiles or has a possible error. -/
theorem possible_of_compile (o : Options) (source : String) (error : GrammarError)
    (h : compile o source = .error (.grammar error)) : error.Possible o.dialect := by
  rcases compile_eq_error_iff.1 h with ⟨_, _, heq⟩ | ⟨ts, error', hscan, hparse, heq⟩
  · cases heq
  · cases heq
    exact Definition.possible_of_parse (scanFrom_eq_ok_iff.1 hscan).isLexeme hparse

theorem possible_of_compile_integer :
    compile ⟨.worded, true⟩ "def f() g(009223372036854775808) end" =
      .error (.grammar (.integerTooLarge ⟨.integer, "009223372036854775808", 10⟩)) ∧
    Nat.pow 2 63 ≤ Nat.ofDigitChars 10 "009223372036854775808".toList 0 ∧
    compile ⟨.worded, false⟩ "def f() g(x" =
      .error (.grammar (.endOfLookahead .openParen 1)) ∧
    (GrammarError.endOfLookahead .openParen 1).Possible .worded := by
  have hinteger : compile ⟨.worded, true⟩ "def f() g(009223372036854775808) end" =
      .error (.grammar (.integerTooLarge ⟨.integer, "009223372036854775808", 10⟩)) := by
    decide +kernel
  have hend : compile ⟨.worded, false⟩ "def f() g(x" =
      .error (.grammar (.endOfLookahead .openParen 1)) := by
    decide +kernel
  exact ⟨hinteger, (possible_of_compile _ _ _ hinteger).2.2, hend, possible_of_compile _ _ _ hend⟩

end DefLang
