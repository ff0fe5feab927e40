/-!
# Tokens

A definition is written in one of two dialects. They differ in the word that begins it and in the
markers around its body: `def f(a) a end` and `act f(a) { a }` define the same function.

A token is a stretch of source text with its kind and the byte offset at which it begins. The kind
decides how a token is read; of its spelling only names, integers and operators are looked at.
Reading a definition takes tokens off the front of a list. `GrammarError` lists the ways in which it
can fail, each with the token to blame or, at the end of the list, the kind that was looked for.
-/

namespace DefLang

/-- How a definition is delimited: by words, or by a word and braces. -/
inductive Dialect where
  | worded
  | braced
deriving DecidableEq

namespace Dialect

def keyword : Dialect → String
  | worded => "def"
  | braced => "act"

def opener? : Dialect → Option String
  | worded => none
  | braced => some "\x7b"

def closer : Dialect → String
  | worded => "end"
  | braced => "\x7d"

end Dialect

namespace Token

inductive Kind where
  | keyword | opener | closer
  | identifier | integer
  | openParen | closeParen | comma
  | operator
  | lineBreak
deriving DecidableEq

def Kind.label : Kind → String
  | keyword => "def"
  | opener => "block-begin"
  | closer => "block-end"
  | identifier => "identifier"
  | integer => "integer"
  | openParen => "open-paren"
  | closeParen => "close-paren"
  | comma => "comma"
  | operator => "operator"
  | lineBreak => "line-break"

end Token

structure Token where
  kind : Token.Kind
  lexeme : String
  offset : Nat
deriving DecidableEq

/-- Why a list of tokens is not a definition. -/
inductive GrammarError where
  /-- Another kind was required where `found` stands. -/
  | unexpected (expected : Token.Kind) (found : Token)
  /-- No token is left where a kind is required. -/
  | endOfInput (expected : Token.Kind)
  /-- No token is left at `distance` behind the next one, where a kind is looked for. -/
  | endOfLookahead (expected : Token.Kind) (distance : Nat)
  | integerTooLarge (found : Token)
  | unknownOperator (found : Token)
  | trailing (found : Token)
deriving DecidableEq

namespace Token

/-- Takes a token of kind `kind` off the front. -/
def expect (kind : Kind) : List Token → Except GrammarError (Token × List Token)
  | [] => .error (.endOfInput kind)
  | t :: ts => if t.kind = kind then .ok (t, ts) else .error (.unexpected kind t)

theorem expect_eq_ok_iff {kind : Kind} {ts rest : List Token} {t : Token} :
    expect kind ts = .ok (t, rest) ↔ ts = t :: rest ∧ t.kind = kind := by
  cases ts with
  | nil => simp [expect]
  | cons u us =>
    rw [expect]
    constructor
    · intro h
      by_cases hkind : u.kind = kind
      · rw [if_pos hkind] at h
        cases h
        exact ⟨rfl, hkind⟩
      · rw [if_neg hkind] at h
        cases h
    · rintro ⟨heq, hkind⟩
      cases heq
      exact if_pos hkind

end Token

end DefLang
