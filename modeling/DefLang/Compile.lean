import DefLang.Definition.Read
import DefLang.Definition.Render
import DefLang.Token.Scan

/-!
# Compiling

A source text is scanned, read as a definition, and rendered. Compiling can be stopped early to look
at what it has found: the tokens, one to a line, or the outline of the definition.

A source fails to compile because it cannot be scanned, or because its tokens are not a definition;
the first step that fails decides. `Failure.message` says why in one sentence. `Failure.report?`
shows where: a line number and a column with the message, then the line of the source, then a caret
under the column.

Chains of steps in `Except` succeed when all of their steps do, and their failure is that of the
first step that fails.
-/

namespace DefLang

def ScanError.message (e : ScanError) : String :=
  "no token matches at byte " ++ e.offset.repr ++ ": " ++ quote e.remaining

namespace GrammarError

def message : GrammarError → String
  | unexpected expected found =>
    "expected " ++ expected.label ++ ", but got " ++ found.kind.label ++ " \"" ++ found.lexeme ++
      "\""
  | endOfInput expected => "expected " ++ expected.label ++ ", but reached end of input"
  | endOfLookahead expected distance =>
    "reached end of input while looking " ++ distance.repr ++ " token(s) ahead for " ++
      expected.label
  | integerTooLarge found => "integer literal \"" ++ found.lexeme ++ "\" does not fit in 64 bits"
  | unknownOperator found => "unknown operator \"" ++ found.lexeme ++ "\""
  | trailing found =>
    "unexpected " ++ found.kind.label ++ " \"" ++ found.lexeme ++ "\" after the definition"

/-- The token to blame; there is none at the end of the input. -/
def token? : GrammarError → Option Token
  | unexpected _ found => some found
  | endOfInput _ => none
  | endOfLookahead _ _ => none
  | integerTooLarge found => some found
  | unknownOperator found => some found
  | trailing found => some found

end GrammarError

inductive Failure where
  | scan (error : ScanError)
  | grammar (error : GrammarError)
deriving DecidableEq

namespace Failure

def message : Failure → String
  | scan error => error.message
  | grammar error => error.message

/-- Where the failure is, as a byte offset; `none` stands for the end of the source. -/
def offset? : Failure → Option Nat
  | scan error => some error.offset
  | grammar error => error.token?.map Token.offset

/-- Where the failure is in `source`; an offset past its end counts as its end. -/
def place? (failure : Failure) (source : String) : Option Place :=
  let cs := source.toList
  Place.find? cs (min (failure.offset?.getD (byteLength cs)) (byteLength cs))

/-- Shows the failure in `source`, unless its offset is inside a character. -/
def report? (failure : Failure) (source : String) : Option String :=
  (failure.place? source).map fun p =>
    p.line.repr ++ ":" ++ p.column.repr ++ ": " ++ failure.message ++ "\n" ++
      String.ofList p.shownLine ++ "\n" ++
      String.ofList (List.replicate p.before.length ' ') ++ "^"

end Failure

def Token.ofSource (o : Options) (source : String) : Except Failure (List Token) :=
  (Token.scan o.dialect source).mapError .scan

def Definition.ofSource (o : Options) (source : String) : Except Failure Definition := do
  let tokens ← Token.ofSource o source
  (Definition.parse o tokens).mapError .grammar

/-- The flat rendering of the definition written in a source. -/
def compile (o : Options) (source : String) : Except Failure String :=
  (Definition.ofSource o source).map Definition.render

inductive Stage where
  | tokens
  | outline
  | output
deriving DecidableEq

/-- Kind and quoted spelling of each token, one token to a line. -/
def Token.listing (tokens : List Token) : String :=
  "\n".intercalate (tokens.map fun t => t.kind.label ++ " " ++ quote t.lexeme)

/-- What a source gives at a stage. The tokens are shown whether or not they are a definition. -/
def Stage.run (o : Options) (source : String) : Stage → Except Failure String
  | tokens => (Token.ofSource o source).map Token.listing
  | outline => (Definition.ofSource o source).map Definition.outline
  | output => compile o source

section Outcomes

variable {ε ε' α β : Type}

@[simp] theorem map_eq_ok_iff {f : α → β} {x : Except ε α} {b : β} :
    x.map f = .ok b ↔ ∃ a, x = .ok a ∧ f a = b := by
  cases x <;> simp [Except.map]

@[simp] theorem mapError_eq_ok_iff {f : ε → ε'} {x : Except ε α} {a : α} :
    x.mapError f = .ok a ↔ x = .ok a := by
  cases x with
  | error e => exact ⟨nofun, nofun⟩
  | ok b => exact ⟨fun h => congrArg _ (Except.ok.inj h), fun h => congrArg _ (Except.ok.inj h)⟩

@[simp] theorem bind_eq_ok_iff {f : α → Except ε β} {x : Except ε α} {b : β} :
    x >>= f = .ok b ↔ ∃ a, x = .ok a ∧ f a = .ok b := by
  cases x <;> simp [bind, Except.bind]

@[simp] theorem ok_bind (f : α → Except ε β) (a : α) : (Except.ok a >>= f) = f a := rfl

@[simp] theorem error_bind (f : α → Except ε β) (e : ε) :
    ((Except.error e : Except ε α) >>= f) = .error e := rfl

end Outcomes

section Compile

variable {o : Options} {source : String}

theorem compile_eq_ok_iff {out : String} :
    compile o source = .ok out ↔ ∃ ts f, Token.scan o.dialect source = .ok ts ∧
      Definition.parse o ts = .ok f ∧ f.render = out := by
  simp only [compile, Definition.ofSource, Token.ofSource, map_eq_ok_iff, bind_eq_ok_iff,
    mapError_eq_ok_iff]
  constructor
  · rintro ⟨f, ⟨ts, hscan, hparse⟩, hout⟩
    exact ⟨ts, f, hscan, hparse, hout⟩
  · rintro ⟨ts, f, hscan, hparse, hout⟩
    exact ⟨f, ⟨ts, hscan, hparse⟩, hout⟩

theorem compile_of_scan_eq_error {error : ScanError}
    (h : Token.scan o.dialect source = .error error) :
    compile o source = .error (.scan error) := by
  rw [compile, Definition.ofSource, Token.ofSource, h]
  rfl

theorem compile_of_parse_eq_error {ts : List Token} {error : GrammarError}
    (hscan : Token.scan o.dialect source = .ok ts) (h : Definition.parse o ts = .error error) :
    compile o source = .error (.grammar error) := by
  rw [compile, Definition.ofSource, Token.ofSource, hscan]
  change ((Definition.parse o ts).mapError Failure.grammar).map Definition.render = _
  rw [h]
  rfl

theorem compile_eq_error_iff {failure : Failure} :
    compile o source = .error failure ↔
      (∃ error, Token.scan o.dialect source = .error error ∧ failure = .scan error) ∨
      ∃ ts error, Token.scan o.dialect source = .ok ts ∧ Definition.parse o ts = .error error ∧
        failure = .grammar error := by
  constructor
  · intro h
    cases hscan : Token.scan o.dialect source with
    | error error =>
      rw [compile_of_scan_eq_error hscan] at h
      exact .inl ⟨error, rfl, (Except.error.inj h).symm⟩
    | ok ts =>
      cases hparse : Definition.parse o ts with
      | error error =>
        rw [compile_of_parse_eq_error hscan hparse] at h
        exact .inr ⟨ts, error, rfl, hparse, (Except.error.inj h).symm⟩
      | ok f =>
        rw [compile_eq_ok_iff.2 ⟨ts, f, hscan, hparse, rfl⟩] at h
        cases h
  · rintro (⟨error, hscan, rfl⟩ | ⟨ts, error, hscan, hparse, rfl⟩)
    · exact compile_of_scan_eq_error hscan
    · exact compile_of_parse_eq_error hscan hparse

end Compile

end DefLang
