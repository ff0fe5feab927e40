import DefLang.Definition
import DefLang.Token

/-!
# Reading a definition

`Expr.read` takes one expression off the front of a list of tokens. Calls may be nested: the calls
whose arguments are still being read are kept on a stack, so every step consumes a token and the
recursion is on the list itself. What is left is always shorter than the list read from.

A definition is a keyword, a name, parameters in parentheses, the opener of the dialect if it has
one, a body of expressions, and a closer. `Definition.read` takes one off the front of a list of
tokens. `Definition.parse` reads a definition and, when it is strict, wants nothing behind it.
-/

namespace DefLang

namespace Expr

/-- A call whose closing parenthesis has not been met, with its arguments so far, last first. -/
structure OpenCall where
  callee : String
  args : List Expr

mutual

/-- Reads an expression inside the calls `outer`, innermost first, and all that closes them. -/
def readIn (outer : List OpenCall) : List Token → Except GrammarError (Expr × List Token)
  | [] => .error (.endOfInput .integer)
  | t :: ts =>
    match t.kind with
    | .integer =>
      match Decimal.read? t.lexeme with
      | some value => resume (.literal value) outer ts
      | none => .error (.integerTooLarge t)
    | .operator =>
      match Operator.ofSymbol? t.lexeme with
      | some op => resume (.operator op) outer ts
      | none => .error (.unknownOperator t)
    | .identifier =>
      match ts with
      | [] => .error (.endOfLookahead .openParen 1)
      | u :: us =>
        if u.kind = .openParen then
          match us with
          | [] => .error (.endOfInput .closeParen)
          | v :: vs =>
            if v.kind = .closeParen then resume (.call t.lexeme []) outer vs
            else readIn (⟨t.lexeme, []⟩ :: outer) (v :: vs)
        else
          resume (.ref t.lexeme) outer (u :: us)
    | _ => .error (.unexpected .identifier t)

/-- Goes on behind the expression `e`: it is the next argument of the innermost of the calls. -/
def resume (e : Expr) : List OpenCall → List Token → Except GrammarError (Expr × List Token)
  | [], ts => .ok (e, ts)
  | _ :: _, [] => .error (.endOfInput .comma)
  | inner :: outer, t :: ts =>
    if t.kind = .comma then readIn (⟨inner.callee, e :: inner.args⟩ :: outer) ts
    else if t.kind = .closeParen then resume (.call inner.callee (e :: inner.args).reverse) outer ts
    else .error (.unexpected .closeParen t)

end

def read (ts : List Token) : Except GrammarError (Expr × List Token) :=
  readIn [] ts

section Steps

variable {outer : List OpenCall} {t u v : Token} {ts : List Token}

theorem readIn_nil : readIn outer [] = .error (.endOfInput .integer) := by
  rw [readIn]

theorem readIn_integer (ht : t.kind = .integer) :
    readIn outer (t :: ts) =
      match Decimal.read? t.lexeme with
      | some value => resume (.literal value) outer ts
      | none => .error (.integerTooLarge t) := by
  simp [readIn.eq_def, ht]

theorem readIn_operator (ht : t.kind = .operator) :
    readIn outer (t :: ts) =
      match Operator.ofSymbol? t.lexeme with
      | some op => resume (.operator op) outer ts
      | none => .error (.unknownOperator t) := by
  simp [readIn.eq_def, ht]

theorem readIn_identifier_nil (ht : t.kind = .identifier) :
    readIn outer [t] = .error (.endOfLookahead .openParen 1) := by
  simp [readIn.eq_def, ht]

theorem readIn_ref (ht : t.kind = .identifier) (hu : u.kind ≠ .openParen) :
    readIn outer (t :: u :: ts) = resume (.ref t.lexeme) outer (u :: ts) := by
  simp [readIn.eq_def, ht, hu]

theorem readIn_openParen_nil (ht : t.kind = .identifier) (hu : u.kind = .openParen) :
    readIn outer [t, u] = .error (.endOfInput .closeParen) := by
  simp [readIn.eq_def, ht, hu]

theorem readIn_call_nil (ht : t.kind = .identifier) (hu : u.kind = .openParen)
    (hv : v.kind = .closeParen) :
    readIn outer (t :: u :: v :: ts) = resume (.call t.lexeme []) outer ts := by
  simp [readIn.eq_def, ht, hu, hv]

theorem readIn_call_cons (ht : t.kind = .identifier) (hu : u.kind = .openParen)
    (hv : v.kind ≠ .closeParen) :
    readIn outer (t :: u :: v :: ts) = readIn (⟨t.lexeme, []⟩ :: outer) (v :: ts) := by
  rw [readIn.eq_def]
  simp [ht, hu, hv]

theorem readIn_unexpected (hi : t.kind ≠ .integer) (ho : t.kind ≠ .operator)
    (ht : t.kind ≠ .identifier) :
    readIn outer (t :: ts) = .error (.unexpected .identifier t) := by
  rw [readIn.eq_def]
  grind

theorem resume_nil {e : Expr} : resume e [] ts = .ok (e, ts) := by
  rw [resume]

end Steps

theorem length_of_readIn :
    (∀ outer ts e rest, readIn outer ts = .ok (e, rest) → rest.length < ts.length) ∧
      ∀ e' outer ts e rest, resume e' outer ts = .ok (e, rest) → rest.length ≤ ts.length := by
  -- By induction on the run. `readIn` takes a token in every step, and `resume` in every step but
  -- the last one, in which no call is open.
  refine readIn.mutual_induct _ _ ?nil ?integer ?integerTooLarge ?operator ?unknownOperator
    ?nameAtEnd ?openParenAtEnd ?callNil ?callCons ?ref ?unexpected ?noCall ?callAtEnd ?comma
    ?closeParen ?noArgument
  case nil =>
    intro outer e rest h
    rw [readIn_nil] at h
    cases h
  case integer =>
    intro outer t ts ht value hvalue ih e rest h
    rw [readIn_integer ht, hvalue] at h
    exact Nat.lt_succ_of_le (ih e rest h)
  case integerTooLarge =>
    intro outer t ts ht hvalue e rest h
    rw [readIn_integer ht, hvalue] at h
    cases h
  case operator =>
    intro outer t ts ht op hop ih e rest h
    rw [readIn_operator ht, hop] at h
    exact Nat.lt_succ_of_le (ih e rest h)
  case unknownOperator =>
    intro outer t ts ht hop e rest h
    rw [readIn_operator ht, hop] at h
    cases h
  case nameAtEnd =>
    intro outer t ht e rest h
    rw [readIn_identifier_nil ht] at h
    cases h
  case openParenAtEnd =>
    intro outer t ht u hu e rest h
    rw [readIn_openParen_nil ht hu] at h
    cases h
  case callNil =>
    intro outer t ht u hu v vs hv ih e rest h
    rw [readIn_call_nil ht hu hv] at h
    have hle := ih e rest h
    simp only [List.length_cons]
    omega
  case callCons =>
    intro outer t ht u hu v vs hv ih e rest h
    rw [readIn_call_cons ht hu hv] at h
    have hlt := ih e rest h
    simp only [List.length_cons] at hlt ⊢
    omega
  case ref =>
    intro outer t ht u us hu ih e rest h
    rw [readIn_ref ht hu] at h
    exact Nat.lt_succ_of_le (ih e rest h)
  case unexpected =>
    intro outer t ts hi ho ht e rest h
    rw [readIn_unexpected hi ho ht] at h
    cases h
  case noCall =>
    intro e' ts e rest h
    rw [resume_nil] at h
    cases h
    exact Nat.le_refl _
  case callAtEnd =>
    intro e' inner outer e rest h
    rw [resume] at h
    cases h
  case comma =>
    intro e' inner outer t ts ht ih e rest h
    rw [resume, if_pos ht] at h
    exact Nat.le_succ_of_le (Nat.le_of_lt (ih e rest h))
  case closeParen =>
    intro e' inner outer t ts hcomma ht ih e rest h
    rw [resume, if_neg hcomma, if_pos ht] at h
    exact Nat.le_succ_of_le (ih e rest h)
  case noArgument =>
    intro e' inner outer t ts hcomma ht e rest h
    rw [resume, if_neg hcomma, if_neg ht] at h
    cases h

theorem length_of_read {ts rest : List Token} {e : Expr} (h : read ts = .ok (e, rest)) :
    rest.length < ts.length :=
  length_of_readIn.1 [] ts e rest h

end Expr

/-- How a source is to be read: its dialect, and whether text behind the definition is an error. -/
structure Options where
  dialect : Dialect := .worded
  strict : Bool := false
deriving DecidableEq

namespace Definition

open Token (expect)

def readMoreParams : List Token → Except GrammarError (List String × List Token)
  | [] => .error (.endOfInput .comma)
  | t :: ts =>
    if t.kind = .comma then
      match ts with
      | [] => .error (.endOfInput .identifier)
      | u :: us =>
        if u.kind = .identifier then
          (readMoreParams us).map fun (params, rest) => (u.lexeme :: params, rest)
        else
          .error (.unexpected .identifier u)
    else if t.kind = .closeParen then
      .ok ([], ts)
    else
      .error (.unexpected .closeParen t)

def readParams : List Token → Except GrammarError (List String × List Token)
  | [] => .error (.endOfInput .identifier)
  | t :: ts =>
    if t.kind = .identifier then
      (readMoreParams ts).map fun (params, rest) => (t.lexeme :: params, rest)
    else if t.kind = .closeParen then
      .ok ([], ts)
    else
      .error (.unexpected .closeParen t)

def readOpener (d : Dialect) (ts : List Token) : Except GrammarError (List Token) :=
  if d.opener?.isSome then (expect .opener ts).map Prod.snd else .ok ts

/-- Reads the expressions of a body and the marker behind them. -/
def readBody : List Token → Except GrammarError (List Expr × List Token)
  | [] => .error (.endOfInput .closer)
  | t :: ts =>
    if t.kind = .closer then
      .ok ([], ts)
    else
      match _h : Expr.read (t :: ts) with
      | .error error => .error error
      | .ok (e, rest) => (readBody rest).map fun (es, rest) => (e :: es, rest)
termination_by ts => ts.length
decreasing_by exact Expr.length_of_read _h

/-- Reads a definition, and returns it with the tokens behind it. -/
def read (d : Dialect) (ts : List Token) : Except GrammarError (Definition × List Token) := do
  let (_, ts) ← expect .keyword ts
  let (name, ts) ← expect .identifier ts
  let (_, ts) ← expect .openParen ts
  let (params, ts) ← readParams ts
  let ts ← readOpener d ts
  let (body, ts) ← readBody ts
  return (⟨name.lexeme, params, body⟩, ts)

/-- The definition that a list of tokens begins with. -/
def parse (o : Options) (ts : List Token) : Except GrammarError Definition := do
  match ← read o.dialect ts with
  | (f, []) => return f
  | (f, t :: _) => if o.strict then throw (.trailing t) else return f

end Definition

end DefLang
