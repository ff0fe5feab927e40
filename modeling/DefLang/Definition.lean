/-!
# Definitions

A definition gives a name to a body: a sequence of expressions that may use the parameters. An
expression is an integer, a name, a call with arguments, or an operator on its own.

Integers have 64 bits and a sign. Their decimal spelling is read with one optional sign and at least
one digit; leading zeros are allowed, and a value that does not fit is refused. It is written
without leading zeros, and with a sign for negative values only.

An operator stands alone in a body; it takes no operands here. Each has a symbol, which is how it is
written, and a label, which names it in the outline of a definition.
-/

namespace DefLang

namespace Decimal

def natural? (cs : List Char) : Option Nat :=
  if !cs.isEmpty && cs.all Char.isDigit then some (Nat.ofDigitChars 10 cs 0) else none

/-- The value of a digit string behind an optional sign. -/
def integer? : List Char → Option Int
  | '+' :: cs => (natural? cs).map Int.ofNat
  | '-' :: cs => (natural? cs).map fun n => -(n : Int)
  | cs => (natural? cs).map Int.ofNat

/-- The integer spelled `text`, if it fits in 64 bits. -/
def read? (text : String) : Option Int64 := do
  let value ← integer? text.toList
  if Int64.minValue.toInt ≤ value ∧ value ≤ Int64.maxValue.toInt then
    some (Int64.ofInt value)
  else
    none

/-- The shortest decimal spelling of an integer. -/
def write (value : Int64) : String :=
  value.toInt.repr

end Decimal

inductive Operator where
  | add | sub | mul | div | assign | gt | lt | ge | le | and | or | rem | not
deriving DecidableEq

namespace Operator

def symbol : Operator → String
  | add => "+"
  | sub => "-"
  | mul => "*"
  | div => "/"
  | assign => "="
  | gt => ">"
  | lt => "<"
  | ge => ">="
  | le => "<="
  | and => "&"
  | or => "|"
  | rem => "%"
  | not => "!"

def label : Operator → String
  | add => "Add"
  | sub => "Sub"
  | mul => "Mul"
  | div => "Div"
  | assign => "Assign"
  | gt => "Gt"
  | lt => "Lt"
  | ge => "Ge"
  | le => "Le"
  | and => "And"
  | or => "Or"
  | rem => "Rem"
  | not => "Not"

def ofSymbol? : String → Option Operator
  | "+" => some add
  | "-" => some sub
  | "*" => some mul
  | "/" => some div
  | "=" => some assign
  | ">" => some gt
  | "<" => some lt
  | ">=" => some ge
  | "<=" => some le
  | "&" => some and
  | "|" => some or
  | "%" => some rem
  | "!" => some not
  | _ => none

@[simp] theorem ofSymbol?_symbol (op : Operator) : ofSymbol? op.symbol = some op := by
  cases op <;> rfl

theorem ofSymbol?_eq_some_iff {symbol : String} {op : Operator} :
    ofSymbol? symbol = some op ↔ symbol = op.symbol := by
  constructor
  · intro h
    unfold ofSymbol? at h
    split at h <;> cases h <;> rfl
  · rintro rfl
    exact ofSymbol?_symbol op

end Operator

inductive Expr where
  | literal (value : Int64)
  | ref (name : String)
  | call (callee : String) (args : List Expr)
  | operator (op : Operator)

structure Definition where
  name : String
  params : List String
  body : List Expr

end DefLang
