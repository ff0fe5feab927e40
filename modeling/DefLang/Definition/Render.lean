import DefLang.Definition
import DefLang.Text.Quoted

/-!
# Rendering

`Definition.render` writes a definition on one line: `def`, its name, its parameters, its body, and
`end`, separated by spaces. Parameters and arguments are separated by commas, and no parentheses are
written. An empty list leaves its two separators side by side.

`Definition.outline` shows a definition as nested records, one field or list item to a line, with
four spaces for each level and a comma behind every item.
-/

namespace DefLang

mutual

def Expr.render : Expr → String
  | .literal value => Decimal.write value
  | .ref name => name
  | .call callee args => callee ++ " " ++ ",".intercalate (Expr.renderAll args)
  | .operator op => op.symbol

def Expr.renderAll : List Expr → List String
  | [] => []
  | e :: es => e.render :: Expr.renderAll es

end

@[simp] theorem Expr.renderAll_eq_map (es : List Expr) : renderAll es = es.map render := by
  induction es with
  | nil => simp [renderAll]
  | cons e es ih => simp [renderAll, ih]

def Definition.render (f : Definition) : String :=
  " ".intercalate
    ["def", f.name, ",".intercalate f.params, " ".intercalate (f.body.map Expr.render), "end"]

namespace Outline

def indent (depth : Nat) : String :=
  String.ofList (List.replicate (4 * depth) ' ')

/-- Items between brackets, each on a line of its own one level deeper than `depth`. -/
def block (depth : Nat) (opening : String) (items : List String) (closing : String) : String :=
  if items.isEmpty then
    opening ++ closing
  else
    opening ++ "\n" ++ String.join (items.map fun item => indent (depth + 1) ++ item ++ ",\n") ++
      indent depth ++ closing

def list (depth : Nat) (items : List String) : String :=
  block depth "[" items "]"

def record (depth : Nat) (name : String) (fields : List String) : String :=
  block depth (name ++ " \x7b") fields "\x7d"

end Outline

open Outline (list record)

mutual

/-- The outline of an expression whose first line stands at level `depth`. -/
def Expr.outline (depth : Nat) : Expr → String
  | .literal value => record depth "IntegerLiteral" ["value: " ++ Decimal.write value]
  | .ref name => record depth "VariableRef" ["name: " ++ quote name]
  | .call callee args =>
    record depth "Call"
      ["name: " ++ quote callee, "args: " ++ list (depth + 1) (Expr.outlineAll (depth + 2) args)]
  | .operator op => record depth "BinaryOp" ["operator: " ++ op.label]

def Expr.outlineAll (depth : Nat) : List Expr → List String
  | [] => []
  | e :: es => e.outline depth :: Expr.outlineAll depth es

end

@[simp] theorem Expr.outlineAll_eq_map (depth : Nat) (es : List Expr) :
    outlineAll depth es = es.map (outline depth) := by
  induction es with
  | nil => simp [outlineAll]
  | cons e es ih => simp [outlineAll, ih]

def Definition.outline (f : Definition) : String :=
  record 0 "FunctionDef"
    ["name: " ++ quote f.name,
     "params: " ++ list 1 (f.params.map quote),
     "body: " ++ list 1 (f.body.map (Expr.outline 2))]

end DefLang
