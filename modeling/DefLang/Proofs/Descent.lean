import DefLang.Proofs.Grammar

/-!
# Reading by descent

The grammar can be read with one reader for each of its symbols. Readers call each other, and go
through arguments, parameters and the expressions of a body in loops. Nothing in their text says
that they come to an end, so calls are counted. `Readers.step` is the text of the readers that come
back to themselves, over the readers they call; a turn of a loop calls the rest of the loop. In
`Readers.within n` at most `n` calls are nested, and a computation that needs more has no outcome.

A reader calls others only where fewer tokens are left, but for the expressions of a body. So
readers that are exact on lists of fewer than `n` tokens (`Readers.Exact`) make readers that are
exact with one token more. They are compared with reading on a stack of open calls: an expression
inside calls is read on its own and then closes them (`Expr.readIn_eq_read_bind`).
-/

namespace DefLang

namespace Expr

/-- What closes the calls at the top of the stack is read before what closes the others. -/
theorem readIn_append (outer : List OpenCall) :
    (∀ inner ts, readIn (inner ++ outer) ts = readIn inner ts >>= fun r => resume r.1 outer r.2) ∧
      ∀ e inner ts, resume e (inner ++ outer) ts =
        resume e inner ts >>= fun r => resume r.1 outer r.2 := by
  -- By induction on the run over the calls at the top. The two sides take the same steps until the
  -- last of these calls is closed; from there on the left side goes on with `outer`.
  refine readIn.mutual_induct _ _ ?nil ?integer ?integerTooLarge ?operator ?unknownOperator
    ?nameAtEnd ?openParenAtEnd ?callNil ?callCons ?ref ?unexpected ?noCall ?callAtEnd ?comma
    ?closeParen ?noArgument
  case nil =>
    intro inner
    rw [readIn_nil, readIn_nil, error_bind]
  case integer =>
    intro inner t ts ht value hvalue ih
    rw [readIn_integer ht, readIn_integer ht, hvalue]
    exact ih
  case integerTooLarge =>
    intro inner t ts ht hvalue
    rw [readIn_integer ht, readIn_integer ht, hvalue]
    rfl
  case operator =>
    intro inner t ts ht op hop ih
    rw [readIn_operator ht, readIn_operator ht, hop]
    exact ih
  case unknownOperator =>
    intro inner t ts ht hop
    rw [readIn_operator ht, readIn_operator ht, hop]
    rfl
  case nameAtEnd =>
    intro inner t ht
    rw [readIn_identifier_nil ht, readIn_identifier_nil ht, error_bind]
  case openParenAtEnd =>
    intro inner t ht u hu
    rw [readIn_openParen_nil ht hu, readIn_openParen_nil ht hu, error_bind]
  case callNil =>
    intro inner t ht u hu v vs hv ih
    rw [readIn_call_nil ht hu hv, readIn_call_nil ht hu hv, ih]
  case callCons =>
    intro inner t ht u hu v vs hv ih
    rw [readIn_call_cons ht hu hv, readIn_call_cons ht hu hv, ← ih, List.cons_append]
  case ref =>
    intro inner t ht u us hu ih
    rw [readIn_ref ht hu, readIn_ref ht hu, ih]
  case unexpected =>
    intro inner t ts hi ho ht
    rw [readIn_unexpected hi ho ht, readIn_unexpected hi ho ht, error_bind]
  case noCall =>
    intro e ts
    rw [List.nil_append, resume_nil, ok_bind]
  case callAtEnd =>
    intro e call inner
    rw [List.cons_append, resume, resume, error_bind]
  case comma =>
    intro e call inner t ts ht ih
    rw [List.cons_append, resume, resume, if_pos ht, if_pos ht, ← ih, List.cons_append]
  case closeParen =>
    intro e call inner t ts hcomma ht ih
    rw [List.cons_append, resume, resume, if_neg hcomma, if_neg hcomma, if_pos ht, if_pos ht, ih]
  case noArgument =>
    intro e call inner t ts hcomma ht
    rw [List.cons_append, resume, resume, if_neg hcomma, if_neg hcomma, if_neg ht, if_neg ht,
      error_bind]

theorem readIn_eq_read_bind (outer : List OpenCall) (ts : List Token) :
    readIn outer ts = read ts >>= fun r => resume r.1 outer r.2 :=
  (readIn_append outer).1 [] ts

end Expr

/-- A computation that succeeds or fails, or has no outcome because too few calls may be nested. -/
abbrev Descent := ExceptT GrammarError Option

namespace Descent

variable {α β : Type}

@[simp] theorem lift_ok (a : α) : (liftM (.ok a : Except GrammarError α) : Descent α) = pure a :=
  rfl

@[simp] theorem lift_error (error : GrammarError) :
    (liftM (.error error : Except GrammarError α) : Descent α) = throw error :=
  rfl

@[simp] theorem throw_ne_pure (error : GrammarError) (a : α) :
    (throw error : Descent α) ≠ pure a := by
  rintro ⟨⟩

@[simp] theorem pure_true_and (x : Descent Bool) : (pure true <&&> x) = x :=
  rfl

@[simp] theorem pure_false_and (x : Descent Bool) : (pure false <&&> x) = pure false :=
  rfl

theorem lift_map (f : α → β) (x : Except GrammarError α) :
    (liftM (x.map f) : Descent β) = liftM x >>= fun a => pure (f a) := by
  cases x with
  | error error => rfl
  | ok a => rfl

theorem lift_bind_congr {x : Except GrammarError α} {f g : α → Descent β}
    (h : ∀ a, x = .ok a → f a = g a) : (liftM x >>= f) = liftM x >>= g := by
  cases x with
  | error error => rfl
  | ok a => exact h a rfl

theorem lift_eq_pure_iff {x : Except GrammarError α} {a : α} :
    (liftM x : Descent α) = pure a ↔ x = .ok a := by
  constructor
  · intro h
    exact Option.some.inj h
  · rintro rfl
    rfl

theorem bind_eq_pure_iff {x : Descent α} {f : α → Descent β} {b : β} :
    x >>= f = pure b ↔ ∃ a, x = pure a ∧ f a = pure b := by
  constructor
  · intro h
    cases x with
    | none => cases h
    | some result =>
      cases result with
      | error error => cases h
      | ok a => exact ⟨a, rfl, h⟩
  · rintro ⟨a, rfl, h⟩
    rw [pure_bind, h]

/-- The computation has an outcome. -/
def Ends (x : Descent α) : Prop :=
  ∃ result : Except GrammarError α, x = liftM result

theorem Ends.lift (result : Except GrammarError α) : Ends (liftM result : Descent α) :=
  ⟨result, rfl⟩

/-- A computation ends if something ends that begins with it. -/
theorem Ends.of_bind {x : Descent α} {f : α → Descent β} (h : Ends (x >>= f)) : Ends x := by
  cases x with
  | none =>
    obtain ⟨result, hresult⟩ := h
    cases hresult
  | some result => exact ⟨result, rfl⟩

end Descent

open Token (expect)
open DefLang.Expr (OpenCall readIn resume)

/-- Whether the token at `distance` behind the next one is of a kind. There must be one. -/
def Token.check (kind : Kind) (distance : Nat) (ts : List Token) : Except GrammarError Bool :=
  match ts[distance]? with
  | some t => .ok (decide (t.kind = kind))
  | none => .error (if distance = 0 then .endOfInput kind else .endOfLookahead kind distance)

/-- Takes a token of a kind off what is left behind `x`. -/
def Descent.closedBy {α : Type} (kind : Token.Kind) (x : Descent (α × List Token)) :
    Descent (α × List Token) := do
  let (a, ts) ← x
  let (_, ts) ← expect kind ts
  return (a, ts)

theorem Descent.closedBy_bind {α β : Type} (kind : Token.Kind) (x : Descent α)
    (f : α → Descent (β × List Token)) :
    closedBy kind (x >>= f) = x >>= fun a => closedBy kind (f a) := by
  simp only [closedBy, bind_assoc]

/-- The readers that come back to themselves: of expressions, and of what stands behind the first
argument, behind the first parameter, and in a body. -/
structure Readers where
  expr : List Token → Descent (Expr × List Token)
  moreArgs : List Token → Descent (List Expr × List Token)
  moreParams : List Token → Descent (List String × List Token)
  body : List Token → Descent (List Expr × List Token)

namespace Readers

open Token (check)
open Descent

def integer (ts : List Token) : Except GrammarError (Expr × List Token) := do
  let (t, ts) ← expect .integer ts
  match Decimal.read? t.lexeme with
  | some value => .ok (.literal value, ts)
  | none => .error (.integerTooLarge t)

def operator (ts : List Token) : Except GrammarError (Expr × List Token) := do
  let (t, ts) ← expect .operator ts
  match Operator.ofSymbol? t.lexeme with
  | some op => .ok (.operator op, ts)
  | none => .error (.unknownOperator t)

def ref (ts : List Token) : Except GrammarError (Expr × List Token) := do
  let (t, ts) ← expect .identifier ts
  return (.ref t.lexeme, ts)

def param (ts : List Token) : Except GrammarError (String × List Token) := do
  let (t, ts) ← expect .identifier ts
  return (t.lexeme, ts)

/-- A turn of a loop over items with a comma in front of each; `more` is the rest of the loop. -/
def afterComma {α : Type} (item : List Token → Descent (α × List Token))
    (more : List Token → Descent (List α × List Token)) (ts : List Token) :
    Descent (List α × List Token) := do
  if ← check .comma 0 ts then
    let (_, ts) ← expect .comma ts
    let (a, ts) ← item ts
    let (as, ts) ← more ts
    return (a :: as, ts)
  else
    return ([], ts)

variable (r : Readers)

def args (ts : List Token) : Descent (List Expr × List Token) := do
  let (_, ts) ← expect .openParen ts
  closedBy .closeParen do
    if ← check .closeParen 0 ts then
      return ([], ts)
    else
      let (e, ts) ← r.expr ts
      let (es, ts) ← r.moreArgs ts
      return (e :: es, ts)

def call (ts : List Token) : Descent (Expr × List Token) := do
  let (callee, ts) ← expect .identifier ts
  let (es, ts) ← r.args ts
  return (.call callee.lexeme es, ts)

def params (ts : List Token) : Descent (List String × List Token) := do
  let (_, ts) ← expect .openParen ts
  closedBy .closeParen do
    if ← check .identifier 0 ts then
      let (name, ts) ← param ts
      let (names, ts) ← r.moreParams ts
      return (name :: names, ts)
    else
      return ([], ts)

def definition (d : Dialect) (ts : List Token) : Descent (Definition × List Token) := do
  let (_, ts) ← expect .keyword ts
  let (name, ts) ← expect .identifier ts
  let (params, ts) ← r.params ts
  let ts ← Definition.readOpener d ts
  let (body, ts) ← closedBy .closer (r.body ts)
  return (⟨name.lexeme, params, body⟩, ts)

/-- The readers of expressions and of the three kinds of lists, which call `r`. -/
def step : Readers where
  expr ts := do
    if ← check .integer 0 ts then integer ts
    else if ← check .operator 0 ts then operator ts
    else if ← check .identifier 0 ts <&&> check .openParen 1 ts then r.call ts
    else ref ts
  moreArgs := afterComma r.expr r.moreArgs
  moreParams := afterComma (fun ts => param ts) r.moreParams
  body ts := do
    if ← check .closer 0 ts then
      return ([], ts)
    else
      let (e, ts) ← r.expr ts
      let (es, ts) ← r.body ts
      return (e :: es, ts)

@[simp] theorem moreArgs_step : r.step.moreArgs = afterComma r.expr r.moreArgs :=
  rfl

@[simp] theorem moreParams_step :
    r.step.moreParams = afterComma (fun ts => param ts) r.moreParams :=
  rfl

/-- The readers with at most `n` nested calls. -/
def within : Nat → Readers
  | 0 => ⟨fun _ => none, fun _ => none, fun _ => none, fun _ => none⟩
  | n + 1 => (within n).step

section Steps

variable {r : Readers} {t u v : Token} {ts : List Token}

@[simp] theorem check_nil (kind : Token.Kind) : check kind 0 [] = .error (.endOfInput kind) :=
  rfl

@[simp] theorem check_cons (kind : Token.Kind) :
    check kind 0 (t :: ts) = .ok (decide (t.kind = kind)) :=
  rfl

@[simp] theorem check_one_singleton (kind : Token.Kind) :
    check kind 1 [t] = .error (.endOfLookahead kind 1) :=
  rfl

@[simp] theorem check_one_cons (kind : Token.Kind) :
    check kind 1 (t :: u :: ts) = .ok (decide (u.kind = kind)) :=
  rfl

section Commas

variable {α : Type} {item : List Token → Descent (α × List Token)}
  {more : List Token → Descent (List α × List Token)}

theorem afterComma_nil : afterComma item more [] = throw (.endOfInput .comma) := by
  simp [afterComma]

theorem afterComma_comma (ht : t.kind = .comma) :
    afterComma item more (t :: ts) = item ts >>= fun a => more a.2 >>= fun as =>
      pure (a.1 :: as.1, as.2) := by
  simp [afterComma, expect, ht]

theorem afterComma_other (ht : t.kind ≠ .comma) :
    afterComma item more (t :: ts) = pure ([], t :: ts) := by
  simp [afterComma, ht]

end Commas

theorem step_expr_call (ht : t.kind = .identifier) (hu : u.kind = .openParen) :
    r.step.expr (t :: u :: ts) = r.call (t :: u :: ts) := by
  simp [step, ht, hu]

theorem step_expr_unexpected (hi : t.kind ≠ .integer) (ho : t.kind ≠ .operator)
    (ht : t.kind ≠ .identifier) : r.step.expr (t :: ts) = throw (.unexpected .identifier t) := by
  simp [step, ref, expect, hi, ho, ht]

theorem call_cons (ht : t.kind = .identifier) :
    r.call (t :: ts) = r.args ts >>= fun es => pure (.call t.lexeme es.1, es.2) := by
  simp [call, expect, ht]

theorem args_openParen_nil (hu : u.kind = .openParen) :
    r.args [u] = throw (.endOfInput .closeParen) := by
  simp [args, closedBy, expect, hu]

theorem args_empty (hu : u.kind = .openParen) (hv : v.kind = .closeParen) :
    r.args (u :: v :: ts) = pure ([], ts) := by
  simp [args, closedBy, expect, hu, hv]

theorem args_cons (hu : u.kind = .openParen) (hv : v.kind ≠ .closeParen) :
    r.args (u :: v :: ts) = r.expr (v :: ts) >>= fun e =>
      closedBy .closeParen (r.moreArgs e.2) >>= fun es => pure (e.1 :: es.1, es.2) := by
  simp [args, closedBy, expect, hu, hv]

end Steps

/-- On lists of fewer than `n` tokens the readers have the outcomes of reading. A loop is compared
together with the token that closes its list. -/
structure Exact (r : Readers) (n : Nat) : Prop where
  expr : ∀ ts, ts.length < n → r.expr ts = liftM (Expr.read ts)
  moreArgs : ∀ ts, ts.length < n → ∀ e callee es,
    (closedBy .closeParen (r.moreArgs ts) >>= fun more =>
      pure (.call callee (es.reverse ++ e :: more.1), more.2)) = liftM (resume e [⟨callee, es⟩] ts)
  moreParams : ∀ ts, ts.length < n →
    closedBy .closeParen (r.moreParams ts) = liftM (Definition.readMoreParams ts)
  /-- The first expression of a body is read with as many tokens left as the body. -/
  body : ∀ ts, ts.length + 1 < n →
    closedBy .closer (r.body ts) = liftM (Definition.readBody ts)

namespace Exact

variable {r : Readers} {n : Nat} {ts : List Token}

theorem step_expr (h : r.Exact n) (hts : ts.length < n + 1) :
    r.step.expr ts = liftM (Expr.read ts) := by
  rw [Expr.read]
  fun_cases readIn [] ts with
  | case1 => simp [step]
  | case2 t ts ht value hvalue => simp [step, integer, expect, ht, hvalue, resume]
  | case3 t ts ht hvalue => simp [step, integer, expect, ht, hvalue]
  | case4 t ts ht op hop => simp [step, operator, expect, ht, hop, resume]
  | case5 t ts ht hop => simp [step, operator, expect, ht, hop]
  | case6 t ht => simp [step, ht]
  | case7 t ht u hu =>
    rw [step_expr_call ht hu, call_cons ht, args_openParen_nil hu, ExceptT.bind_throw, lift_error]
  | case8 t ht u hu v vs hv =>
    rw [step_expr_call ht hu, call_cons ht, args_empty hu hv, pure_bind, resume, lift_ok]
  | case9 t ht u hu v vs hv =>
    simp only [List.length_cons] at hts
    rw [step_expr_call ht hu, call_cons ht, args_cons hu hv, Expr.readIn_eq_read_bind, liftM_bind,
      h.expr (v :: vs) (by simp only [List.length_cons]; omega), bind_assoc]
    refine lift_bind_congr ?_
    rintro ⟨e, rest⟩ hread
    have hrest := Expr.length_of_read hread
    simp only [List.length_cons] at hrest
    rw [← h.moreArgs rest (by omega), bind_assoc]
    simp
  | case10 t ht u us hu => simp [step, ref, expect, ht, hu, resume]
  | case11 t ts hi ho ht => rw [step_expr_unexpected hi ho ht, lift_error]

theorem step_moreArgs (h : r.Exact n) (hts : ts.length < n + 1) (e : Expr) (callee : String)
    (es : List Expr) :
    (closedBy .closeParen (r.step.moreArgs ts) >>= fun more =>
      pure (.call callee (es.reverse ++ e :: more.1), more.2)) =
        liftM (resume e [⟨callee, es⟩] ts) := by
  cases ts with
  | nil => simp [afterComma_nil, closedBy, resume]
  | cons t ts =>
    simp only [List.length_cons] at hts
    by_cases hcomma : t.kind = .comma
    · rw [moreArgs_step, afterComma_comma hcomma, resume, if_pos hcomma, Expr.readIn_eq_read_bind,
        liftM_bind, h.expr ts (by omega), closedBy_bind, bind_assoc]
      refine lift_bind_congr ?_
      rintro ⟨e', rest⟩ hread
      have hrest := Expr.length_of_read hread
      rw [← h.moreArgs rest (by omega)]
      simp [closedBy]
    · rw [moreArgs_step, afterComma_other hcomma, resume, if_neg hcomma]
      by_cases hclosing : t.kind = .closeParen
      · simp [closedBy, expect, hclosing, resume]
      · simp [closedBy, expect, hclosing]

theorem step_moreParams (h : r.Exact n) (hts : ts.length < n + 1) :
    closedBy .closeParen (r.step.moreParams ts) = liftM (Definition.readMoreParams ts) := by
  fun_cases Definition.readMoreParams ts with
  | case1 => simp [afterComma_nil, closedBy]
  | case2 t ht => simp [afterComma_comma ht, param, closedBy, expect]
  | case3 t ht u us hu =>
    simp only [List.length_cons] at hts
    rw [lift_map, ← h.moreParams us (by omega)]
    simp [afterComma_comma ht, param, closedBy, expect, hu]
  | case4 t ht u us hu => simp [afterComma_comma ht, param, closedBy, expect, hu]
  | case5 t ts hcomma ht => simp [afterComma_other hcomma, closedBy, expect, ht]
  | case6 t ts hcomma ht => simp [afterComma_other hcomma, closedBy, expect, ht]

theorem step_body (h : r.Exact n) (hts : ts.length + 1 < n + 1) :
    closedBy .closer (r.step.body ts) = liftM (Definition.readBody ts) := by
  fun_cases Definition.readBody ts with
  | case1 => simp [closedBy, step]
  | case2 t ts ht => simp [closedBy, step, expect, ht]
  | case3 t ts ht error hread => simp [closedBy, step, ht, h.expr (t :: ts) (by omega), hread]
  | case4 t ts ht e rest hread =>
    have hrest := Expr.length_of_read hread
    rw [lift_map, ← h.body rest (by omega)]
    simp [closedBy, step, ht, h.expr (t :: ts) (by omega), hread]

theorem step (h : r.Exact n) : r.step.Exact (n + 1) :=
  ⟨fun _ hts => h.step_expr hts, fun _ hts => h.step_moreArgs hts,
    fun _ hts => h.step_moreParams hts, fun _ hts => h.step_body hts⟩

end Exact

/-- Readers that may nest `n` calls are exact on lists of fewer than `n` tokens. -/
theorem exact_within (n : Nat) : (within n).Exact n := by
  induction n with
  | zero => exact ⟨by simp, by simp, by simp, by simp⟩
  | succ n ih => exact ih.step

namespace Exact

variable {r : Readers} {n : Nat} {ts : List Token}

theorem params_eq_read (h : r.Exact n) (hts : ts.length < n) :
    r.params ts = liftM (expect .openParen ts >>= fun a => Definition.readParams a.2) := by
  rw [params, liftM_bind]
  refine lift_bind_congr ?_
  rintro ⟨opening, us⟩ hopening
  obtain ⟨rfl, -⟩ := Token.expect_eq_ok_iff.1 hopening
  simp only [List.length_cons] at hts
  fun_cases Definition.readParams us with
  | case1 => simp [closedBy]
  | case2 t us ht =>
    simp only [List.length_cons] at hts
    rw [lift_map, ← h.moreParams us (by omega)]
    simp [param, closedBy, expect, ht]
  | case3 t us hident ht => simp [closedBy, expect, ht]
  | case4 t us hident ht => simp [closedBy, expect, hident, ht]

theorem definition_eq_read (h : r.Exact n) (d : Dialect) (hts : ts.length < n) :
    r.definition d ts = liftM (Definition.read d ts) := by
  simp only [definition, Definition.read, liftM_bind]
  refine lift_bind_congr ?_
  rintro ⟨keyword, us⟩ hkeyword
  refine lift_bind_congr ?_
  rintro ⟨name, vs⟩ hname
  obtain ⟨rfl, -⟩ := Token.expect_eq_ok_iff.1 hkeyword
  obtain ⟨rfl, -⟩ := Token.expect_eq_ok_iff.1 hname
  simp only [List.length_cons] at hts
  -- How many tokens are left is known only once the steps in front have succeeded.
  dsimp only
  rw [h.params_eq_read (by omega), liftM_bind, bind_assoc]
  refine lift_bind_congr ?_
  rintro ⟨opening, ws⟩ hopening
  refine lift_bind_congr ?_
  rintro ⟨params, rest⟩ hparams
  refine lift_bind_congr fun rest' hrest' => ?_
  obtain ⟨rfl, -⟩ := Token.expect_eq_ok_iff.1 hopening
  obtain ⟨_, inner, closing, rfl, -⟩ := Definition.commaSeparated_of_readParams hparams
  obtain ⟨opener, rfl, -⟩ := Definition.readOpener_eq_ok_iff.1 hrest'
  simp only [List.length_cons, List.length_append] at hts
  rw [h.body rest' (by omega)]
  rfl

section Calls

variable {name opening : Token} {us rest : List Token}

/-- Arguments make a call of a name in front of them. -/
theorem args_bind (h : r.Exact n) (hname : name.kind = .identifier)
    (hopening : opening.kind = .openParen) (hus : us.length + 1 < n) :
    (r.args (opening :: us) >>= fun es => pure (.call name.lexeme es.1, es.2)) =
      liftM (Expr.read (name :: opening :: us)) := by
  rw [← call_cons hname, ← step_expr_call hname hopening]
  exact h.step_expr (by simp only [List.length_cons]; omega)

theorem args_eq_pure_iff (h : r.Exact n) (hname : name.kind = .identifier) (hts : ts.length < n)
    {es : List Expr} :
    r.args ts = pure (es, rest) ↔ Expr.read (name :: ts) = .ok (.call name.lexeme es, rest) := by
  fun_cases Token.expect .openParen ts with
  | case1 => simp [args, expect, Expr.read, Expr.readIn_identifier_nil hname]
  | case2 opening us hopening =>
    simp only [List.length_cons] at hts
    rw [← lift_eq_pure_iff, ← h.args_bind hname hopening hts, bind_eq_pure_iff]
    constructor
    · intro hargs
      exact ⟨_, hargs, rfl⟩
    · rintro ⟨⟨es', rest'⟩, hargs, heq⟩
      cases heq
      exact hargs
  | case3 opening us hopening =>
    simp [args, expect, Expr.read, Expr.readIn_ref hname hopening, hopening, resume]

theorem call_eq_pure_iff (h : r.Exact n) (hts : ts.length < n) {e : Expr} :
    r.call ts = pure (e, rest) ↔
      Expr.read ts = .ok (e, rest) ∧ ∃ callee es, e = .call callee es := by
  constructor
  · intro hcall
    rw [call, bind_eq_pure_iff] at hcall
    obtain ⟨⟨name, us⟩, hexpect, hcall⟩ := hcall
    obtain ⟨rfl, hname⟩ := Token.expect_eq_ok_iff.1 (lift_eq_pure_iff.1 hexpect)
    obtain ⟨⟨es, rest'⟩, hargs, heq⟩ := bind_eq_pure_iff.1 hcall
    cases heq
    simp only [List.length_cons] at hts
    exact ⟨(h.args_eq_pure_iff hname (by omega)).1 hargs, _, _, rfl⟩
  · rintro ⟨hread, callee, es, rfl⟩
    obtain ⟨front, rfl, he⟩ := Expr.derives_of_read hread
    cases he with
    | call hname =>
      rw [List.cons_append] at hread hts ⊢
      rw [call_cons hname, (h.args_eq_pure_iff hname (Nat.lt_of_succ_lt hts)).2 hread, pure_bind]

theorem args_ends (h : r.Exact n) (hts : ts.length < n) : Ends (r.args ts) := by
  fun_cases Token.expect .openParen ts with
  | case1 => exact ⟨.error (.endOfInput .openParen), by simp [args, expect]⟩
  | case2 opening us hopening =>
    -- Any name will do: the call that it makes with the arguments ends.
    have hname : (⟨.identifier, "", 0⟩ : Token).kind = .identifier := rfl
    exact Ends.of_bind ⟨_, h.args_bind hname hopening hts⟩
  | case3 opening us hopening =>
    exact ⟨.error (.unexpected .openParen opening), by simp [args, expect, hopening]⟩

theorem call_ends (h : r.Exact n) (hts : ts.length < n) : Ends (r.call ts) := by
  fun_cases Token.expect .identifier ts with
  | case1 => exact ⟨.error (.endOfInput .identifier), by simp [call, expect]⟩
  | case2 name us hname =>
    simp only [List.length_cons] at hts
    obtain ⟨result, hargs⟩ := h.args_ends (Nat.lt_of_succ_lt hts)
    rw [call_cons hname, hargs, ← lift_map]
    exact .lift _
  | case3 name us hname =>
    exact ⟨.error (.unexpected .identifier name), by simp [call, expect, hname]⟩

end Calls

theorem expr_ends (h : r.Exact n) (hts : ts.length < n) : Ends (r.expr ts) :=
  ⟨_, h.expr ts hts⟩

theorem moreArgs_ends (h : r.Exact n) (hts : ts.length < n) : Ends (r.moreArgs ts) := by
  have hclosed : Ends (closedBy .closeParen (r.moreArgs ts)) :=
    Ends.of_bind ⟨_, h.moreArgs ts hts (.ref "") "" []⟩
  exact hclosed.of_bind

theorem moreParams_ends (h : r.Exact n) (hts : ts.length < n) : Ends (r.moreParams ts) :=
  Ends.of_bind ⟨_, h.moreParams ts hts⟩

theorem body_ends (h : r.Exact n) (hts : ts.length + 1 < n) : Ends (r.body ts) :=
  Ends.of_bind ⟨_, h.body ts hts⟩

end Exact

end Readers

end DefLang
