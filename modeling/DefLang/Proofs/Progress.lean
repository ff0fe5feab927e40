import DefLang.Compile

/-!
# Reading one token at a time

`Progress` is how far the reading of a definition has come: what has been read, and what is looked
for next. `Progress.step` takes one token, `Progress.finish` says what is made of the end of the
tokens, and `Progress.run` goes through a list. A name is kept until the token behind it has told a
call from a variable, so no step looks at more than one token.

Parsing is this machine: `Definition.parse_eq_run`.
-/

namespace DefLang

open DefLang.Expr (OpenCall readIn resume)

/-- What is looked for next, with the calls that are open, innermost first. -/
inductive Awaited where
  | keyword
  | name
  | openParen
  /-- Behind the parenthesis that opens the parameters. -/
  | firstParam
  /-- Behind a parameter. -/
  | paramEnd
  /-- Behind the comma between two parameters. -/
  | param
  | opener
  /-- An expression of the body, or its end. -/
  | body
  /-- An expression. -/
  | expr (outer : List OpenCall)
  /-- Behind a name, which is called or stands for itself. -/
  | nameEnd (name : String) (outer : List OpenCall)
  /-- Behind the parenthesis that opens the arguments of a call. -/
  | firstArg (callee : String) (outer : List OpenCall)
  /-- Behind an argument of the call `inner`. -/
  | argEnd (inner : OpenCall) (outer : List OpenCall)
  | nothing

structure Progress where
  read : Definition
  awaited : Awaited

namespace Progress

def start : Progress :=
  ⟨⟨"", [], []⟩, .keyword⟩

def afterParams (d : Dialect) (f : Definition) : Progress :=
  ⟨f, if d.opener?.isSome then .opener else .body⟩

/-- Behind an expression, which belongs to the innermost call or else to the body. -/
def afterExpr (f : Definition) (e : Expr) : List OpenCall → Progress
  | [] => ⟨{ f with body := f.body ++ [e] }, .body⟩
  | inner :: outer => ⟨f, .argEnd ⟨inner.callee, e :: inner.args⟩ outer⟩

def require (kind : Token.Kind) (t : Token) (next : Progress) : Except GrammarError Progress :=
  if t.kind = kind then .ok next else .error (.unexpected kind t)

def stepExpr (f : Definition) (outer : List OpenCall) (t : Token) : Except GrammarError Progress :=
  match t.kind with
  | .integer =>
    match Decimal.read? t.lexeme with
    | some value => .ok (afterExpr f (.literal value) outer)
    | none => .error (.integerTooLarge t)
  | .operator =>
    match Operator.ofSymbol? t.lexeme with
    | some op => .ok (afterExpr f (.operator op) outer)
    | none => .error (.unknownOperator t)
  | .identifier => .ok ⟨f, .nameEnd t.lexeme outer⟩
  | _ => .error (.unexpected .identifier t)

def stepBody (f : Definition) (t : Token) : Except GrammarError Progress :=
  if t.kind = .closer then .ok ⟨f, .nothing⟩ else stepExpr f [] t

def stepArgEnd (f : Definition) (inner : OpenCall) (outer : List OpenCall) (t : Token) :
    Except GrammarError Progress :=
  if t.kind = .comma then .ok ⟨f, .expr (inner :: outer)⟩
  else require .closeParen t (afterExpr f (.call inner.callee inner.args.reverse) outer)

def stepAfterExpr (f : Definition) (e : Expr) (t : Token) :
    List OpenCall → Except GrammarError Progress
  | [] => stepBody { f with body := f.body ++ [e] } t
  | inner :: outer => stepArgEnd f ⟨inner.callee, e :: inner.args⟩ outer t

/-- Takes the next token. -/
def step (o : Options) (t : Token) : Progress → Except GrammarError Progress
  | ⟨f, .keyword⟩ => require .keyword t ⟨f, .name⟩
  | ⟨f, .name⟩ => require .identifier t ⟨{ f with name := t.lexeme }, .openParen⟩
  | ⟨f, .openParen⟩ => require .openParen t ⟨f, .firstParam⟩
  | ⟨f, .firstParam⟩ =>
    if t.kind = .identifier then .ok ⟨{ f with params := f.params ++ [t.lexeme] }, .paramEnd⟩
    else require .closeParen t (afterParams o.dialect f)
  | ⟨f, .paramEnd⟩ =>
    if t.kind = .comma then .ok ⟨f, .param⟩
    else require .closeParen t (afterParams o.dialect f)
  | ⟨f, .param⟩ => require .identifier t ⟨{ f with params := f.params ++ [t.lexeme] }, .paramEnd⟩
  | ⟨f, .opener⟩ => require .opener t ⟨f, .body⟩
  | ⟨f, .body⟩ => stepBody f t
  | ⟨f, .expr outer⟩ => stepExpr f outer t
  | ⟨f, .nameEnd name outer⟩ =>
    if t.kind = .openParen then .ok ⟨f, .firstArg name outer⟩
    else stepAfterExpr f (.ref name) t outer
  | ⟨f, .firstArg callee outer⟩ =>
    if t.kind = .closeParen then .ok (afterExpr f (.call callee []) outer)
    else stepExpr f (⟨callee, []⟩ :: outer) t
  | ⟨f, .argEnd inner outer⟩ => stepArgEnd f inner outer t
  | ⟨f, .nothing⟩ => if o.strict then .error (.trailing t) else .ok ⟨f, .nothing⟩

/-- What comes of it when no token is left. -/
def finish : Progress → Except GrammarError Definition
  | ⟨_, .keyword⟩ => .error (.endOfInput .keyword)
  | ⟨_, .name⟩ => .error (.endOfInput .identifier)
  | ⟨_, .openParen⟩ => .error (.endOfInput .openParen)
  | ⟨_, .firstParam⟩ => .error (.endOfInput .identifier)
  | ⟨_, .paramEnd⟩ => .error (.endOfInput .comma)
  | ⟨_, .param⟩ => .error (.endOfInput .identifier)
  | ⟨_, .opener⟩ => .error (.endOfInput .opener)
  | ⟨_, .body⟩ => .error (.endOfInput .closer)
  | ⟨_, .expr _⟩ => .error (.endOfInput .integer)
  | ⟨_, .nameEnd _ _⟩ => .error (.endOfLookahead .openParen 1)
  | ⟨_, .firstArg _ _⟩ => .error (.endOfInput .closeParen)
  | ⟨_, .argEnd _ _⟩ => .error (.endOfInput .comma)
  | ⟨f, .nothing⟩ => .ok f

def run (o : Options) (p : Progress) : List Token → Except GrammarError Definition
  | [] => p.finish
  | t :: ts => step o t p >>= fun q => run o q ts

section Steps

variable {o : Options} {f : Definition} {e : Expr} {outer : List OpenCall} {t : Token}
  {ts : List Token}

theorem run_cons {p q : Progress} (h : step o t p = .ok q) : p.run o (t :: ts) = q.run o ts := by
  rw [run, h, ok_bind]

theorem step_expr_identifier (ht : t.kind = .identifier) :
    step o t ⟨f, .expr outer⟩ = .ok ⟨f, .nameEnd t.lexeme outer⟩ := by
  simp only [step, stepExpr, ht]

theorem step_nameEnd_openParen {name : String} (ht : t.kind = .openParen) :
    step o t ⟨f, .nameEnd name outer⟩ = .ok ⟨f, .firstArg name outer⟩ := by
  rw [step, if_pos ht]

theorem step_afterExpr : step o t (afterExpr f e outer) = stepAfterExpr f e t outer := by
  cases outer <;> rfl

theorem run_nameEnd {name : String} (ht : t.kind ≠ .openParen) :
    run o ⟨f, .nameEnd name outer⟩ (t :: ts) = run o (afterExpr f (.ref name) outer) (t :: ts) := by
  rw [run, run, step_afterExpr, step, if_neg ht]

theorem run_firstArg {callee : String} (ht : t.kind ≠ .closeParen) :
    run o ⟨f, .firstArg callee outer⟩ (t :: ts) =
      run o ⟨f, .expr (⟨callee, []⟩ :: outer)⟩ (t :: ts) := by
  rw [run, run, step, step, if_neg ht]

theorem run_body (ht : t.kind ≠ .closer) :
    run o ⟨f, .body⟩ (t :: ts) = run o ⟨f, .expr []⟩ (t :: ts) := by
  rw [run, run, step, step, stepBody, if_neg ht]

end Steps

/-- Inside the calls `outer` the machine goes on behind the outermost one as reading does. -/
theorem run_expr (o : Options) (f : Definition) :
    (∀ outer ts, run o ⟨f, .expr outer⟩ ts = readIn outer ts >>= fun r =>
        run o (afterExpr f r.1 []) r.2) ∧
      ∀ e outer ts, run o (afterExpr f e outer) ts = resume e outer ts >>= fun r =>
        run o (afterExpr f r.1 []) r.2 := by
  refine Expr.readIn.mutual_induct _ _ ?nil ?integer ?integerTooLarge ?operator ?unknownOperator
    ?nameAtEnd ?openParenAtEnd ?callNil ?callCons ?ref ?unexpected ?noCall ?callAtEnd ?comma
    ?closeParen ?noArgument
  case nil =>
    intro outer
    rw [Expr.readIn_nil]
    rfl
  case integer =>
    intro outer t ts ht value hvalue ih
    rw [Expr.readIn_integer ht, hvalue]
    simpa only [run, step, stepExpr, ht, hvalue, ok_bind] using ih
  case integerTooLarge =>
    intro outer t ts ht hvalue
    rw [Expr.readIn_integer ht, hvalue]
    simp only [run, step, stepExpr, ht, hvalue, error_bind]
  case operator =>
    intro outer t ts ht op hop ih
    rw [Expr.readIn_operator ht, hop]
    simpa only [run, step, stepExpr, ht, hop, ok_bind] using ih
  case unknownOperator =>
    intro outer t ts ht hop
    rw [Expr.readIn_operator ht, hop]
    simp only [run, step, stepExpr, ht, hop, error_bind]
  case nameAtEnd =>
    intro outer t ht
    rw [Expr.readIn_identifier_nil ht]
    simp only [run, step, stepExpr, ht, finish, ok_bind, error_bind]
  case openParenAtEnd =>
    intro outer t ht u hu
    rw [Expr.readIn_openParen_nil ht hu]
    simp only [run, step, stepExpr, ht, hu, if_true, finish, ok_bind, error_bind]
  case callNil =>
    intro outer t ht u hu v vs hv ih
    rw [Expr.readIn_call_nil ht hu hv]
    simpa only [run, step, stepExpr, ht, hu, hv, if_true, ok_bind] using ih
  case callCons =>
    intro outer t ht u hu v vs hv ih
    rw [Expr.readIn_call_cons ht hu hv, run_cons (step_expr_identifier ht),
      run_cons (step_nameEnd_openParen hu), run_firstArg hv]
    exact ih
  case ref =>
    intro outer t ht u us hu ih
    rw [Expr.readIn_ref ht hu, run_cons (step_expr_identifier ht), run_nameEnd hu]
    exact ih
  case unexpected =>
    intro outer t ts hi ho ht
    have hstep : step o t ⟨f, .expr outer⟩ = .error (.unexpected .identifier t) := by
      rw [step, stepExpr]
      split
      · next hk => exact absurd hk hi
      · next hk => exact absurd hk ho
      · next hk => exact absurd hk ht
      · rfl
    rw [Expr.readIn_unexpected hi ho ht, run, hstep, error_bind, error_bind]
  case noCall =>
    intro e ts
    rw [resume, ok_bind]
  case callAtEnd =>
    intro e inner outer
    rw [resume]
    rfl
  case comma =>
    intro e inner outer t ts ht ih
    rw [resume, if_pos ht]
    simpa only [run, afterExpr, step, stepArgEnd, if_pos ht, ok_bind] using ih
  case closeParen =>
    intro e inner outer t ts hcomma ht ih
    rw [resume, if_neg hcomma, if_pos ht]
    simpa only [run, afterExpr, step, stepArgEnd, require, if_neg hcomma, if_pos ht, ok_bind]
      using ih
  case noArgument =>
    intro e inner outer t ts hcomma ht
    rw [resume, if_neg hcomma, if_neg ht]
    simp only [run, afterExpr, step, stepArgEnd, require, if_neg hcomma, if_neg ht, error_bind]

theorem run_readBody (o : Options) (f : Definition) (ts : List Token) :
    run o ⟨f, .body⟩ ts = Definition.readBody ts >>= fun r =>
      run o ⟨{ f with body := f.body ++ r.1 }, .nothing⟩ r.2 := by
  fun_induction Definition.readBody ts generalizing f with
  | case1 => rfl
  | case2 t ts ht => simp [run, step, stepBody, ht]
  | case3 t ts ht error hread =>
    rw [run_body ht, (run_expr o f).1, ← Expr.read, hread, error_bind, error_bind]
  | case4 t ts ht e rest hread ih =>
    rw [run_body ht, (run_expr o f).1, ← Expr.read, hread, ok_bind, afterExpr, ih]
    cases Definition.readBody rest with
    | error error => rfl
    | ok r => simp [Except.map]

theorem run_readOpener (o : Options) (f : Definition) (ts : List Token) :
    run o (afterParams o.dialect f) ts = Definition.readOpener o.dialect ts >>= fun rest =>
      run o ⟨f, .body⟩ rest := by
  rw [afterParams, Definition.readOpener]
  split
  · cases ts with
    | nil => rfl
    | cons t ts =>
      by_cases ht : t.kind = .opener
      · simp [run, step, require, Token.expect, ht, Except.map]
      · simp [run, step, require, Token.expect, ht, Except.map]
  · rfl

theorem run_readMoreParams (o : Options) (f : Definition) (ts : List Token) :
    run o ⟨f, .paramEnd⟩ ts = Definition.readMoreParams ts >>= fun r =>
      run o (afterParams o.dialect { f with params := f.params ++ r.1 }) r.2 := by
  fun_induction Definition.readMoreParams ts generalizing f with
  | case1 => rfl
  | case2 t ht => simp [run, step, ht, finish]
  | case3 t ht u us hu ih =>
    rw [run_cons (by rw [step, if_pos ht]), run_cons (by rw [step, require, if_pos hu]), ih]
    cases Definition.readMoreParams us with
    | error error => rfl
    | ok r => simp [Except.map]
  | case4 t ht u us hu => simp [run, step, require, ht, hu]
  | case5 t ts hcomma ht => simp [run, step, require, ht]
  | case6 t ts hcomma ht => simp [run, step, require, hcomma, ht]

theorem run_readParams (o : Options) (f : Definition) (ts : List Token) :
    run o ⟨f, .firstParam⟩ ts = Definition.readParams ts >>= fun r =>
      run o (afterParams o.dialect { f with params := f.params ++ r.1 }) r.2 := by
  fun_cases Definition.readParams ts with
  | case1 => rfl
  | case2 t ts ht =>
    rw [run_cons (by rw [step, if_pos ht]), run_readMoreParams]
    cases Definition.readMoreParams ts with
    | error error => rfl
    | ok r => simp [Except.map]
  | case3 t ts hident ht => simp [run, step, require, ht]
  | case4 t ts hident ht => simp [run, step, require, hident, ht]

theorem run_nothing (o : Options) (f : Definition) (ts : List Token) :
    run o ⟨f, .nothing⟩ ts =
      match ts with
      | [] => .ok f
      | t :: _ => if o.strict then .error (.trailing t) else .ok f := by
  induction ts with
  | nil => rfl
  | cons t ts ih =>
    by_cases hs : o.strict = true
    · simp [run, step, hs]
    · rw [run_cons (by rw [step, if_neg hs]), ih]
      cases ts <;> simp [hs]

theorem run_expect {o : Options} {p : Progress} {kind : Token.Kind}
    (next : Token → Progress) (hstep : ∀ t, step o t p = require kind t (next t))
    (hfinish : p.finish = .error (.endOfInput kind)) (ts : List Token) :
    p.run o ts = Token.expect kind ts >>= fun r => (next r.1).run o r.2 := by
  cases ts with
  | nil => exact hfinish
  | cons t ts =>
    rw [run, hstep, require, Token.expect]
    split
    · rfl
    · rfl

theorem run_keyword (o : Options) (f : Definition) (ts : List Token) :
    run o ⟨f, .keyword⟩ ts = Token.expect .keyword ts >>= fun r => run o ⟨f, .name⟩ r.2 :=
  run_expect (fun _ => ⟨f, .name⟩) (fun _ => rfl) rfl ts

theorem run_name (o : Options) (f : Definition) (ts : List Token) :
    run o ⟨f, .name⟩ ts = Token.expect .identifier ts >>= fun r =>
      run o ⟨{ f with name := r.1.lexeme }, .openParen⟩ r.2 :=
  run_expect (fun t => ⟨{ f with name := t.lexeme }, .openParen⟩) (fun _ => rfl) rfl ts

theorem run_openParen (o : Options) (f : Definition) (ts : List Token) :
    run o ⟨f, .openParen⟩ ts = Token.expect .openParen ts >>= fun r =>
      run o ⟨f, .firstParam⟩ r.2 :=
  run_expect (fun _ => ⟨f, .firstParam⟩) (fun _ => rfl) rfl ts

end Progress

theorem Definition.parse_eq_run (o : Options) (ts : List Token) :
    parse o ts = Progress.start.run o ts := by
  simp only [Progress.start, Progress.run_keyword, Progress.run_name, Progress.run_openParen,
    Progress.run_readParams, Progress.run_readOpener, Progress.run_readBody, Progress.run_nothing,
    parse, read, List.nil_append, bind_assoc, pure_bind]
  refine bind_congr fun _ => bind_congr fun name => bind_congr fun _ => ?_
  refine bind_congr fun params => bind_congr fun _ => bind_congr fun body => ?_
  rcases body with ⟨es, _ | ⟨t, rest⟩⟩
  · rfl
  · rfl

end DefLang
