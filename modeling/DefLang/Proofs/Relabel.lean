import DefLang.Proofs.Viable

/-!
# Relabelled tokens

Parsing decides by the kinds of tokens. Of their spelling it looks at integers and operators only;
names are handed through to the tree, and a token to blame is handed through to the error. So a map
of tokens that keeps kinds and the spelling of integers and operators (`Token.Relabels`) maps what
comes of parsing: each name in the tree, or the token to blame.

The machine that takes one token at a time does so in every step, hence in every run.
-/

namespace DefLang

open DefLang.Expr (OpenCall)

mutual

def Expr.rename (σ : String → String) : Expr → Expr
  | .literal value => .literal value
  | .ref name => .ref (σ name)
  | .call callee args => .call (σ callee) (Expr.renameAll σ args)
  | .operator op => .operator op

def Expr.renameAll (σ : String → String) : List Expr → List Expr
  | [] => []
  | e :: es => e.rename σ :: Expr.renameAll σ es

end

@[simp] theorem Expr.renameAll_eq_map (σ : String → String) (es : List Expr) :
    renameAll σ es = es.map (rename σ) := by
  induction es with
  | nil => simp [renameAll]
  | cons e es ih => simp [renameAll, ih]

/-- The definition with other names, of itself, of its parameters and in its body. -/
def Definition.rename (σ : String → String) (f : Definition) : Definition :=
  ⟨σ f.name, f.params.map σ, f.body.map (Expr.rename σ)⟩

/-- The error about another token. -/
def GrammarError.mapToken (g : Token → Token) : GrammarError → GrammarError
  | unexpected expected found => unexpected expected (g found)
  | endOfInput expected => endOfInput expected
  | endOfLookahead expected distance => endOfLookahead expected distance
  | integerTooLarge found => integerTooLarge (g found)
  | unknownOperator found => unknownOperator (g found)
  | trailing found => trailing (g found)

theorem GrammarError.token?_mapToken (g : Token → Token) (error : GrammarError) :
    (error.mapToken g).token? = error.token?.map g := by
  cases error <;> rfl

theorem GrammarError.mapToken_of_token?_eq_none {error : GrammarError} (g : Token → Token)
    (h : error.token? = none) : error.mapToken g = error := by
  cases error with
  | endOfInput expected => rfl
  | endOfLookahead expected distance => rfl
  | _ => cases h

/-- Names are spelled by `σ`, integers and operators as before, and kinds are kept. -/
structure Token.Relabels (σ : String → String) (g : Token → Token) : Prop where
  kind : ∀ t, (g t).kind = t.kind
  name : ∀ t, t.kind = .identifier → (g t).lexeme = σ t.lexeme
  value : ∀ t, t.kind = .integer ∨ t.kind = .operator → (g t).lexeme = t.lexeme

/-- What comes of a step when names and the token to blame are replaced. -/
def relabelOutcome {α : Type} (g : Token → Token) (rename : α → α) (x : Except GrammarError α) :
    Except GrammarError α :=
  (x.mapError (GrammarError.mapToken g)).map rename

theorem Expr.rename_id : ∀ e : Expr, e.rename id = e
  | .literal _ => by rw [rename]
  | .ref _ => by rw [rename, id]
  | .call callee args => by
    have hargs : args.map (rename id) = args :=
      calc args.map (rename id) = args.map id := List.map_congr_left fun e _ => rename_id e
        _ = args := List.map_id args
    rw [rename, renameAll_eq_map, hargs, id]
  | .operator _ => by rw [rename]

theorem Definition.rename_id (f : Definition) : f.rename id = f := by
  have hbody : Expr.rename id = id := funext Expr.rename_id
  simp [rename, hbody]

def Expr.OpenCall.rename (σ : String → String) (c : OpenCall) : OpenCall :=
  ⟨σ c.callee, c.args.map (Expr.rename σ)⟩

def Awaited.rename (σ : String → String) : Awaited → Awaited
  | expr outer => expr (outer.map (OpenCall.rename σ))
  | nameEnd text outer => nameEnd (σ text) (outer.map (OpenCall.rename σ))
  | firstArg callee outer => firstArg (σ callee) (outer.map (OpenCall.rename σ))
  | argEnd inner outer => argEnd (inner.rename σ) (outer.map (OpenCall.rename σ))
  | awaited => awaited

namespace Progress

def rename (σ : String → String) (p : Progress) : Progress :=
  ⟨p.read.rename σ, p.awaited.rename σ⟩

variable {σ : String → String} {g : Token → Token} {o : Options} {t : Token}

theorem rename_afterExpr (f : Definition) (e : Expr) (outer : List OpenCall) :
    (afterExpr f e outer).rename σ =
      afterExpr (f.rename σ) (e.rename σ) (outer.map (OpenCall.rename σ)) := by
  cases outer with
  | nil => simp [afterExpr, rename, Definition.rename, Awaited.rename]
  | cons inner outer =>
    simp [afterExpr, rename, Awaited.rename, OpenCall.rename]

theorem rename_afterParams (d : Dialect) (f : Definition) :
    (afterParams d f).rename σ = afterParams d (f.rename σ) := by
  unfold afterParams
  split
  · rfl
  · rfl

theorem require_relabel (hg : Token.Relabels σ g) {kind : Token.Kind} {q q' : Progress}
    (hq : t.kind = kind → q' = q.rename σ) :
    require kind (g t) q' = relabelOutcome g (rename σ) (require kind t q) := by
  unfold require
  rw [hg.kind]
  split
  · next ht => exact congrArg Except.ok (hq ht)
  · rfl

theorem stepExpr_relabel (hg : Token.Relabels σ g) (f : Definition) (outer : List OpenCall) :
    stepExpr (f.rename σ) (outer.map (OpenCall.rename σ)) (g t) =
      relabelOutcome g (rename σ) (stepExpr f outer t) := by
  unfold stepExpr
  rw [hg.kind]
  split
  · next ht =>
    rw [hg.value t (.inl ht)]
    cases Decimal.read? t.lexeme with
    | none => rfl
    | some value => exact congrArg Except.ok (rename_afterExpr f (.literal value) outer).symm
  · next ht =>
    rw [hg.value t (.inr ht)]
    cases Operator.ofSymbol? t.lexeme with
    | none => rfl
    | some op => exact congrArg Except.ok (rename_afterExpr f (.operator op) outer).symm
  · next ht =>
    rw [hg.name t ht]
    rfl
  · rfl

theorem stepBody_relabel (hg : Token.Relabels σ g) (f : Definition) :
    stepBody (f.rename σ) (g t) = relabelOutcome g (rename σ) (stepBody f t) := by
  unfold stepBody
  rw [hg.kind]
  split
  · rfl
  · exact stepExpr_relabel hg f []

theorem stepArgEnd_relabel (hg : Token.Relabels σ g) (f : Definition) (inner : OpenCall)
    (outer : List OpenCall) :
    stepArgEnd (f.rename σ) (inner.rename σ) (outer.map (OpenCall.rename σ)) (g t) =
      relabelOutcome g (rename σ) (stepArgEnd f inner outer t) := by
  unfold stepArgEnd
  rw [hg.kind]
  split
  · rfl
  · refine require_relabel hg fun _ => ?_
    rw [rename_afterExpr, OpenCall.rename, Expr.rename, Expr.renameAll_eq_map, List.map_reverse]

theorem stepAfterExpr_relabel (hg : Token.Relabels σ g) (f : Definition) (e : Expr)
    (outer : List OpenCall) :
    stepAfterExpr (f.rename σ) (e.rename σ) (g t) (outer.map (OpenCall.rename σ)) =
      relabelOutcome g (rename σ) (stepAfterExpr f e t outer) := by
  cases outer with
  | nil =>
    have hbody := stepBody_relabel (t := t) hg { f with body := f.body ++ [e] }
    simpa only [stepAfterExpr, Definition.rename, List.map_append, List.map_cons, List.map_nil]
      using hbody
  | cons inner outer => exact stepArgEnd_relabel hg f ⟨inner.callee, e :: inner.args⟩ outer

theorem step_relabel (hg : Token.Relabels σ g) (o : Options) (t : Token) (p : Progress) :
    step o (g t) (p.rename σ) = relabelOutcome g (rename σ) (step o t p) := by
  have hclose (f : Definition) :
      require .closeParen (g t) (afterParams o.dialect (f.rename σ)) =
        relabelOutcome g (rename σ) (require .closeParen t (afterParams o.dialect f)) :=
    require_relabel hg fun _ => (rename_afterParams o.dialect f).symm
  have hparam (f : Definition) (ht : t.kind = .identifier) :
      Definition.rename σ { f with params := f.params ++ [t.lexeme] } =
        { f.rename σ with params := (f.rename σ).params ++ [(g t).lexeme] } := by
    simp [Definition.rename, hg.name t ht]
  obtain ⟨f, awaited⟩ := p
  cases awaited with
  | keyword => exact require_relabel hg fun _ => rfl
  | name => exact require_relabel hg fun ht => by rw [hg.name t ht]; rfl
  | openParen => exact require_relabel hg fun _ => rfl
  | firstParam =>
    simp only [rename, Awaited.rename, step, hg.kind]
    split
    · next ht => rw [← hparam f ht]; rfl
    · exact hclose f
  | paramEnd =>
    simp only [rename, Awaited.rename, step, hg.kind]
    split
    · rfl
    · exact hclose f
  | param => exact require_relabel hg fun ht => by rw [rename, hparam f ht]; rfl
  | opener => exact require_relabel hg fun _ => rfl
  | body => exact stepBody_relabel hg f
  | expr outer => exact stepExpr_relabel hg f outer
  | nameEnd name outer =>
    simp only [rename, Awaited.rename, step, hg.kind]
    split
    · rfl
    · rw [← stepAfterExpr_relabel hg, Expr.rename]
  | firstArg callee outer =>
    simp only [rename, Awaited.rename, step, hg.kind]
    split
    · rw [relabelOutcome]
      exact congrArg Except.ok (rename_afterExpr f (.call callee []) outer).symm
    · exact stepExpr_relabel hg f (⟨callee, []⟩ :: outer)
  | argEnd inner outer => exact stepArgEnd_relabel hg f inner outer
  | nothing =>
    simp only [rename, Awaited.rename, step]
    split
    · rfl
    · rfl

theorem finish_relabel (g : Token → Token) (p : Progress) :
    (p.rename σ).finish = relabelOutcome g (Definition.rename σ) p.finish := by
  obtain ⟨f, awaited⟩ := p
  cases awaited <;> rfl

theorem run_relabel (hg : Token.Relabels σ g) (o : Options) (p : Progress) (ts : List Token) :
    (p.rename σ).run o (ts.map g) = relabelOutcome g (Definition.rename σ) (p.run o ts) := by
  induction ts generalizing p with
  | nil => exact finish_relabel g p
  | cons t ts ih =>
    rw [List.map_cons, run, run, step_relabel hg]
    cases step o t p with
    | error error => rfl
    | ok q => exact ih q

theorem run_start_rename (o : Options) (ts : List Token) :
    (start.rename σ).run o ts = start.run o ts := by
  have hstart : start.rename σ = ⟨⟨σ "", [], []⟩, .keyword⟩ := rfl
  rw [hstart, start]
  simp only [run_keyword, run_name]

end Progress

/-- Parsing relabelled tokens gives the tree with the other names, or the error about the relabelled
token. -/
theorem Definition.parse_map {σ : String → String} {g : Token → Token} (hg : Token.Relabels σ g)
    (o : Options) (ts : List Token) :
    parse o (ts.map g) = relabelOutcome g (rename σ) (parse o ts) := by
  rw [parse_eq_run, parse_eq_run, ← Progress.run_relabel hg, Progress.run_start_rename]

/-- Two sources whose tokens differ in what parsing does not look at compile to the same output, or
fail with the same error about tokens that correspond. -/
theorem compile_relabel {g : Token → Token} (hg : Token.Relabels id g) {o : Options}
    {source source' : String} {ts : List Token} (hscan : Token.scan o.dialect source = .ok ts)
    (hscan' : Token.scan o.dialect source' = .ok (ts.map g)) :
    (∀ out, compile o source' = .ok out ↔ compile o source = .ok out) ∧
      ∀ failure, compile o source = .error failure → ∃ error, failure = .grammar error ∧
        compile o source' = .error (.grammar (error.mapToken g)) := by
  have hmap := Definition.parse_map hg o ts
  cases hparse : Definition.parse o ts with
  | ok f =>
    have hparse' : Definition.parse o (ts.map g) = .ok f := by
      rw [hmap, hparse]
      exact congrArg Except.ok f.rename_id
    rw [compile_eq_ok_iff.2 ⟨ts, f, hscan, hparse, rfl⟩,
      compile_eq_ok_iff.2 ⟨ts.map g, f, hscan', hparse', rfl⟩]
    exact ⟨fun _ => Iff.rfl, by rintro _ ⟨⟩⟩
  | error error =>
    have hparse' : Definition.parse o (ts.map g) = .error (error.mapToken g) := by
      rw [hmap, hparse]
      rfl
    rw [compile_of_parse_eq_error hscan hparse, compile_of_parse_eq_error hscan' hparse']
    refine ⟨fun out => ⟨by rintro ⟨⟩, by rintro ⟨⟩⟩, ?_⟩
    rintro _ ⟨⟩
    exact ⟨error, rfl, rfl⟩

/-- Kinds decide what comes of parsing. With other names and other places the tree is the same up to
its names, and an error is the same about the token in the same position, or at the end of the
tokens. -/
theorem Definition.parse_relabel {σ : String → String} {g : Token → Token}
    (hg : Token.Relabels σ g) (o : Options) (ts : List Token) :
    (∀ f, parse o ts = .ok f → parse o (ts.map g) = .ok (f.rename σ)) ∧
    ∀ error, parse o ts = .error error →
      (∃ (i : Nat) (t : Token), ts[i]? = some t ∧ error.token? = some t ∧
        parse o (ts.map g) = .error (error.mapToken g) ∧
        (error.mapToken g).token? = some (g t)) ∨
      error.token? = none ∧ parse o (ts.map g) = .error error := by
  have hmap := parse_map hg o ts
  constructor
  · intro f h
    rw [hmap, h]
    rfl
  · intro error h
    have herror : parse o (ts.map g) = .error (error.mapToken g) := by
      rw [hmap, h]
      rfl
    cases htoken : error.token? with
    | none =>
      rw [GrammarError.mapToken_of_token?_eq_none g htoken] at herror
      exact .inr ⟨rfl, herror⟩
    | some t =>
      obtain ⟨i, hi⟩ := List.mem_iff_getElem?.1 (mem_of_token? h htoken)
      have htoken' : (error.mapToken g).token? = some (g t) := by
        rw [GrammarError.token?_mapToken, htoken, Option.map_some]
      exact .inl ⟨i, t, hi, rfl, herror, htoken'⟩

def Token.lengthened (t : Token) : Token :=
  ⟨t.kind, if t.kind = .integer ∨ t.kind = .operator then t.lexeme else t.lexeme ++ "x", 0⟩

theorem Token.relabels_lengthened : Relabels (· ++ "x") lengthened where
  kind := fun _ => rfl
  name := fun t ht => by rw [lengthened, if_neg (by simp [ht])]
  value := fun t ht => by rw [lengthened, if_pos ht]

theorem Definition.parse_relabel_calls :
    parse ⟨.worded, true⟩ (closedCall.map Token.lengthened) =
      .ok (rename (· ++ "x") ⟨"f", [], [.call "g" [.ref "x"]]⟩) ∧
    parse ⟨.worded, true⟩ (unclosedCall.map Token.lengthened) =
      .error (.unexpected .closeParen (Token.lengthened ⟨.identifier, "y", 12⟩)) ∧
    parse ⟨.worded, true⟩ ((unclosedCall.take 6).map Token.lengthened) =
      .error (.endOfInput .closeParen) := by
  have hclosed : parse ⟨.worded, true⟩ closedCall = .ok ⟨"f", [], [.call "g" [.ref "x"]]⟩ := by
    rw [parse_eq_run]
    rfl
  have hunclosed : parse ⟨.worded, true⟩ unclosedCall =
      .error (.unexpected .closeParen ⟨.identifier, "y", 12⟩) := by
    rw [parse_eq_run]
    rfl
  have hend : parse ⟨.worded, true⟩ (unclosedCall.take 6) = .error (.endOfInput .closeParen) := by
    rw [parse_eq_run]
    rfl
  refine ⟨(parse_relabel Token.relabels_lengthened _ _).1 _ hclosed, ?_, ?_⟩
  · rcases (parse_relabel Token.relabels_lengthened _ _).2 _ hunclosed with
      ⟨i, t, -, -, hparse, -⟩ | ⟨htoken, -⟩
    · exact hparse
    · cases htoken
  · rcases (parse_relabel Token.relabels_lengthened _ _).2 _ hend with
      ⟨i, t, -, htoken, -⟩ | ⟨-, hparse⟩
    · cases htoken
    · exact hparse

end DefLang
