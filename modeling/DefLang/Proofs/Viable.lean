import DefLang.Proofs.Progress

/-!
# Viable lists of tokens

A list of tokens is viable when tokens can be put behind it so that the whole is parsed. Every state
of the machine that takes one token at a time can be completed, so a list is viable as long as the
machine has not failed, and the error of a parse blames the first token with which it is no longer
viable. Where a kind is named, a token of that kind could have come in place of the one to blame, or
next at the end of the tokens.
-/

namespace DefLang

open DefLang.Expr (OpenCall)

namespace Awaited

def block (d : Dialect) : List Token.Kind :=
  if d.opener?.isSome then [.opener, .closer] else [.closer]

def closing (outer : List OpenCall) : List Token.Kind :=
  outer.map (fun _ => .closeParen) ++ [.closer]

/-- A short way to the end of the definition, as the kinds that are missing. -/
def missing (d : Dialect) : Awaited → List Token.Kind
  | keyword => .keyword :: .identifier :: .openParen :: .closeParen :: block d
  | name => .identifier :: .openParen :: .closeParen :: block d
  | openParen => .openParen :: .closeParen :: block d
  | firstParam => .closeParen :: block d
  | paramEnd => .closeParen :: block d
  | param => .identifier :: .closeParen :: block d
  | opener => [.opener, .closer]
  | body => [.closer]
  | expr outer => .integer :: closing outer
  | nameEnd _ outer => .openParen :: .closeParen :: closing outer
  | firstArg _ outer => .closeParen :: closing outer
  | argEnd _ outer => .closeParen :: closing outer
  | nothing => []

def required? : Awaited → Option Token.Kind
  | keyword => some .keyword
  | name => some .identifier
  | openParen => some .openParen
  | firstParam => some .closeParen
  | paramEnd => some .closeParen
  | param => some .identifier
  | opener => some .opener
  | body => some .identifier
  | expr _ => some .identifier
  | nameEnd _ [] => some .identifier
  | nameEnd _ (_ :: _) => some .closeParen
  | firstArg _ _ => some .identifier
  | argEnd _ _ => some .closeParen
  | nothing => none

end Awaited

namespace Progress

variable {o : Options} {p q : Progress} {f : Definition} {outer : List OpenCall} {t : Token}
  {ts : List Token} {error : GrammarError}

def advance (o : Options) (p : Progress) : List Token → Except GrammarError Progress
  | [] => .ok p
  | t :: ts => step o t p >>= fun q => advance o q ts

theorem run_append (o : Options) (p : Progress) (ts us : List Token) :
    p.run o (ts ++ us) = p.advance o ts >>= fun q => q.run o us := by
  induction ts generalizing p with
  | nil => rfl
  | cons t ts ih => simp only [List.cons_append, run, advance, ih, bind_assoc]

/-- Some token of this kind can be taken. -/
def Admits (o : Options) (p : Progress) (kind : Token.Kind) : Prop :=
  ∃ t q, t.kind = kind ∧ step o t p = .ok q

/-- Some tokens lead to a definition. -/
def Completable (o : Options) (p : Progress) : Prop :=
  ∃ ts f, p.run o ts = .ok f

/-- Tokens of these kinds lead to a definition, as long as integers among them can be read. -/
def CompletedBy (o : Options) (p : Progress) (kinds : List Token.Kind) : Prop :=
  ∀ ts : List Token, ts.map Token.kind = kinds →
    (∀ t ∈ ts, t.kind = .integer → (Decimal.read? t.lexeme).isSome) → ∃ f, p.run o ts = .ok f

theorem CompletedBy.of_step {kind : Token.Kind} {kinds : List Token.Kind}
    (h : ∀ t : Token, t.kind = kind → (t.kind = .integer → (Decimal.read? t.lexeme).isSome) →
      ∃ q, step o t p = .ok q ∧ q.CompletedBy o kinds) : p.CompletedBy o (kind :: kinds) := by
  intro ts hkinds hintegers
  cases ts with
  | nil => cases hkinds
  | cons t ts =>
    obtain ⟨ht, hts⟩ := List.cons.inj hkinds
    obtain ⟨q, hstep, hq⟩ := h t ht (hintegers t List.mem_cons_self)
    rw [run_cons hstep]
    exact hq ts hts fun u hu => hintegers u (List.mem_cons_of_mem t hu)

theorem completedBy_nothing (o : Options) (f : Definition) : CompletedBy o ⟨f, .nothing⟩ [] := by
  intro ts hkinds _
  rw [List.map_eq_nil_iff.1 hkinds]
  exact ⟨f, rfl⟩

theorem completedBy_body (o : Options) (f : Definition) : CompletedBy o ⟨f, .body⟩ [.closer] :=
  .of_step fun _ ht _ => ⟨_, by rw [step, stepBody, if_pos ht], completedBy_nothing o f⟩

theorem completedBy_opener (o : Options) (f : Definition) :
    CompletedBy o ⟨f, .opener⟩ [.opener, .closer] :=
  .of_step fun _ ht _ => ⟨_, by rw [step, require, if_pos ht], completedBy_body o f⟩

theorem completedBy_afterExpr (o : Options) (f : Definition) (e : Expr) (outer : List OpenCall) :
    (afterExpr f e outer).CompletedBy o (Awaited.closing outer) := by
  induction outer generalizing e with
  | nil => exact completedBy_body o _
  | cons inner outer ih =>
    refine .of_step fun t ht _ => ⟨_, ?_, ih (.call inner.callee (e :: inner.args).reverse)⟩
    simp [afterExpr, step, stepArgEnd, require, ht]

theorem completedBy_afterParams (o : Options) (f : Definition) :
    (afterParams o.dialect f).CompletedBy o (Awaited.block o.dialect) := by
  unfold afterParams Awaited.block
  split
  · exact completedBy_opener o f
  · exact completedBy_body o f

theorem completedBy_missing (o : Options) (p : Progress) :
    p.CompletedBy o (p.awaited.missing o.dialect) := by
  have hclosing (f e) {outer} := completedBy_afterExpr o f e outer
  have hblock (f) := completedBy_afterParams o f
  have hopenParen (f) : CompletedBy o ⟨f, .openParen⟩ (Awaited.openParen.missing o.dialect) :=
    .of_step fun _ ht _ => ⟨⟨f, .firstParam⟩, by rw [step, require, if_pos ht],
      .of_step fun _ hu _ => ⟨_, by simp [step, require, hu], hblock f⟩⟩
  have hname (f) : CompletedBy o ⟨f, .name⟩ (Awaited.name.missing o.dialect) :=
    .of_step fun _ ht _ => ⟨_, by rw [step, require, if_pos ht], hopenParen _⟩
  have hparamEnd (f) : CompletedBy o ⟨f, .paramEnd⟩ (Awaited.paramEnd.missing o.dialect) :=
    .of_step fun _ ht _ => ⟨_, by simp [step, require, ht], hblock f⟩
  have hfirstArg (f callee outer) : CompletedBy o ⟨f, .firstArg callee outer⟩
      (.closeParen :: Awaited.closing outer) :=
    .of_step fun _ ht _ => ⟨_, by rw [step, if_pos ht], hclosing f (.call callee [])⟩
  obtain ⟨f, awaited⟩ := p
  cases awaited with
  | keyword => exact .of_step fun _ ht _ => ⟨_, by rw [step, require, if_pos ht], hname f⟩
  | name => exact hname f
  | openParen => exact hopenParen f
  | firstParam => exact .of_step fun _ ht _ => ⟨_, by simp [step, require, ht], hblock f⟩
  | paramEnd => exact hparamEnd f
  | param => exact .of_step fun _ ht _ => ⟨_, by rw [step, require, if_pos ht], hparamEnd _⟩
  | opener => exact completedBy_opener o f
  | body => exact completedBy_body o f
  | expr outer =>
    refine .of_step fun t ht hvalue => ?_
    obtain ⟨value, hvalue⟩ := Option.isSome_iff_exists.1 (hvalue ht)
    exact ⟨_, by simp only [step, stepExpr, ht, hvalue], hclosing f (.literal value)⟩
  | nameEnd name outer =>
    exact .of_step fun _ ht _ => ⟨_, step_nameEnd_openParen ht, hfirstArg f name outer⟩
  | firstArg callee outer => exact hfirstArg f callee outer
  | argEnd inner outer =>
    exact .of_step fun _ ht _ => ⟨_, by simp [step, stepArgEnd, require, ht],
      hclosing f (.call inner.callee inner.args.reverse)⟩
  | nothing => exact completedBy_nothing o f

def sample (kind : Token.Kind) : Token :=
  ⟨kind, "0", 0⟩

theorem completable (o : Options) (p : Progress) : p.Completable o := by
  let ts := (p.awaited.missing o.dialect).map sample
  have hkinds : ts.map Token.kind = p.awaited.missing o.dialect := by
    simp [ts, sample, Function.comp_def]
  have hintegers : ∀ t ∈ ts, t.kind = .integer → (Decimal.read? t.lexeme).isSome := by
    intro t ht _
    obtain ⟨kind, -, rfl⟩ := List.mem_map.1 ht
    exact (by decide : (Decimal.read? "0").isSome = true)
  obtain ⟨f, hrun⟩ := completedBy_missing o p ts hkinds hintegers
  exact ⟨ts, f, hrun⟩

theorem admits_of_required? {kind : Token.Kind} (h : p.awaited.required? = some kind) :
    p.Admits o kind := by
  obtain ⟨f, awaited⟩ := p
  cases awaited with
  | nameEnd name outer =>
    cases outer with
    | nil => cases h; exact ⟨sample .identifier, _, rfl, rfl⟩
    | cons inner outer => cases h; exact ⟨sample .closeParen, _, rfl, rfl⟩
  | nothing => cases h
  | _ => cases h; exact ⟨sample _, _, rfl, rfl⟩

/-- The ways in which a token cannot be taken. -/
inductive Fault (o : Options) (p : Progress) (t : Token) : GrammarError → Prop
  | unexpected {kind : Token.Kind} (h : p.Admits o kind)
      (hrequired : p.awaited.required? = some kind) : Fault o p t (.unexpected kind t)
  | integerTooLarge (ht : t.kind = .integer) (hvalue : Decimal.read? t.lexeme = none) :
      Fault o p t (.integerTooLarge t)
  | unknownOperator (ht : t.kind = .operator) (hop : Operator.ofSymbol? t.lexeme = none) :
      Fault o p t (.unknownOperator t)
  | trailing {f : Definition} (h : p.finish = .ok f) : Fault o p t (.trailing t)

/-- What a step comes to. The marker in front of a body is looked for only where the dialect has
one. -/
inductive StepOutcome (o : Options) (p : Progress) (t : Token) : Except GrammarError Progress → Prop
  | ok {q : Progress} (h : q.awaited = .opener → o.dialect.opener?.isSome = true) :
      StepOutcome o p t (.ok q)
  | error {error : GrammarError} (h : Fault o p t error) : StepOutcome o p t (.error error)

theorem stepOutcome_require {kind : Token.Kind} (hkind : p.awaited.required? = some kind)
    (hq : q.awaited = .opener → o.dialect.opener?.isSome = true) :
    StepOutcome o p t (require kind t q) := by
  unfold require
  split
  · exact .ok hq
  · exact .error (.unexpected (admits_of_required? hkind) hkind)

theorem awaited_afterExpr_ne_opener (f : Definition) (e : Expr) (outer : List OpenCall) :
    (afterExpr f e outer).awaited ≠ .opener := by
  cases outer with
  | nil => exact nofun
  | cons inner outer => exact nofun

theorem opener?_of_afterParams {d : Dialect} (h : (afterParams d f).awaited = .opener) :
    d.opener?.isSome = true := by
  unfold afterParams at h
  split at h
  · assumption
  · cases h

theorem stepOutcome_stepExpr (hident : p.awaited.required? = some .identifier) :
    StepOutcome o p t (stepExpr f outer t) := by
  have hafter (e : Expr) : StepOutcome o p t (.ok (afterExpr f e outer)) :=
    .ok fun hopener => absurd hopener (awaited_afterExpr_ne_opener f e outer)
  unfold stepExpr
  split
  · next ht =>
    split
    · exact hafter _
    · next hvalue => exact .error (.integerTooLarge ht hvalue)
  · next ht =>
    split
    · exact hafter _
    · next hop => exact .error (.unknownOperator ht hop)
  · exact .ok (by rintro ⟨⟩)
  · exact .error (.unexpected (admits_of_required? hident) hident)

theorem stepOutcome_stepBody (hident : p.awaited.required? = some .identifier) :
    StepOutcome o p t (stepBody f t) := by
  unfold stepBody
  split
  · exact .ok (by rintro ⟨⟩)
  · exact stepOutcome_stepExpr hident

theorem stepOutcome_stepArgEnd {inner : OpenCall}
    (hclose : p.awaited.required? = some .closeParen) :
    StepOutcome o p t (stepArgEnd f inner outer t) := by
  unfold stepArgEnd
  split
  · exact .ok (by rintro ⟨⟩)
  · exact stepOutcome_require hclose
      fun hopener => absurd hopener (awaited_afterExpr_ne_opener _ _ _)

theorem stepOutcome (o : Options) (p : Progress) (t : Token) :
    StepOutcome o p t (step o t p) := by
  obtain ⟨f, awaited⟩ := p
  cases awaited with
  | keyword => exact stepOutcome_require rfl (by rintro ⟨⟩)
  | name => exact stepOutcome_require rfl (by rintro ⟨⟩)
  | openParen => exact stepOutcome_require rfl (by rintro ⟨⟩)
  | firstParam =>
    rw [step]
    split
    · exact .ok (by rintro ⟨⟩)
    · exact stepOutcome_require rfl opener?_of_afterParams
  | paramEnd =>
    rw [step]
    split
    · exact .ok (by rintro ⟨⟩)
    · exact stepOutcome_require rfl opener?_of_afterParams
  | param => exact stepOutcome_require rfl (by rintro ⟨⟩)
  | opener => exact stepOutcome_require rfl (by rintro ⟨⟩)
  | body => exact stepOutcome_stepBody rfl
  | expr outer => exact stepOutcome_stepExpr rfl
  | nameEnd name outer =>
    rw [step]
    split
    · exact .ok (by rintro ⟨⟩)
    · cases outer with
      | nil => exact stepOutcome_stepBody rfl
      | cons inner outer => exact stepOutcome_stepArgEnd rfl
  | firstArg callee outer =>
    rw [step]
    split
    · exact .ok fun hopener => absurd hopener (awaited_afterExpr_ne_opener _ _ _)
    · exact stepOutcome_stepExpr rfl
  | argEnd inner outer => exact stepOutcome_stepArgEnd rfl
  | nothing =>
    rw [step]
    split
    · exact .error (.trailing rfl)
    · exact .ok (by rintro ⟨⟩)

theorem fault_of_step (h : step o t p = .error error) : Fault o p t error := by
  have houtcome := stepOutcome o p t
  rw [h] at houtcome
  cases houtcome with
  | error hfault => exact hfault

theorem opener?_of_step (h : step o t p = .ok q) (hq : q.awaited = .opener) :
    o.dialect.opener?.isSome = true := by
  have houtcome := stepOutcome o p t
  rw [h] at houtcome
  cases houtcome with
  | ok hopener => exact hopener hq

theorem opener?_of_advance (hp : p.awaited = .opener → o.dialect.opener?.isSome = true)
    (h : p.advance o ts = .ok q) (hq : q.awaited = .opener) : o.dialect.opener?.isSome = true := by
  induction ts generalizing p with
  | nil =>
    cases h
    exact hp hq
  | cons t ts ih =>
    rw [advance, bind_eq_ok_iff] at h
    obtain ⟨p', hstep, h⟩ := h
    exact ih (opener?_of_step hstep) h

theorem opener?_of_start (h : start.advance o ts = .ok q) (hq : q.awaited = .opener) :
    o.dialect.opener?.isSome = true :=
  opener?_of_advance (by rintro ⟨⟩) h hq

theorem admits_of_finish (o : Options) (h : p.finish = .error error) :
    ∃ kind, (error = .endOfInput kind ∨ ∃ n, error = .endOfLookahead kind n) ∧
      p.Admits o kind := by
  obtain ⟨f, awaited⟩ := p
  cases awaited with
  | nothing => cases h
  | nameEnd name outer =>
    cases h
    exact ⟨_, .inr ⟨_, rfl⟩, sample _, _, rfl, rfl⟩
  | _ =>
    cases h
    exact ⟨_, .inl rfl, sample _, _, rfl, rfl⟩

theorem exists_of_run_error (h : p.run o ts = .error error) :
    (∃ q, p.advance o ts = .ok q ∧ q.finish = .error error) ∨
      ∃ pre t post q, ts = pre ++ t :: post ∧ p.advance o pre = .ok q ∧
        step o t q = .error error := by
  induction ts generalizing p with
  | nil => exact .inl ⟨p, rfl, h⟩
  | cons t ts ih =>
    cases hstep : step o t p with
    | error error' =>
      rw [run, hstep, error_bind] at h
      cases h
      exact .inr ⟨[], t, ts, p, rfl, rfl, hstep⟩
    | ok q =>
      rw [run_cons hstep] at h
      rcases ih h with ⟨q', hq', hfinish⟩ | ⟨pre, u, post, q', rfl, hq', hu⟩
      · exact .inl ⟨q', by rw [advance, hstep, ok_bind, hq'], hfinish⟩
      · exact .inr ⟨t :: pre, u, post, q', rfl, by rw [advance, hstep, ok_bind, hq'], hu⟩

theorem Fault.token?_eq (h : Fault o p t error) : error.token? = some t := by
  cases h <;> rfl

theorem token?_of_finish (h : p.finish = .error error) : error.token? = none := by
  obtain ⟨kind, rfl | ⟨n, rfl⟩, -⟩ := admits_of_finish ⟨.worded, false⟩ h
  · rfl
  · rfl

end Progress

namespace Definition

open Progress

variable {o : Options} {ts pre : List Token} {t : Token} {q : Progress} {error : GrammarError}

/-- Some continuation of the tokens is parsed. -/
def Viable (o : Options) (ts : List Token) : Prop :=
  ∃ more f, parse o (ts ++ more) = .ok f

/-- The first token with which the list is no longer viable. -/
structure FirstFault (o : Options) (ts : List Token) (i : Nat) (t : Token) : Prop where
  getElem? : ts[i]? = some t
  viable : Viable o (ts.take i)
  not_viable : ¬ Viable o (ts.take (i + 1))

/-- The tokens are no definition yet, and a token of kind `expected` may come next. -/
structure Unfinished (o : Options) (ts : List Token) (expected : Token.Kind) : Prop where
  viable : Viable o ts
  ne_ok : ∀ f, parse o ts ≠ .ok f
  expected : ∃ t, t.kind = expected ∧ Viable o (ts ++ [t])

/-- What an error says about the tokens. -/
def Explains (o : Options) (ts : List Token) : GrammarError → Prop
  | .unexpected expected found =>
    ∃ i, FirstFault o ts i found ∧ ∃ t, t.kind = expected ∧ Viable o (ts.take i ++ [t])
  | .endOfInput expected => Unfinished o ts expected
  | .endOfLookahead expected _ => Unfinished o ts expected
  | .integerTooLarge found => ∃ i, FirstFault o ts i found
  | .unknownOperator found => ∃ i, FirstFault o ts i found
  | .trailing found => ∃ i, FirstFault o ts i found ∧ ∃ f, parse o (ts.take i) = .ok f

theorem parse_of_advance (h : start.advance o ts = .ok q) : parse o ts = q.finish := by
  have hrun := run_append o start ts []
  rw [List.append_nil, h, ok_bind, ← parse_eq_run] at hrun
  exact hrun

theorem viable_of_advance (h : start.advance o ts = .ok q) : Viable o ts := by
  obtain ⟨more, f, hrun⟩ := q.completable o
  exact ⟨more, f, by rw [parse_eq_run, run_append, h, ok_bind, hrun]⟩

theorem viable_of_admits {kind : Token.Kind} (h : start.advance o ts = .ok q)
    (hq : q.Admits o kind) : ∃ t, t.kind = kind ∧ Viable o (ts ++ [t]) := by
  obtain ⟨t, q', ht, hstep⟩ := hq
  obtain ⟨more, f, hrun⟩ := q'.completable o
  refine ⟨t, ht, more, f, ?_⟩
  rw [parse_eq_run, List.append_assoc, run_append, h, ok_bind, List.singleton_append,
    run_cons hstep, hrun]

theorem firstFault_of_step (h : start.advance o pre = .ok q) (hstep : step o t q = .error error)
    (post : List Token) : FirstFault o (pre ++ t :: post) pre.length t where
  getElem? := by simp
  viable := by simpa using viable_of_advance h
  not_viable := by
    rintro ⟨more, f, hparse⟩
    have htake : (pre ++ t :: post).take (pre.length + 1) = pre ++ [t] := by
      rw [List.take_length_add_append]
      rfl
    rw [htake, parse_eq_run, List.append_assoc, run_append, h, ok_bind, List.singleton_append, run,
      hstep] at hparse
    cases hparse

theorem parse_append_of_token? (h : parse o ts = .error error) (htoken : error.token?.isSome = true)
    (us : List Token) : parse o (ts ++ us) = .error error := by
  rw [parse_eq_run] at h ⊢
  rcases exists_of_run_error h with ⟨q, -, hfinish⟩ | ⟨pre, t, post, q, rfl, hq, hstep⟩
  · rw [token?_of_finish hfinish] at htoken
    cases htoken
  · rw [List.append_assoc, run_append, hq, ok_bind, List.cons_append, run, hstep, error_bind]

theorem mem_of_token? (h : parse o ts = .error error) (htoken : error.token? = some t) :
    t ∈ ts := by
  rw [parse_eq_run] at h
  rcases exists_of_run_error h with ⟨q, -, hfinish⟩ | ⟨pre, u, post, q, rfl, -, hstep⟩
  · rw [token?_of_finish hfinish] at htoken
    cases htoken
  · rw [(fault_of_step hstep).token?_eq] at htoken
    cases htoken
    simp

theorem exists_advance_of_parse (h : parse o ts = .error error) (htoken : error.token? = none) :
    ∃ q, start.advance o ts = .ok q := by
  rw [parse_eq_run] at h
  rcases exists_of_run_error h with ⟨q, hq, -⟩ | ⟨pre, t, post, q, -, -, hstep⟩
  · exact ⟨q, hq⟩
  · rw [(fault_of_step hstep).token?_eq] at htoken
    cases htoken

/-- Every error blames the first token that cannot be part of a definition, and names a kind that
could have come there. -/
theorem explains_of_parse_eq_error (o : Options) (ts : List Token) (error : GrammarError)
    (h : parse o ts = .error error) : Explains o ts error := by
  have hrun : start.run o ts = .error error := by rw [← parse_eq_run, h]
  rcases exists_of_run_error hrun with ⟨q, hq, hfinish⟩ | ⟨pre, t, post, q, rfl, hq, hstep⟩
  · obtain ⟨kind, herror, hkind⟩ := admits_of_finish o hfinish
    have hunfinished : Unfinished o ts kind :=
      ⟨viable_of_advance hq, by simp [h], viable_of_admits hq hkind⟩
    rcases herror with rfl | ⟨n, rfl⟩
    · exact hunfinished
    · exact hunfinished
  · have hfault := firstFault_of_step hq hstep post
    cases fault_of_step hstep with
    | unexpected hkind =>
      exact ⟨pre.length, hfault, by simpa using viable_of_admits hq hkind⟩
    | integerTooLarge => exact ⟨pre.length, hfault⟩
    | unknownOperator => exact ⟨pre.length, hfault⟩
    | @trailing f hfinish =>
      refine ⟨pre.length, hfault, f, ?_⟩
      have happend := run_append o start pre []
      rw [List.append_nil, hq, ok_bind, run, hfinish] at happend
      rw [List.take_left, parse_eq_run, happend]

/-- The tokens of `def f() g(x y`. -/
def unclosedCall : List Token :=
  [⟨.keyword, "def", 0⟩, ⟨.identifier, "f", 4⟩, ⟨.openParen, "(", 5⟩, ⟨.closeParen, ")", 6⟩,
    ⟨.identifier, "g", 8⟩, ⟨.openParen, "(", 9⟩, ⟨.identifier, "x", 10⟩, ⟨.identifier, "y", 12⟩]

theorem explains_unclosedCall :
    parse ⟨.worded, true⟩ unclosedCall =
        .error (.unexpected .closeParen ⟨.identifier, "y", 12⟩) ∧
      Explains ⟨.worded, true⟩ unclosedCall (.unexpected .closeParen ⟨.identifier, "y", 12⟩) := by
  have h : parse ⟨.worded, true⟩ unclosedCall =
      .error (.unexpected .closeParen ⟨.identifier, "y", 12⟩) := by
    rw [parse_eq_run]
    rfl
  exact ⟨h, explains_of_parse_eq_error _ _ _ h⟩

/-- The tokens of `def f() g(x) end`. -/
def closedCall : List Token :=
  unclosedCall.take 7 ++ [⟨.closeParen, ")", 11⟩, ⟨.closer, "end", 13⟩]

end Definition

end DefLang
