import DefLang.Compile

/-!
# The grammar of definitions

`Expr.Derives ts e` and `Definition.Derives d ts f` say that the tokens `ts` spell an expression or,
in the dialect `d`, a definition. They follow the grammar and know nothing of how tokens are looked
at or in which order alternatives are tried. Lists of parameters and of arguments are pieces
separated by single commas. The part of a definition in front of its body and of the marker before
it is its header (`Definition.Header`).

Reading is exact for this grammar. A derivation is read back whatever stands behind it, except that
an expression must not be followed by an opening parenthesis or by nothing at all, which is never so
inside a definition. Conversely, what a stack of open calls still demands of the tokens is written
down as `Expr.ClosedBy`, and every expression that is read has a derivation in front of that.
-/

namespace DefLang

/-- Pieces with a comma in front of each. -/
inductive CommaLed : List (List Token) → List Token → Prop
  | nil : CommaLed [] []
  | cons {comma : Token} {piece tail : List Token} {pieces : List (List Token)}
      (hcomma : comma.kind = .comma) (htail : CommaLed pieces tail) :
      CommaLed (piece :: pieces) (comma :: (piece ++ tail))

/-- Pieces with a comma between any two that are next to each other. -/
inductive CommaSeparated : List (List Token) → List Token → Prop
  | nil : CommaSeparated [] []
  | cons {piece tail : List Token} {pieces : List (List Token)} (htail : CommaLed pieces tail) :
      CommaSeparated (piece :: pieces) (piece ++ tail)

theorem CommaLed.mem {pieces : List (List Token)} {ts : List Token} (h : CommaLed pieces ts) :
    ∀ piece ∈ pieces, ∀ t ∈ piece, t ∈ ts := by
  induction h with
  | nil => simp
  | cons _ _ ih =>
    intro piece' hpiece' t ht
    rcases List.mem_cons.1 hpiece' with rfl | hpiece'
    · exact List.mem_cons_of_mem _ (List.mem_append_left _ ht)
    · exact List.mem_cons_of_mem _ (List.mem_append_right _ (ih piece' hpiece' t ht))

theorem CommaSeparated.mem {pieces : List (List Token)} {ts : List Token}
    (h : CommaSeparated pieces ts) : ∀ piece ∈ pieces, ∀ t ∈ piece, t ∈ ts := by
  cases h with
  | nil => simp
  | cons htail =>
    intro piece' hpiece' t ht
    rcases List.mem_cons.1 hpiece' with rfl | hpiece'
    · exact List.mem_append_left _ ht
    · exact List.mem_append_right _ (htail.mem piece' hpiece' t ht)

theorem CommaLed.comma_or_mem {pieces : List (List Token)} {ts : List Token}
    (h : CommaLed pieces ts) : ∀ t ∈ ts, t.kind = .comma ∨ ∃ piece ∈ pieces, t ∈ piece := by
  induction h with
  | nil => simp
  | @cons comma piece tail pieces hcomma _ ih =>
    intro t ht
    rcases List.mem_cons.1 ht with rfl | ht
    · exact .inl hcomma
    · rcases List.mem_append.1 ht with ht | ht
      · exact .inr ⟨piece, List.mem_cons_self, ht⟩
      · refine (ih t ht).imp_right fun ⟨piece', hpiece', ht'⟩ => ?_
        exact ⟨piece', List.mem_cons_of_mem piece hpiece', ht'⟩

theorem CommaSeparated.comma_or_mem {pieces : List (List Token)} {ts : List Token}
    (h : CommaSeparated pieces ts) :
    ∀ t ∈ ts, t.kind = .comma ∨ ∃ piece ∈ pieces, t ∈ piece := by
  cases h with
  | nil => simp
  | @cons piece tail pieces htail =>
    intro t ht
    rcases List.mem_append.1 ht with ht | ht
    · exact .inr ⟨piece, List.mem_cons_self, ht⟩
    · refine (htail.comma_or_mem t ht).imp_right fun ⟨piece', hpiece', ht'⟩ => ?_
      exact ⟨piece', List.mem_cons_of_mem piece hpiece', ht'⟩

/-- The tokens spell the expression. A call comes with its arguments, each beside its tokens. -/
inductive Expr.Derives : List Token → Expr → Prop
  | literal {t : Token} {value : Int64} (ht : t.kind = .integer)
      (hvalue : Decimal.read? t.lexeme = some value) : Derives [t] (.literal value)
  | operator {t : Token} {op : Operator} (ht : t.kind = .operator) (hop : t.lexeme = op.symbol) :
      Derives [t] (.operator op)
  | ref {t : Token} (ht : t.kind = .identifier) : Derives [t] (.ref t.lexeme)
  | call {callee opening closing : Token} {inner : List Token} {args : List (List Token × Expr)}
      (hcallee : callee.kind = .identifier) (hopening : opening.kind = .openParen)
      (hinner : CommaSeparated (args.map Prod.fst) inner) (hargs : ∀ a ∈ args, Derives a.1 a.2)
      (hclosing : closing.kind = .closeParen) :
      Derives (callee :: opening :: (inner ++ [closing]))
        (.call callee.lexeme (args.map Prod.snd))

/-- The tokens are the header of a definition with this name and these parameters: a keyword, a
name, and identifiers separated by commas, in parentheses. -/
inductive Definition.Header : List Token → String → List String → Prop
  | intro {keyword name opening closing : Token} {params inner : List Token}
      (hkeyword : keyword.kind = .keyword) (hname : name.kind = .identifier)
      (hopening : opening.kind = .openParen) (hparams : ∀ p ∈ params, p.kind = .identifier)
      (hinner : CommaSeparated (params.map fun p => [p]) inner)
      (hclosing : closing.kind = .closeParen) :
      Header (keyword :: name :: opening :: (inner ++ [closing])) name.lexeme
        (params.map Token.lexeme)

theorem Definition.Header.kind_ne {ts : List Token} {name : String} {params : List String}
    (h : Header ts name params) : ∀ t ∈ ts, t.kind ≠ .opener ∧ t.kind ≠ .closer := by
  cases h with
  | @intro keyword name opening closing params inner hkeyword hname hopening hparams hinner
      hclosing =>
    have hkinds : ∀ p ∈ inner, p.kind ≠ .opener ∧ p.kind ≠ .closer := by
      intro p hp
      rcases hinner.comma_or_mem p hp with hcomma | ⟨piece, hpiece, hmem⟩
      · simp [hcomma]
      · obtain ⟨param, hparam, rfl⟩ := List.mem_map.1 hpiece
        simp [List.mem_singleton.1 hmem, hparams param hparam]
    simp only [List.forall_mem_cons, List.forall_mem_append, hkeyword, hname, hopening, hclosing]
    exact ⟨by decide, by decide, by decide, hkinds, by decide, by simp⟩

/-- The kinds between the parameters and the body. -/
def Dialect.openerKinds : Dialect → List Token.Kind
  | .worded => []
  | .braced => [.opener]

/-- The tokens spell the definition in a dialect. -/
inductive Definition.Derives (d : Dialect) : List Token → Definition → Prop
  | intro {keyword name opening closing closer : Token} {params inner opener : List Token}
      {body : List (List Token × Expr)}
      (hkeyword : keyword.kind = .keyword) (hname : name.kind = .identifier)
      (hopening : opening.kind = .openParen)
      (hparams : ∀ p ∈ params, p.kind = .identifier)
      (hinner : CommaSeparated (params.map fun p => [p]) inner)
      (hclosing : closing.kind = .closeParen)
      (hopener : opener.map Token.kind = d.openerKinds)
      (hbody : ∀ e ∈ body, Expr.Derives e.1 e.2) (hcloser : closer.kind = .closer) :
      Derives d
        (keyword :: name :: opening ::
          (inner ++ closing :: (opener ++ ((body.map Prod.fst).flatten ++ [closer]))))
        ⟨name.lexeme, params.map Token.lexeme, body.map Prod.snd⟩

namespace Expr

theorem Derives.exists_cons {ts : List Token} {e : Expr} (h : Derives ts e) :
    ∃ t us, ts = t :: us ∧ t.kind ≠ .openParen ∧ t.kind ≠ .closeParen ∧ t.kind ≠ .closer := by
  cases h with
  | literal ht _ => exact ⟨_, _, rfl, by simp [ht]⟩
  | operator ht _ => exact ⟨_, _, rfl, by simp [ht]⟩
  | ref ht => exact ⟨_, _, rfl, by simp [ht]⟩
  | call hcallee _ _ _ _ => exact ⟨_, _, rfl, by simp [hcallee]⟩

/-- The expression is read off the front of the tokens, whatever calls are open and whatever stands
behind it, unless that makes a call of a name. -/
def ReadsBack (ts : List Token) (e : Expr) : Prop :=
  ∀ (outer : List OpenCall) (u : Token) (rest : List Token), u.kind ≠ .openParen →
    readIn outer (ts ++ u :: rest) = resume e outer (u :: rest)

theorem ReadsBack.before_commaLed {ts : List Token} {e : Expr} (h : ReadsBack ts e)
    {pieces : List (List Token)} {tail : List Token} (htail : CommaLed pieces tail)
    {closing : Token} (hclosing : closing.kind = .closeParen) (outer : List OpenCall)
    (rest : List Token) :
    readIn outer (ts ++ (tail ++ closing :: rest)) = resume e outer (tail ++ closing :: rest) := by
  cases htail with
  | nil => exact h outer closing rest (by simp [hclosing])
  | @cons comma piece tail _ hcomma _ =>
    rw [List.cons_append]
    exact h outer comma _ (by simp [hcomma])

theorem resume_commaLed {args : List (List Token × Expr)} {tail : List Token}
    (htail : CommaLed (args.map Prod.fst) tail) (hargs : ∀ a ∈ args, ReadsBack a.1 a.2)
    {closing : Token} (hclosing : closing.kind = .closeParen) (e : Expr) (inner : OpenCall)
    (outer : List OpenCall) (rest : List Token) :
    resume e (inner :: outer) (tail ++ closing :: rest) =
      resume (.call inner.callee (inner.args.reverse ++ e :: args.map Prod.snd)) outer rest := by
  induction args generalizing tail e inner with
  | nil =>
    cases htail
    simp [resume, hclosing]
  | cons a args ih =>
    cases htail with
    | @cons comma _ tail _ hcomma htail =>
      have hread := (hargs a List.mem_cons_self).before_commaLed htail hclosing
        (⟨inner.callee, e :: inner.args⟩ :: outer) rest
      have hnext := ih htail (fun b hb => hargs b (List.mem_cons_of_mem a hb)) a.2
        ⟨inner.callee, e :: inner.args⟩
      simp only [List.cons_append, List.append_assoc, resume, if_pos hcomma]
      rw [hread, hnext]
      simp

theorem readIn_commaSeparated {callee opening closing : Token} {inner : List Token}
    {args : List (List Token × Expr)} (hcallee : callee.kind = .identifier)
    (hopening : opening.kind = .openParen) (hinner : CommaSeparated (args.map Prod.fst) inner)
    (hargs : ∀ a ∈ args, Derives a.1 a.2) (hread : ∀ a ∈ args, ReadsBack a.1 a.2)
    (hclosing : closing.kind = .closeParen) (outer : List OpenCall) (rest : List Token) :
    readIn outer (callee :: opening :: (inner ++ closing :: rest)) =
      resume (.call callee.lexeme (args.map Prod.snd)) outer rest := by
  cases args with
  | nil =>
    cases hinner
    exact readIn_call_nil hcallee hopening hclosing
  | cons a args =>
    cases hinner with
    | @cons _ tail _ htail =>
      obtain ⟨v, vs, hv, -, hclose, -⟩ := (hargs a List.mem_cons_self).exists_cons
      have hfirst := (hread a List.mem_cons_self).before_commaLed htail hclosing
        (⟨callee.lexeme, []⟩ :: outer) rest
      have hmore := resume_commaLed htail (fun b hb => hread b (List.mem_cons_of_mem a hb))
        hclosing a.2 ⟨callee.lexeme, []⟩ outer rest
      rw [hmore, hv] at hfirst
      simp only [List.append_assoc, hv, List.cons_append]
      rw [readIn_call_cons hcallee hopening hclose]
      simpa using hfirst

theorem Derives.readsBack {ts : List Token} {e : Expr} (h : Derives ts e) : ReadsBack ts e := by
  induction h with
  | literal ht hvalue =>
    intro outer u rest _
    rw [List.singleton_append, readIn_integer ht, hvalue]
  | operator ht hop =>
    intro outer u rest _
    rw [List.singleton_append, readIn_operator ht, Operator.ofSymbol?_eq_some_iff.2 hop]
  | ref ht =>
    intro outer u rest hu
    rw [List.singleton_append, readIn_ref ht hu]
  | call hcallee hopening hinner hargs hclosing ih =>
    intro outer u rest _
    simpa using readIn_commaSeparated hcallee hopening hinner hargs ih hclosing outer (u :: rest)

theorem Derives.readIn_append {ts : List Token} {e : Expr} (h : Derives ts e)
    (href : ∀ name, e ≠ .ref name) (outer : List OpenCall) (rest : List Token) :
    readIn outer (ts ++ rest) = resume e outer rest := by
  cases h with
  | literal ht hvalue => rw [List.singleton_append, readIn_integer ht, hvalue]
  | operator ht hop =>
    rw [List.singleton_append, readIn_operator ht, Operator.ofSymbol?_eq_some_iff.2 hop]
  | ref => exact absurd rfl (href _)
  | call hcallee hopening hinner hargs hclosing =>
    have hread := readIn_commaSeparated hcallee hopening hinner hargs
      (fun a ha => (hargs a ha).readsBack) hclosing outer rest
    simpa using hread

/-- The tokens `ts` close the calls `outer` around `e`, innermost first: each call takes the rest of
its arguments and hands itself to the next one. The whole is `whole`, with `rest` behind it. -/
def ClosedBy : List OpenCall → Expr → List Token → Expr → List Token → Prop
  | [], e, ts, whole, rest => whole = e ∧ rest = ts
  | inner :: outer, e, ts, whole, rest =>
    ∃ (args : List (List Token × Expr)) (tail : List Token) (closing : Token) (us : List Token),
      ts = tail ++ closing :: us ∧ CommaLed (args.map Prod.fst) tail ∧
        (∀ a ∈ args, Derives a.1 a.2) ∧ closing.kind = .closeParen ∧
        ClosedBy outer (.call inner.callee (inner.args.reverse ++ e :: args.map Prod.snd)) us whole
          rest

theorem Derives.of_closedBy {callee opening : Token} (hcallee : callee.kind = .identifier)
    (hopening : opening.kind = .openParen) {pre post : List Token} {e whole : Expr}
    {outer : List OpenCall} {rest : List Token} (he : Derives pre e)
    (h : ClosedBy (⟨callee.lexeme, []⟩ :: outer) e post whole rest) :
    ∃ pre' e' post', callee :: opening :: (pre ++ post) = pre' ++ post' ∧ Derives pre' e' ∧
      ClosedBy outer e' post' whole rest := by
  obtain ⟨args, tail, closing, us, rfl, htail, hargs, hclosing, hclosed⟩ := h
  refine ⟨callee :: opening :: ((pre ++ tail) ++ [closing]), _, us, by simp, ?_, hclosed⟩
  have hall : ∀ a ∈ (pre, e) :: args, Derives a.1 a.2 := List.forall_mem_cons.2 ⟨he, hargs⟩
  have hinner : CommaSeparated (((pre, e) :: args).map Prod.fst) (pre ++ tail) := .cons htail
  exact Derives.call hcallee hopening hinner hall hclosing

/-- Every accepting run has a derivation behind it. -/
theorem derives_of_readIn :
    (∀ outer ts, ∀ whole rest, readIn outer ts = .ok (whole, rest) →
        ∃ pre e post, ts = pre ++ post ∧ Derives pre e ∧ ClosedBy outer e post whole rest) ∧
      ∀ e outer ts, ∀ whole rest, resume e outer ts = .ok (whole, rest) →
        ClosedBy outer e ts whole rest := by
  -- By induction on the run. `ClosedBy` carries the arguments that are read later, when the call
  -- they belong to is already open.
  refine readIn.mutual_induct _ _ ?nil ?integer ?integerTooLarge ?operator ?unknownOperator
    ?nameAtEnd ?openParenAtEnd ?callNil ?callCons ?ref ?unexpected ?noCall ?callAtEnd ?comma
    ?closeParen ?noArgument
  case nil =>
    intro outer whole rest h
    simp [readIn_nil] at h
  case integer =>
    intro outer t ts ht value hvalue ih whole rest h
    rw [readIn_integer ht, hvalue] at h
    exact ⟨[t], _, ts, rfl, .literal ht hvalue, ih whole rest h⟩
  case integerTooLarge =>
    intro outer t ts ht hvalue whole rest h
    simp [readIn_integer ht, hvalue] at h
  case operator =>
    intro outer t ts ht op hop ih whole rest h
    rw [readIn_operator ht, hop] at h
    exact ⟨[t], _, ts, rfl, .operator ht (Operator.ofSymbol?_eq_some_iff.1 hop), ih whole rest h⟩
  case unknownOperator =>
    intro outer t ts ht hop whole rest h
    simp [readIn_operator ht, hop] at h
  case nameAtEnd =>
    intro outer t ht whole rest h
    simp [readIn_identifier_nil ht] at h
  case openParenAtEnd =>
    intro outer t ht u hu whole rest h
    simp [readIn_openParen_nil ht hu] at h
  case callNil =>
    intro outer t ht u hu v vs hv ih whole rest h
    rw [readIn_call_nil ht hu hv] at h
    have hinner : CommaSeparated (([] : List (List Token × Expr)).map Prod.fst) [] := .nil
    exact ⟨[t, u, v], _, vs, rfl, .call ht hu hinner (by simp) hv, ih whole rest h⟩
  case callCons =>
    intro outer t ht u hu v vs hv ih whole rest h
    rw [readIn_call_cons ht hu hv] at h
    obtain ⟨pre, e, post, hpost, he, hclosed⟩ := ih whole rest h
    rw [hpost]
    exact he.of_closedBy ht hu hclosed
  case ref =>
    intro outer t ht u us hu ih whole rest h
    rw [readIn_ref ht hu] at h
    exact ⟨[t], _, u :: us, rfl, .ref ht, ih whole rest h⟩
  case unexpected =>
    intro outer t ts hi ho ht whole rest h
    simp [readIn_unexpected hi ho ht] at h
  case noCall =>
    intro e ts whole rest h
    simp only [resume, Except.ok.injEq, Prod.mk.injEq] at h
    exact ⟨h.1.symm, h.2.symm⟩
  case callAtEnd =>
    intro e inner outer whole rest h
    simp [resume] at h
  case comma =>
    intro e inner outer comma ts hcomma ih whole rest h
    rw [resume, if_pos hcomma] at h
    obtain ⟨pre, e', post, rfl, he, args, tail, closing, us, rfl, htail, hargs, hclosing,
      hclosed⟩ := ih whole rest h
    exact ⟨(pre, e') :: args, comma :: (pre ++ tail), closing, us, by simp, .cons hcomma htail,
      List.forall_mem_cons.2 ⟨he, hargs⟩, hclosing, by simpa using hclosed⟩
  case closeParen =>
    intro e inner outer t ts hcomma hclosing ih whole rest h
    rw [resume, if_neg hcomma, if_pos hclosing] at h
    exact ⟨[], [], t, ts, rfl, .nil, by simp, hclosing, by simpa using ih whole rest h⟩
  case noArgument =>
    intro e inner outer t ts hcomma hclosing whole rest h
    simp [resume, hcomma, hclosing] at h

theorem derives_of_read {ts rest : List Token} {e : Expr} (h : read ts = .ok (e, rest)) :
    ∃ pre, ts = pre ++ rest ∧ Derives pre e := by
  obtain ⟨pre, e', post, hts, he, rfl, rfl⟩ := derives_of_readIn.1 [] ts e rest h
  exact ⟨pre, hts, he⟩

theorem Derives.read_append {ts : List Token} {e : Expr} (h : Derives ts e) {u : Token}
    (hu : u.kind ≠ .openParen) (rest : List Token) :
    read (ts ++ u :: rest) = .ok (e, u :: rest) := by
  rw [read, h.readsBack [] u rest hu, resume]

end Expr

namespace Definition

open Token (expect)

theorem readMoreParams_commaLed {params : List Token} {tail : List Token}
    (hparams : ∀ p ∈ params, p.kind = .identifier)
    (htail : CommaLed (params.map fun p => [p]) tail) {closing : Token}
    (hclosing : closing.kind = .closeParen) (rest : List Token) :
    readMoreParams (tail ++ closing :: rest) = .ok (params.map Token.lexeme, rest) := by
  induction params generalizing tail with
  | nil =>
    cases htail
    rw [List.nil_append, readMoreParams.eq_def]
    simp [hclosing]
  | cons p params ih =>
    cases htail with
    | @cons comma _ tail _ hcomma htail =>
      have hp := hparams p List.mem_cons_self
      have hmore := ih (fun q hq => hparams q (List.mem_cons_of_mem p hq)) htail
      simp [readMoreParams, hcomma, hp, hmore, Except.map]

theorem readParams_commaSeparated {params inner : List Token}
    (hparams : ∀ p ∈ params, p.kind = .identifier)
    (hinner : CommaSeparated (params.map fun p => [p]) inner) {closing : Token}
    (hclosing : closing.kind = .closeParen) (rest : List Token) :
    readParams (inner ++ closing :: rest) = .ok (params.map Token.lexeme, rest) := by
  cases params with
  | nil =>
    cases hinner
    simp [readParams, hclosing]
  | cons p params =>
    cases hinner with
    | cons htail =>
      have hp := hparams p List.mem_cons_self
      have hmore := readMoreParams_commaLed (fun q hq => hparams q (List.mem_cons_of_mem p hq))
        htail hclosing rest
      simp [readParams, hp, hmore, Except.map]

theorem commaLed_of_readMoreParams {ts rest : List Token} {names : List String}
    (h : readMoreParams ts = .ok (names, rest)) :
    ∃ (params tail : List Token) (closing : Token), ts = tail ++ closing :: rest ∧
      names = params.map Token.lexeme ∧ (∀ p ∈ params, p.kind = .identifier) ∧
      CommaLed (params.map fun p => [p]) tail ∧ closing.kind = .closeParen := by
  fun_induction readMoreParams ts generalizing names with
  | case1 => simp at h
  | case2 => simp at h
  | case3 comma hcomma p ts hp ih =>
    obtain ⟨⟨names', rest'⟩, hread, heq⟩ := map_eq_ok_iff.1 h
    obtain ⟨rfl, rfl⟩ := Prod.mk.injEq .. ▸ heq
    obtain ⟨params, tail, closing, rfl, rfl, hparams, htail, hclosing⟩ := ih hread
    refine ⟨p :: params, comma :: ([p] ++ tail), closing, rfl, rfl, ?_, .cons hcomma htail,
      hclosing⟩
    exact List.forall_mem_cons.2 ⟨hp, hparams⟩
  | case4 => simp at h
  | case5 t ts hcomma hclosing =>
    simp only [Except.ok.injEq, Prod.mk.injEq] at h
    obtain ⟨rfl, rfl⟩ := h
    exact ⟨[], [], t, rfl, rfl, by simp, .nil, hclosing⟩
  | case6 => simp at h

theorem commaSeparated_of_readParams {ts rest : List Token} {names : List String}
    (h : readParams ts = .ok (names, rest)) :
    ∃ (params inner : List Token) (closing : Token), ts = inner ++ closing :: rest ∧
      names = params.map Token.lexeme ∧ (∀ p ∈ params, p.kind = .identifier) ∧
      CommaSeparated (params.map fun p => [p]) inner ∧ closing.kind = .closeParen := by
  fun_cases readParams ts with
  | case1 => simp [readParams] at h
  | case2 p ts hp =>
    rw [readParams, if_pos hp] at h
    obtain ⟨⟨names', rest'⟩, hread, heq⟩ := map_eq_ok_iff.1 h
    obtain ⟨rfl, rfl⟩ := Prod.mk.injEq .. ▸ heq
    obtain ⟨params, tail, closing, rfl, rfl, hparams, htail, hclosing⟩ :=
      commaLed_of_readMoreParams hread
    refine ⟨p :: params, [p] ++ tail, closing, rfl, rfl, ?_, .cons htail, hclosing⟩
    exact List.forall_mem_cons.2 ⟨hp, hparams⟩
  | case3 t ts hp hclosing =>
    rw [readParams, if_neg hp, if_pos hclosing] at h
    simp only [Except.ok.injEq, Prod.mk.injEq] at h
    obtain ⟨rfl, rfl⟩ := h
    exact ⟨[], [], t, rfl, rfl, by simp, .nil, hclosing⟩
  | case4 t ts hp hclosing => simp [readParams, hp, hclosing] at h

def readHeader (ts : List Token) : Except GrammarError (String × List String × List Token) := do
  let (_, ts) ← expect .keyword ts
  let (name, ts) ← expect .identifier ts
  let (_, ts) ← expect .openParen ts
  let (params, ts) ← readParams ts
  return (name.lexeme, params, ts)

theorem read_eq_header_bind (d : Dialect) (ts : List Token) :
    read d ts = readHeader ts >>= fun h => readOpener d h.2.2 >>= fun rest =>
      readBody rest >>= fun b => pure (⟨h.1, h.2.1, b.1⟩, b.2) := by
  simp only [read, readHeader, bind_assoc, pure_bind]

theorem readHeader_eq_ok_iff {ts rest : List Token} {name : String} {params : List String} :
    readHeader ts = .ok (name, params, rest) ↔
      ∃ header, ts = header ++ rest ∧ Header header name params := by
  constructor
  · intro h
    simp only [readHeader, bind_eq_ok_iff, Prod.exists, Token.expect_eq_ok_iff] at h
    obtain ⟨keyword, _, ⟨rfl, hkeyword⟩, name, _, ⟨rfl, hname⟩, opening, ts, ⟨rfl, hopening⟩,
      names, ts', hread, heq⟩ := h
    obtain ⟨params, inner, closing, rfl, rfl, hparams, hinner, hclosing⟩ :=
      commaSeparated_of_readParams hread
    cases heq
    exact ⟨_, by simp, .intro hkeyword hname hopening hparams hinner hclosing⟩
  · rintro ⟨header, rfl, h⟩
    cases h with
    | intro hkeyword hname hopening hparams hinner hclosing =>
      have hread := readParams_commaSeparated hparams hinner hclosing rest
      simp [readHeader, expect, hkeyword, hname, hopening, hread, pure, Except.pure]

theorem readOpener_eq_ok_iff {d : Dialect} {ts rest : List Token} :
    readOpener d ts = .ok rest ↔
      ∃ opener, ts = opener ++ rest ∧ opener.map Token.kind = d.openerKinds := by
  cases d with
  | worded => simp [readOpener, Dialect.opener?, Dialect.openerKinds]
  | braced =>
    simp only [readOpener, Dialect.opener?, Option.isSome_some, if_true, Dialect.openerKinds,
      map_eq_ok_iff, Prod.exists, Token.expect_eq_ok_iff]
    constructor
    · rintro ⟨t, us, ⟨rfl, ht⟩, rfl⟩
      exact ⟨[t], rfl, by simp [ht]⟩
    · rintro ⟨opener, rfl, hopener⟩
      obtain ⟨t, rfl, ht⟩ := List.map_eq_singleton_iff.1 hopener
      exact ⟨t, rest, ⟨rfl, ht⟩, rfl⟩

theorem readBody_of_read {ts rest : List Token} {e : Expr} (h : Expr.read ts = .ok (e, rest)) :
    readBody ts = (readBody rest).map fun r => (e :: r.1, r.2) := by
  cases ts with
  | nil =>
    rw [Expr.read, Expr.readIn_nil] at h
    cases h
  | cons t ts =>
    have hcloser : t.kind ≠ .closer := by
      intro hk
      rw [Expr.read, Expr.readIn_unexpected (by simp [hk]) (by simp [hk]) (by simp [hk])] at h
      cases h
    rw [readBody, if_neg hcloser]
    split
    · next error herror => rw [h] at herror; cases herror
    · next e' rest' hok =>
      rw [h] at hok
      obtain ⟨rfl, rfl⟩ := Prod.mk.injEq .. ▸ Except.ok.inj hok
      rfl

/-- Expressions in a row are read one by one. The last of them may be a name, so something must
follow that makes no call of it. -/
theorem readBody_flatten_append {body : List (List Token × Expr)}
    (hbody : ∀ e ∈ body, Expr.Derives e.1 e.2) {t : Token} (ht : t.kind ≠ .openParen)
    (ts : List Token) :
    readBody ((body.map Prod.fst).flatten ++ t :: ts) =
      (readBody (t :: ts)).map fun r => (body.map Prod.snd ++ r.1, r.2) := by
  induction body with
  | nil =>
    simp only [List.map_nil, List.flatten_nil, List.nil_append]
    cases readBody (t :: ts) with
    | error error => rfl
    | ok r => rfl
  | cons e body ih =>
    have hmore := ih fun e' he' => hbody e' (List.mem_cons_of_mem e he')
    -- A name is read as a variable only once the token behind it is known.
    have hnext : ∃ u us, (body.map Prod.fst).flatten ++ t :: ts = u :: us ∧
        u.kind ≠ .openParen := by
      cases body with
      | nil => exact ⟨t, ts, rfl, ht⟩
      | cons e' body =>
        obtain ⟨u, us, hu, hopen, -⟩ := (hbody e' (by simp)).exists_cons
        exact ⟨u, us ++ ((body.map Prod.fst).flatten ++ t :: ts), by simp [hu], hopen⟩
    obtain ⟨u, us, hu, hopen⟩ := hnext
    have hread := (hbody e List.mem_cons_self).read_append hopen us
    rw [← hu] at hread
    rw [List.map_cons, List.flatten_cons, List.append_assoc, readBody_of_read hread, hmore]
    cases readBody (t :: ts) with
    | error error => rfl
    | ok r => rfl

theorem readBody_append {body : List (List Token × Expr)}
    (hbody : ∀ e ∈ body, Expr.Derives e.1 e.2) {closer : Token} (hcloser : closer.kind = .closer)
    (rest : List Token) :
    readBody ((body.map Prod.fst).flatten ++ closer :: rest) = .ok (body.map Prod.snd, rest) := by
  rw [readBody_flatten_append hbody (by simp [hcloser]), readBody, if_pos hcloser]
  simp [Except.map]

theorem derives_of_readBody {ts rest : List Token} {es : List Expr}
    (h : readBody ts = .ok (es, rest)) :
    ∃ (body : List (List Token × Expr)) (closer : Token),
      ts = (body.map Prod.fst).flatten ++ closer :: rest ∧ es = body.map Prod.snd ∧
      (∀ e ∈ body, Expr.Derives e.1 e.2) ∧ closer.kind = .closer := by
  fun_induction readBody ts generalizing es with
  | case1 => simp at h
  | case2 closer ts hcloser =>
    simp only [Except.ok.injEq, Prod.mk.injEq] at h
    obtain ⟨rfl, rfl⟩ := h
    exact ⟨[], closer, rfl, rfl, by simp, hcloser⟩
  | case3 => simp at h
  | case4 t ts hcloser e rest' hread ih =>
    obtain ⟨⟨es', rest''⟩, hmore, heq⟩ := map_eq_ok_iff.1 h
    obtain ⟨rfl, rfl⟩ := Prod.mk.injEq .. ▸ heq
    obtain ⟨body, closer, rfl, rfl, hbody, hcloser⟩ := ih hmore
    obtain ⟨pre, hpre, he⟩ := Expr.derives_of_read hread
    refine ⟨(pre, e) :: body, closer, by simp [hpre], rfl, ?_, hcloser⟩
    exact List.forall_mem_cons.2 ⟨he, hbody⟩

theorem derives_iff_header {d : Dialect} {ts : List Token} {f : Definition} :
    Derives d ts f ↔
      ∃ (header opener : List Token) (body : List (List Token × Expr)) (closer : Token),
        ts = header ++ (opener ++ ((body.map Prod.fst).flatten ++ [closer])) ∧
        Header header f.name f.params ∧ opener.map Token.kind = d.openerKinds ∧
        f.body = body.map Prod.snd ∧ (∀ e ∈ body, Expr.Derives e.1 e.2) ∧
        closer.kind = .closer := by
  constructor
  · intro h
    cases h with
    | intro hkeyword hname hopening hparams hinner hclosing hopener hbody hcloser =>
      exact ⟨_, _, _, _, by simp, .intro hkeyword hname hopening hparams hinner hclosing, hopener,
        rfl, hbody, hcloser⟩
  · obtain ⟨name, params, es⟩ := f
    rintro ⟨header, opener, body, closer, rfl, hheader, hopener, rfl, hbody, hcloser⟩
    cases hheader with
    | intro hkeyword hname hopening hparams hinner hclosing =>
      have h := Derives.intro hkeyword hname hopening hparams hinner hclosing hopener hbody hcloser
      simpa using h

/-- Reading takes off the front exactly the tokens that spell the definition. -/
theorem read_eq_ok_iff {d : Dialect} {ts rest : List Token} {f : Definition} :
    read d ts = .ok (f, rest) ↔ ∃ pre, ts = pre ++ rest ∧ Derives d pre f := by
  constructor
  · intro h
    simp only [read_eq_header_bind, bind_eq_ok_iff, Prod.exists, readHeader_eq_ok_iff,
      readOpener_eq_ok_iff] at h
    obtain ⟨name, params, _, ⟨header, rfl, hheader⟩, _, ⟨opener, rfl, hopener⟩, es, rest', hread,
      heq⟩ := h
    obtain ⟨body, closer, rfl, rfl, hbody, hcloser⟩ := derives_of_readBody hread
    cases heq
    refine ⟨header ++ (opener ++ ((body.map Prod.fst).flatten ++ [closer])), by simp, ?_⟩
    exact derives_iff_header.2
      ⟨header, opener, body, closer, rfl, hheader, hopener, rfl, hbody, hcloser⟩
  · rintro ⟨pre, rfl, h⟩
    obtain ⟨name, params, es⟩ := f
    obtain ⟨header, opener, body, closer, rfl, hheader, hopener, rfl, hbody, hcloser⟩ :=
      derives_iff_header.1 h
    have hread := readBody_append hbody hcloser rest
    simp only [read_eq_header_bind, bind_eq_ok_iff, Prod.exists, readHeader_eq_ok_iff,
      readOpener_eq_ok_iff]
    exact ⟨name, params, _, ⟨header, List.append_assoc .., hheader⟩, _,
      ⟨opener, List.append_assoc .., hopener⟩, _, rest, by simpa using hread, rfl⟩

theorem parse_eq_ok_iff {o : Options} {ts : List Token} {f : Definition} :
    parse o ts = .ok f ↔
      ∃ rest, read o.dialect ts = .ok (f, rest) ∧ (o.strict = true → rest = []) := by
  rw [parse, bind_eq_ok_iff, Prod.exists]
  constructor
  · rintro ⟨g, rest, hread, h⟩
    cases rest with
    | nil =>
      cases h
      exact ⟨[], hread, fun _ => rfl⟩
    | cons t rest =>
      by_cases hs : o.strict = true
      · simp [hs] at h
      · have hg : g = f := by simpa [hs, pure, Except.pure] using h
        exact ⟨t :: rest, hg ▸ hread, fun hs' => absurd hs' hs⟩
  · rintro ⟨rest, hread, hrest⟩
    refine ⟨f, rest, hread, ?_⟩
    cases rest with
    | nil => rfl
    | cons t rest =>
      have hs : o.strict ≠ true := fun hs => by cases hrest hs
      simp [hs, pure, Except.pure]

theorem parse_of_strict {d : Dialect} {ts : List Token} {f : Definition} (strict : Bool)
    (h : parse ⟨d, true⟩ ts = .ok f) : parse ⟨d, strict⟩ ts = .ok f := by
  obtain ⟨rest, hread, hrest⟩ := parse_eq_ok_iff.1 h
  exact parse_eq_ok_iff.2 ⟨rest, hread, fun _ => hrest rfl⟩

theorem derives_of_parse_strict {d : Dialect} {ts : List Token} {f : Definition}
    (h : parse ⟨d, true⟩ ts = .ok f) : Derives d ts f := by
  obtain ⟨rest, hread, hrest⟩ := parse_eq_ok_iff.1 h
  obtain ⟨pre, rfl, hderives⟩ := read_eq_ok_iff.1 hread
  rwa [hrest rfl, List.append_nil]

theorem Derives.eq_of_append_eq {d : Dialect} {pre pre' post post' : List Token}
    {f f' : Definition} (h : Derives d pre f) (h' : Derives d pre' f')
    (heq : pre ++ post = pre' ++ post') : pre = pre' ∧ f = f' := by
  have hread : read d (pre ++ post) = .ok (f, post) := read_eq_ok_iff.2 ⟨pre, rfl, h⟩
  have hread' : read d (pre ++ post) = .ok (f', post') := read_eq_ok_iff.2 ⟨pre', heq, h'⟩
  obtain ⟨rfl, rfl⟩ := Prod.mk.injEq .. ▸ Except.ok.inj (hread.symm.trans hread')
  exact ⟨List.append_cancel_right heq, rfl⟩

/-- Parsing accepts exactly the grammar: leniently a list that begins with a definition, strictly a
list that is one. Nothing is ambiguous. -/
theorem parse_eq_ok_iff_derives (d : Dialect) (ts : List Token) :
    (∀ f, parse ⟨d, false⟩ ts = .ok f ↔ ∃ pre, pre <+: ts ∧ Derives d pre f) ∧
      (∀ f, parse ⟨d, true⟩ ts = .ok f ↔ Derives d ts f) ∧
      ∀ pre f pre' f', pre <+: ts → Derives d pre f → pre' <+: ts → Derives d pre' f' →
        pre = pre' ∧ f = f' := by
  refine ⟨fun f => ?_, fun f => ?_, ?_⟩
  · rw [parse_eq_ok_iff]
    constructor
    · rintro ⟨rest, hread, -⟩
      obtain ⟨pre, rfl, h⟩ := read_eq_ok_iff.1 hread
      exact ⟨pre, List.prefix_append pre rest, h⟩
    · rintro ⟨pre, ⟨rest, rfl⟩, h⟩
      exact ⟨rest, read_eq_ok_iff.2 ⟨pre, rfl, h⟩, by simp⟩
  · rw [parse_eq_ok_iff]
    constructor
    · rintro ⟨rest, hread, hrest⟩
      obtain ⟨pre, rfl, h⟩ := read_eq_ok_iff.1 hread
      simpa [hrest rfl] using h
    · intro h
      exact ⟨[], read_eq_ok_iff.2 ⟨ts, by simp, h⟩, fun _ => rfl⟩
  · rintro pre f pre' f' ⟨post, hpost⟩ h ⟨post', hpost'⟩ h'
    exact h.eq_of_append_eq h' (hpost.trans hpost'.symm)

end Definition

end DefLang
