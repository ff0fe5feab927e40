import DefLang.Proofs.Descent

/-!
# What a reader takes off the front

A reader that succeeds has taken a part off the front of the tokens, which is never empty
(`Descent.Advances`). The part that spells an expression or a list in parentheses is enclosed
(`Enclosed`): its parentheses are balanced, and no token in it delimits a definition or ends a line.
This goes up the grammar, since enclosed parts in a row, with commas between them or in parentheses,
are enclosed again. So the closer of a definition is the first closer of the tokens.
-/

namespace DefLang

open Token (expect)

/-- As many parentheses are closed as are opened, and none before it is opened. -/
structure Balanced (ts : List Token) : Prop where
  count_eq : ts.countP (·.kind = .openParen) = ts.countP (·.kind = .closeParen)
  count_le : ∀ front, front <+: ts →
    front.countP (·.kind = .closeParen) ≤ front.countP (·.kind = .openParen)

/-- The tokens can stand inside a body: parentheses are balanced, and no token delimits a definition
or ends a line. -/
structure Enclosed (ts : List Token) : Prop extends Balanced ts where
  kind_ne : ∀ t ∈ ts,
    t.kind ≠ .keyword ∧ t.kind ≠ .opener ∧ t.kind ≠ .closer ∧ t.kind ≠ .lineBreak

namespace Balanced

variable {ts us : List Token}

theorem count_take_le (h : Balanced ts) (n : Nat) :
    (ts.take n).countP (·.kind = .closeParen) ≤ (ts.take n).countP (·.kind = .openParen) :=
  h.count_le _ (List.take_prefix n ts)

theorem of_take (heq : ts.countP (·.kind = .openParen) = ts.countP (·.kind = .closeParen))
    (hle : ∀ n, (ts.take n).countP (·.kind = .closeParen) ≤
      (ts.take n).countP (·.kind = .openParen)) : Balanced ts := by
  refine ⟨heq, fun front hfront => ?_⟩
  rw [List.prefix_iff_eq_take.1 hfront]
  exact hle front.length

theorem of_kind_ne (h : ∀ t ∈ ts, t.kind ≠ .openParen ∧ t.kind ≠ .closeParen) : Balanced ts := by
  have hcount : ∀ us : List Token, us ⊆ ts → us.countP (·.kind = .openParen) = 0 ∧
      us.countP (·.kind = .closeParen) = 0 := by
    intro us hus
    simp only [List.countP_eq_zero, decide_eq_true_eq]
    exact ⟨fun t ht => (h t (hus ht)).1, fun t ht => (h t (hus ht)).2⟩
  obtain ⟨hopenings, hclosings⟩ := hcount ts (List.Subset.refl ts)
  refine ⟨hopenings.trans hclosings.symm, fun front hfront => ?_⟩
  rw [(hcount front hfront.subset).2]
  exact Nat.zero_le _

theorem append (h : Balanced ts) (h' : Balanced us) : Balanced (ts ++ us) := by
  apply of_take
  · rw [List.countP_append, List.countP_append, h.count_eq, h'.count_eq]
  · intro n
    rw [List.take_append, List.countP_append, List.countP_append]
    exact Nat.add_le_add (h.count_take_le n) (h'.count_take_le (n - ts.length))

theorem parenthesized (h : Balanced ts) {opening closing : Token}
    (hopening : opening.kind = .openParen) (hclosing : closing.kind = .closeParen) :
    Balanced (opening :: (ts ++ [closing])) := by
  apply of_take
  · simp [List.countP_append, h.count_eq, hopening, hclosing]
  · intro n
    cases n with
    | zero => simp
    | succ n =>
      have hle := h.count_take_le n
      have hlast : ([closing].take (n - ts.length)).countP (·.kind = .closeParen) ≤ 1 :=
        Nat.le_trans List.countP_le_length (List.length_take_le' _ _)
      simp only [List.take_succ_cons, List.take_append, List.countP_cons, List.countP_append,
        hopening, decide_true, if_true, reduceCtorEq, decide_false, Bool.false_eq_true, if_false]
      omega

end Balanced

namespace Enclosed

variable {t : Token} {ts us : List Token}

theorem nil : Enclosed [] :=
  ⟨.of_kind_ne (by simp), by simp⟩

theorem singleton (h : t.kind ∈ [.identifier, .integer, .operator, .comma]) : Enclosed [t] := by
  have hkinds : ∀ kind ∈ [Token.Kind.identifier, .integer, .operator, .comma],
      (kind ≠ .openParen ∧ kind ≠ .closeParen) ∧
        kind ≠ .keyword ∧ kind ≠ .opener ∧ kind ≠ .closer ∧ kind ≠ .lineBreak := by
    decide
  have hkind := hkinds t.kind h
  exact ⟨.of_kind_ne (List.forall_mem_singleton.2 hkind.1), List.forall_mem_singleton.2 hkind.2⟩

theorem append (h : Enclosed ts) (h' : Enclosed us) : Enclosed (ts ++ us) :=
  ⟨h.toBalanced.append h'.toBalanced, List.forall_mem_append.2 ⟨h.kind_ne, h'.kind_ne⟩⟩

theorem parenthesized (h : Enclosed ts) {opening closing : Token}
    (hopening : opening.kind = .openParen) (hclosing : closing.kind = .closeParen) :
    Enclosed (opening :: (ts ++ [closing])) := by
  refine ⟨h.toBalanced.parenthesized hopening hclosing, ?_⟩
  simp only [List.forall_mem_cons, List.forall_mem_append, hopening, hclosing]
  exact ⟨by decide, h.kind_ne, by decide, by simp⟩

end Enclosed

theorem CommaLed.enclosed {pieces : List (List Token)} {ts : List Token} (h : CommaLed pieces ts)
    (hpieces : ∀ piece ∈ pieces, Enclosed piece) : Enclosed ts := by
  induction h with
  | nil => exact .nil
  | @cons comma piece tail pieces hcomma _ ih =>
    obtain ⟨hpiece, hpieces⟩ := List.forall_mem_cons.1 hpieces
    have hlead : Enclosed [comma] := .singleton (by simp [hcomma])
    exact hlead.append (hpiece.append (ih hpieces))

theorem CommaSeparated.enclosed {pieces : List (List Token)} {ts : List Token}
    (h : CommaSeparated pieces ts) (hpieces : ∀ piece ∈ pieces, Enclosed piece) : Enclosed ts := by
  cases h with
  | nil => exact .nil
  | cons htail =>
    obtain ⟨hpiece, hpieces⟩ := List.forall_mem_cons.1 hpieces
    exact hpiece.append (htail.enclosed hpieces)

theorem Expr.Derives.enclosed {ts : List Token} {e : Expr} (h : Derives ts e) : Enclosed ts := by
  induction h with
  | literal ht _ => exact .singleton (by simp [ht])
  | operator ht _ => exact .singleton (by simp [ht])
  | ref ht => exact .singleton (by simp [ht])
  | @call callee _ _ _ _ hcallee hopening hinner _ hclosing ih =>
    have hname : Enclosed [callee] := .singleton (by simp [hcallee])
    have hargs := hinner.enclosed (List.forall_mem_map.2 ih)
    exact hname.append (hargs.parenthesized hopening hclosing)

theorem Expr.Derives.exists_args {ts : List Token} {callee : String} {es : List Expr}
    (h : Derives ts (.call callee es)) :
    ∃ name front, ts = name :: front ∧ front ≠ [] ∧ Enclosed front := by
  cases h with
  | @call name opening closing inner args _ hopening hinner hargs hclosing =>
    have hall := List.forall_mem_map.2 fun a ha => (hargs a ha).enclosed
    exact ⟨name, opening :: (inner ++ [closing]), rfl, by simp,
      (hinner.enclosed hall).parenthesized hopening hclosing⟩

theorem Expr.exists_front_of_read {ts rest : List Token} {e : Expr}
    (h : read ts = .ok (e, rest)) : ∃ front, ts = front ++ rest ∧ front ≠ [] ∧ Enclosed front := by
  obtain ⟨front, hts, he⟩ := derives_of_read h
  obtain ⟨t, us, hfront, -⟩ := he.exists_cons
  exact ⟨front, hts, by simp [hfront], he.enclosed⟩

/-- The closer of a definition is its last token and its only closer. -/
theorem Definition.Derives.exists_closer {d : Dialect} {ts : List Token} {f : Definition}
    (h : Derives d ts f) :
    ∃ inner closer, ts = inner ++ [closer] ∧ closer.kind = .closer ∧
      ∀ t ∈ inner, t.kind ≠ .closer := by
  obtain ⟨header, opener, body, closer, rfl, hheader, hopener, -, hbody, hcloser⟩ :=
    derives_iff_header.1 h
  have hmarker : .closer ∉ d.openerKinds := by cases d <;> decide
  refine ⟨header ++ (opener ++ (body.map Prod.fst).flatten), closer, by simp, hcloser, ?_⟩
  simp only [List.forall_mem_append]
  refine ⟨fun t ht => (hheader.kind_ne t ht).2, fun t ht hkind => ?_, fun t ht => ?_⟩
  · exact hmarker (hopener ▸ List.mem_map.2 ⟨t, ht, hkind⟩)
  · obtain ⟨piece, hpiece, ht⟩ := List.mem_flatten.1 ht
    obtain ⟨e, he, rfl⟩ := List.mem_map.1 hpiece
    exact ((hbody e he).enclosed.kind_ne t ht).2.2.1

/-- The computation ends. If it succeeds, it has taken a part off the front of `ts` that is not
empty and has the property `P`, and has left the rest. -/
structure Descent.Advances {α : Type} (x : Descent (α × List Token)) (ts : List Token)
    (P : List Token → Prop) : Prop where
  ends : Ends x
  front : ∀ a rest, x = pure (a, rest) → ∃ front, ts = front ++ rest ∧ front ≠ [] ∧ P front

namespace Readers

open Descent

section Exact

variable {r : Readers} {n : Nat} {ts : List Token}

theorem Exact.expr_advances (h : r.Exact n) (hts : ts.length < n) :
    Advances (r.expr ts) ts Enclosed := by
  refine ⟨h.expr_ends hts, fun e rest hexpr => ?_⟩
  rw [h.expr ts hts] at hexpr
  exact Expr.exists_front_of_read (lift_eq_pure_iff.1 hexpr)

theorem Exact.call_advances (h : r.Exact n) (hts : ts.length < n) :
    Advances (r.call ts) ts Enclosed := by
  refine ⟨h.call_ends hts, fun e rest hcall => ?_⟩
  exact Expr.exists_front_of_read ((h.call_eq_pure_iff hts).1 hcall).1

theorem Exact.args_advances (h : r.Exact n) (hts : ts.length < n) :
    Advances (r.args ts) ts Enclosed := by
  refine ⟨h.args_ends hts, fun es rest hargs => ?_⟩
  -- Any name makes a call of the arguments, and what is read behind it is theirs.
  have hname : (⟨.identifier, "", 0⟩ : Token).kind = .identifier := rfl
  obtain ⟨tokens, heq, he⟩ := Expr.derives_of_read ((h.args_eq_pure_iff hname hts).1 hargs)
  obtain ⟨name, front, rfl, hne, hfront⟩ := he.exists_args
  exact ⟨front, (List.cons.inj heq).2, hne, hfront⟩

theorem Exact.params_advances (h : r.Exact n) (hts : ts.length < n) :
    Advances (r.params ts) ts Enclosed := by
  refine ⟨⟨_, h.params_eq_read hts⟩, fun names rest hparams => ?_⟩
  rw [h.params_eq_read hts, lift_eq_pure_iff, bind_eq_ok_iff] at hparams
  obtain ⟨⟨opening, us⟩, hexpect, hread⟩ := hparams
  obtain ⟨rfl, hopening⟩ := Token.expect_eq_ok_iff.1 hexpect
  obtain ⟨params, inner, closing, rfl, -, hidents, hinner, hclosing⟩ :=
    Definition.commaSeparated_of_readParams hread
  have hall : ∀ piece ∈ params.map fun p => [p], Enclosed piece :=
    List.forall_mem_map.2 fun p hp => .singleton (by simp [hidents p hp])
  exact ⟨opening :: (inner ++ [closing]), by simp, by simp,
    (hinner.enclosed hall).parenthesized hopening hclosing⟩

theorem Exact.definition_advances (h : r.Exact n) (d : Dialect) (hts : ts.length < n) :
    Advances (r.definition d ts) ts fun front => ∃ inner closer, front = inner ++ [closer] ∧
      closer.kind = .closer ∧ ∀ t ∈ inner, t.kind ≠ .closer := by
  refine ⟨⟨_, h.definition_eq_read d hts⟩, fun f rest hdefinition => ?_⟩
  rw [h.definition_eq_read d hts, lift_eq_pure_iff] at hdefinition
  obtain ⟨front, heq, hderives⟩ := Definition.read_eq_ok_iff.1 hdefinition
  obtain ⟨inner, closer, rfl, hcloser, hinner⟩ := hderives.exists_closer
  exact ⟨_, heq, by simp, inner, closer, rfl, hcloser, hinner⟩

end Exact

/-- With one call for each token and two more, all readers end on every list of tokens, and take a
part off the front if they succeed. In an expression, a call, arguments or parameters this part is
enclosed, and a definition ends with the first closer. The loops end too. What the readers find is
what reading finds. -/
theorem readers_advance (d : Dialect) (ts : List Token) (n : Nat) (hn : ts.length + 1 < n) :
    (Advances ((within n).expr ts) ts Enclosed ∧ Advances ((within n).call ts) ts Enclosed ∧
      Advances ((within n).args ts) ts Enclosed ∧ Advances ((within n).params ts) ts Enclosed ∧
      Advances ((within n).definition d ts) ts fun front => ∃ inner closer,
        front = inner ++ [closer] ∧ closer.kind = .closer ∧ ∀ t ∈ inner, t.kind ≠ .closer) ∧
    (Ends ((within n).moreArgs ts) ∧ Ends ((within n).moreParams ts) ∧
      Ends ((within n).body ts)) ∧
    (within n).expr ts = liftM (Expr.read ts) ∧
    (∀ e rest, (within n).call ts = pure (e, rest) ↔
      Expr.read ts = .ok (e, rest) ∧ ∃ callee es, e = .call callee es) ∧
    (∀ name es rest, name.kind = .identifier → ((within n).args ts = pure (es, rest) ↔
      Expr.read (name :: ts) = .ok (.call name.lexeme es, rest))) ∧
    (within n).params ts = liftM (expect .openParen ts >>= fun a => Definition.readParams a.2) ∧
    (within n).definition d ts = liftM (Definition.read d ts) := by
  have h := exact_within n
  have hts : ts.length < n := Nat.lt_of_succ_lt hn
  refine ⟨⟨h.expr_advances hts, h.call_advances hts, h.args_advances hts, h.params_advances hts,
    h.definition_advances d hts⟩, ⟨h.moreArgs_ends hts, h.moreParams_ends hts, h.body_ends hn⟩,
    h.expr ts hts, ?_, ?_, h.params_eq_read hts, h.definition_eq_read d hts⟩
  · intro e rest
    exact h.call_eq_pure_iff hts
  · intro name es rest hname
    exact h.args_eq_pure_iff hname hts

/-- The tokens of `(h(1), x)`, from byte 9 on. -/
def nestedArgs : List Token :=
  [⟨.openParen, "(", 9⟩, ⟨.identifier, "h", 10⟩, ⟨.openParen, "(", 11⟩, ⟨.integer, "1", 12⟩,
    ⟨.closeParen, ")", 13⟩, ⟨.comma, ",", 14⟩, ⟨.identifier, "x", 16⟩, ⟨.closeParen, ")", 17⟩]

/-- The tokens of `def f() g(h(1), x) end`. -/
def nestedBody : List Token :=
  [⟨.keyword, "def", 0⟩, ⟨.identifier, "f", 4⟩, ⟨.openParen, "(", 5⟩, ⟨.closeParen, ")", 6⟩,
    ⟨.identifier, "g", 8⟩] ++ nestedArgs ++ [⟨.closer, "end", 19⟩]

theorem readers_advance_nested :
    (within 11).args (nestedArgs ++ [⟨.closer, "end", 19⟩]) =
      pure ([.call "h" [.literal 1], .ref "x"], [⟨.closer, "end", 19⟩]) ∧
    (∃ front, nestedArgs ++ [⟨.closer, "end", 19⟩] = front ++ [⟨.closer, "end", 19⟩] ∧
      front ≠ [] ∧ Enclosed front) ∧
    (within 17).definition .worded (nestedBody ++ [⟨.closer, "end", 23⟩]) =
      pure (⟨"f", [], [.call "g" [.call "h" [.literal 1], .ref "x"]]⟩,
        [⟨.closer, "end", 23⟩]) ∧
    ∃ front, nestedBody ++ [⟨.closer, "end", 23⟩] = front ++ [⟨.closer, "end", 23⟩] ∧ front ≠ [] ∧
      ∃ inner closer, front = inner ++ [closer] ∧ closer.kind = .closer ∧
        ∀ t ∈ inner, t.kind ≠ .closer := by
  have hargs : (within 11).args (nestedArgs ++ [⟨.closer, "end", 19⟩]) =
      pure ([.call "h" [.literal 1], .ref "x"], [⟨.closer, "end", 19⟩]) :=
    rfl
  have hdefinition : (within 17).definition .worded (nestedBody ++ [⟨.closer, "end", 23⟩]) =
      pure (⟨"f", [], [.call "g" [.call "h" [.literal 1], .ref "x"]]⟩,
        [⟨.closer, "end", 23⟩]) :=
    rfl
  exact ⟨hargs, (readers_advance .worded _ 11 (by decide)).1.2.2.1.front _ _ hargs, hdefinition,
    (readers_advance .worded _ 17 (by decide)).1.2.2.2.2.front _ _ hdefinition⟩

end Readers

end DefLang
