import DefLang.Proofs.Source

/-!
# What a rendering determines

The atoms of a body are its integers, operators and names, from left to right and without the calls
that hold them together. In a rendering they stand between spaces and commas, of which no atom has
any in it, so that cutting the text at these and dropping the empty pieces gives back the spellings
of the atoms (`pieces`), and each spelling is that of one atom only (`Atom.ofSpelling`).

The name and the parameters of a definition are what stands in front of the second and the third
space. Without calls, atoms are all that there is in a body.
-/

namespace DefLang

inductive Atom where
  | integer (value : Int64)
  | operator (op : Operator)
  | name (text : String)
deriving DecidableEq

mutual

def Expr.atoms : Expr → List Atom
  | .literal value => [.integer value]
  | .ref name => [.name name]
  | .call callee args => .name callee :: Expr.atomsAll args
  | .operator op => [.operator op]

def Expr.atomsAll : List Expr → List Atom
  | [] => []
  | e :: es => e.atoms ++ Expr.atomsAll es

end

@[simp] theorem Expr.atomsAll_eq_flatMap (es : List Expr) : atomsAll es = es.flatMap atoms := by
  induction es with
  | nil => simp [atomsAll]
  | cons e es ih => simp [atomsAll, ih]

def Definition.atoms (f : Definition) : List Atom :=
  f.body.flatMap Expr.atoms

def IsLettered (name : String) : Prop :=
  name.toList ≠ [] ∧ ∀ c ∈ name.toList, c.isAlpha = true

instance (name : String) : Decidable (IsLettered name) :=
  decidable_of_iff ((!name.toList.isEmpty && name.toList.all Char.isAlpha) = true)
    (by simp [IsLettered])

def Atom.Lettered : Atom → Prop
  | name text => IsLettered text
  | integer _ | operator _ => True

instance : (a : Atom) → Decidable a.Lettered
  | .name text => inferInstanceAs (Decidable (IsLettered text))
  | .integer _ | .operator _ => isTrue trivial

/-- The names of the definition, of its parameters and in its body are made of letters. -/
structure Definition.Lettered (f : Definition) : Prop where
  name : IsLettered f.name
  params : ∀ p ∈ f.params, IsLettered p
  body : ∀ a ∈ f.atoms, a.Lettered

def isSeparator (c : Char) : Bool :=
  c == ' ' || c == ','

/-- What separators separate, if it is not empty. -/
def pieces (cs : List Char) : List (List Char) :=
  (cs.splitOnP isSeparator).filter (!·.isEmpty)

section Pieces

variable {cs : List Char} {c : Char}

@[simp] theorem pieces_nil : pieces [] = [] := by
  simp [pieces]

theorem pieces_append_cons (hc : isSeparator c = true) (before after : List Char) :
    pieces (before ++ c :: after) = pieces before ++ pieces after := by
  rw [pieces, List.splitOnP_append_cons _ _ hc, List.filter_append]
  rfl

theorem pieces_eq_singleton (hne : cs ≠ []) (hcs : ∀ c ∈ cs, isSeparator c = false) :
    pieces cs = [cs] := by
  rw [pieces, List.splitOnP_eq_singleton hcs]
  simp [hne]

theorem pieces_append_flatMap (hc : isSeparator c = true) (front : List Char)
    (texts : List String) :
    pieces (front ++ texts.flatMap fun text => c :: text.toList) =
      pieces front ++ texts.flatMap fun text => pieces text.toList := by
  induction texts generalizing front with
  | nil => simp
  | cons text texts ih =>
    rw [List.flatMap_cons, List.cons_append, pieces_append_cons hc, ih, List.flatMap_cons]

theorem pieces_intercalate {sep : String} (hsep : sep.toList = [c]) (hc : isSeparator c = true)
    (texts : List String) :
    pieces (sep.intercalate texts).toList = texts.flatMap fun text => pieces text.toList := by
  cases texts with
  | nil => simp
  | cons text texts =>
    rw [toList_intercalate_cons, hsep]
    exact pieces_append_flatMap hc text.toList texts

end Pieces

theorem isSeparator_eq_false_of_isWordChar {c : Char} (h : isWordChar c = true) :
    isSeparator c = false := by
  cases hc : isSeparator c with
  | false => rfl
  | true =>
    simp only [isSeparator, Bool.or_eq_true, beq_iff_eq] at hc
    rcases hc with rfl | rfl <;> cases h

theorem IsLettered.pieces_eq {name : String} (h : IsLettered name) :
    pieces name.toList = [name.toList] :=
  pieces_eq_singleton h.1 fun c hc =>
    isSeparator_eq_false_of_isWordChar (isWordChar_of_isAlpha (h.2 c hc))

theorem IsLettered.space_not_mem {name : String} (h : IsLettered name) : ' ' ∉ name.toList :=
  fun hmem => absurd (h.2 ' ' hmem) (by decide)

namespace Decimal

theorem isSeparator_eq_false_of_mem_write {value : Int64} :
    ∀ c ∈ (write value).toList, isSeparator c = false := by
  have hdigits (n : Nat) : ∀ c ∈ Nat.toDigits 10 n, isSeparator c = false := by
    intro c hc
    have hdigit : c.isDigit = true := Nat.isDigit_of_mem_toDigits (by decide) (by decide) hc
    exact isSeparator_eq_false_of_isWordChar (isWordChar_of_isDigit hdigit)
  rcases toList_write value with ⟨n, -, htext⟩ | ⟨n, -, htext⟩
  · rw [htext]
    exact hdigits n
  · rw [htext]
    exact List.forall_mem_cons.2 ⟨by decide, hdigits n⟩

theorem toList_write_ne_nil (value : Int64) : (write value).toList ≠ [] := by
  rcases toList_write value with ⟨n, -, htext⟩ | ⟨n, -, htext⟩ <;> simp [htext]

theorem read?_of_isLettered {text : String} (h : IsLettered text) : read? text = none := by
  obtain ⟨c, cs, hcs⟩ := List.exists_cons_of_ne_nil h.1
  have hc : c.isAlpha = true := h.2 c (by simp [hcs])
  have hdigit : c.isDigit = false := by
    cases hdigit : c.isDigit with
    | false => rfl
    | true => rw [isAlpha_eq_false_of_isDigit hdigit] at hc; cases hc
  have hnone : integer? text.toList = none := by
    rw [hcs]
    unfold integer?
    split
    · next heq => cases heq; cases hc
    · next heq => cases heq; cases hc
    · simp [natural?, hdigit]
  rw [read?, hnone]
  rfl

end Decimal

namespace Atom

def spelling : Atom → String
  | integer value => Decimal.write value
  | operator op => op.symbol
  | name text => text

/-- The atom with a spelling, which is that of a name if of nothing else. -/
def ofSpelling (text : String) : Atom :=
  match Decimal.read? text with
  | some value => integer value
  | none =>
    match Operator.ofSymbol? text with
    | some op => operator op
    | none => name text

variable {a : Atom}

theorem ofSpelling_spelling (h : a.Lettered) : ofSpelling a.spelling = a := by
  -- Integers are tried first, so the sign of a negative one is not taken for an operator.
  cases a with
  | integer value => rw [spelling, ofSpelling, Decimal.read?_write]
  | operator op =>
    have hread : Decimal.read? op.symbol = none := by cases op <;> decide
    rw [spelling, ofSpelling, hread, Operator.ofSymbol?_symbol]
  | name text =>
    have htext : IsLettered text := h
    have hsymbol : Operator.ofSymbol? text = none := by
      refine Option.eq_none_iff_forall_ne_some.2 fun op hop => ?_
      have hletters : op.symbol.toList.all Char.isAlpha = false := by cases op <;> decide
      rw [Operator.ofSymbol?_eq_some_iff.1 hop] at htext
      rw [List.all_eq_true.2 htext.2] at hletters
      cases hletters
    rw [spelling, ofSpelling, Decimal.read?_of_isLettered htext, hsymbol]

theorem pieces_spelling (h : a.Lettered) : pieces a.spelling.toList = [a.spelling.toList] := by
  cases a with
  | integer value =>
    exact pieces_eq_singleton (Decimal.toList_write_ne_nil value)
      Decimal.isSeparator_eq_false_of_mem_write
  | operator op => cases op <;> decide
  | name text => exact IsLettered.pieces_eq h

/-- The expression that is this atom alone; a name alone is that of a variable. -/
def leaf : Atom → Expr
  | integer value => .literal value
  | operator op => .operator op
  | name text => .ref text

end Atom

namespace Expr

theorem pieces_separated {sep : String} {c : Char} (hsep : sep.toList = [c])
    (hc : isSeparator c = true) {es : List Expr}
    (h : ∀ e ∈ es, pieces e.render.toList = e.atoms.map fun a => a.spelling.toList) :
    pieces (sep.intercalate (es.map render)).toList =
      (es.flatMap atoms).map fun a => a.spelling.toList := by
  rw [pieces_intercalate hsep hc, List.flatMap_map, List.map_flatMap, List.flatMap_def,
    List.flatMap_def, List.map_congr_left h]

theorem pieces_leaf {e : Expr} (a : Atom) (hatoms : e.atoms = [a]) (hrender : e.render = a.spelling)
    (h : ∀ b ∈ e.atoms, b.Lettered) :
    pieces e.render.toList = e.atoms.map fun a => a.spelling.toList := by
  rw [hrender, hatoms, Atom.pieces_spelling (h a (by simp [hatoms])), List.map_singleton]

/-- The pieces of a rendering are the spellings of the atoms. -/
theorem pieces_render : ∀ e : Expr, (∀ a ∈ e.atoms, a.Lettered) →
    pieces e.render.toList = e.atoms.map fun a => a.spelling.toList
  | .literal value, h =>
    pieces_leaf (.integer value) (by rw [atoms]) (by rw [render, Atom.spelling]) h
  | .ref name, h => pieces_leaf (.name name) (by rw [atoms]) (by rw [render, Atom.spelling]) h
  | .operator op, h => pieces_leaf (.operator op) (by rw [atoms]) (by rw [render, Atom.spelling]) h
  | .call callee args, h => by
    rw [atoms, atomsAll_eq_flatMap] at h ⊢
    obtain ⟨hcallee, hatoms⟩ := List.forall_mem_cons.1 h
    have hargs : ∀ e ∈ args, pieces e.render.toList = e.atoms.map fun a => a.spelling.toList :=
      fun e he => pieces_render e fun a ha => hatoms a (List.mem_flatMap.2 ⟨e, he, ha⟩)
    -- Without arguments the callee still has a space behind it, and no piece behind that.
    have htext : (render (.call callee args)).toList =
        callee.toList ++ ' ' :: (",".intercalate (args.map render)).toList := by
      simp [render]
    rw [htext, pieces_append_cons rfl, IsLettered.pieces_eq hcallee,
      pieces_separated rfl rfl hargs, List.map_cons, Atom.spelling, List.singleton_append]

theorem map_leaf_atoms {e : Expr} (h : ∀ callee args, e ≠ .call callee args) :
    e.atoms.map Atom.leaf = [e] := by
  cases e with
  | call callee args => exact absurd rfl (h callee args)
  | _ => simp [atoms, Atom.leaf]

end Expr

theorem append_cons_inj_of_not_mem {c : Char} {as as' bs bs' : List Char} (has : c ∉ as)
    (has' : c ∉ as') (h : as ++ c :: bs = as' ++ c :: bs') : as = as' ∧ bs = bs' := by
  have hsplit := congrArg (List.splitOn c) h
  rw [List.splitOn_append_cons_self_of_not_mem has,
    List.splitOn_append_cons_self_of_not_mem has'] at hsplit
  obtain rfl := (List.cons.inj hsplit).1
  exact ⟨rfl, (List.cons.inj (List.append_cancel_left h)).2⟩

namespace Definition

def paramText (f : Definition) : List Char :=
  (",".intercalate f.params).toList

def bodyText (f : Definition) : List Char :=
  (" ".intercalate (f.body.map Expr.render)).toList

theorem toList_render (f : Definition) :
    f.render.toList = "def ".toList ++ (f.name.toList ++
      ' ' :: (f.paramText ++ ' ' :: (f.bodyText ++ " end".toList))) := by
  simp [render, paramText, bodyText]

namespace Lettered

variable {f : Definition}

theorem pieces_paramText (h : f.Lettered) : pieces f.paramText = f.params.map String.toList := by
  have hparam : ∀ p ∈ f.params, pieces p.toList = [p.toList] :=
    fun p hp => (h.params p hp).pieces_eq
  rw [paramText, pieces_intercalate rfl rfl, List.map_eq_flatMap, List.flatMap_def,
    List.flatMap_def, List.map_congr_left hparam]

theorem pieces_bodyText (h : f.Lettered) :
    pieces f.bodyText = f.atoms.map fun a => a.spelling.toList :=
  Expr.pieces_separated rfl rfl fun e he =>
    e.pieces_render fun a ha => h.body a (List.mem_flatMap.2 ⟨e, he, ha⟩)

theorem params_eq (h : f.Lettered) : f.params = (pieces f.paramText).map String.ofList := by
  simp [h.pieces_paramText]

theorem atoms_eq (h : f.Lettered) :
    f.atoms = (pieces f.bodyText).map fun cs => Atom.ofSpelling (String.ofList cs) := by
  rw [h.pieces_bodyText, List.map_map]
  refine (List.map_id _).symm.trans (List.map_congr_left fun a ha => ?_)
  rw [Function.comp_apply, String.ofList_toList, Atom.ofSpelling_spelling (h.body a ha)]
  rfl

theorem space_not_mem_paramText (h : f.Lettered) : ' ' ∉ f.paramText := by
  have hparam : ∀ p ∈ f.params, ' ' ∉ p.toList := fun p hp => (h.params p hp).space_not_mem
  rw [paramText]
  cases hparams : f.params with
  | nil => simp
  | cons p ps =>
    rw [hparams] at hparam
    rw [toList_intercalate_cons]
    simpa using hparam

end Lettered

variable {f g : Definition}

/-- Two spaces end the name and the parameters, wherever the body has others. -/
theorem texts_eq_of_render (hf : f.Lettered) (hg : g.Lettered) (h : f.render = g.render) :
    f.name = g.name ∧ f.paramText = g.paramText ∧ f.bodyText = g.bodyText := by
  have htext : f.render.toList = g.render.toList := by rw [h]
  rw [toList_render, toList_render] at htext
  obtain ⟨hname, htext⟩ := append_cons_inj_of_not_mem hf.name.space_not_mem hg.name.space_not_mem
    (List.append_cancel_left htext)
  obtain ⟨hparams, htext⟩ := append_cons_inj_of_not_mem hf.space_not_mem_paramText
    hg.space_not_mem_paramText htext
  exact ⟨String.toList_inj.1 hname, hparams, List.append_cancel_right htext⟩

theorem body_eq (h : ∀ callee args, Expr.call callee args ∉ f.body) :
    f.body = f.atoms.map Atom.leaf := by
  have hleaf : ∀ e ∈ f.body, e.atoms.map Atom.leaf = [e] := by
    intro e he
    refine Expr.map_leaf_atoms ?_
    rintro callee args rfl
    exact h callee args he
  rw [atoms, List.map_flatMap, List.flatMap_def, List.map_congr_left hleaf, ← List.flatMap_def,
    List.flatMap_singleton']

/-- Two definitions of one rendering have the same name, the same parameters and the same atoms in
their bodies. Without calls in them they are one definition. -/
theorem render_determines (f g : Definition) (hf : f.Lettered) (hg : g.Lettered)
    (h : f.render = g.render) :
    f.name = g.name ∧ f.params = g.params ∧
      f.body.flatMap Expr.atoms = g.body.flatMap Expr.atoms ∧
      ((∀ callee args, Expr.call callee args ∉ f.body) →
        (∀ callee args, Expr.call callee args ∉ g.body) → f = g) := by
  obtain ⟨hname, hparamText, hbodyText⟩ := texts_eq_of_render hf hg h
  have hparams : f.params = g.params := by rw [hf.params_eq, hg.params_eq, hparamText]
  have hatoms : f.atoms = g.atoms := by rw [hf.atoms_eq, hg.atoms_eq, hbodyText]
  refine ⟨hname, hparams, hatoms, fun hcalls hcalls' => ?_⟩
  have hbody : f.body = g.body := by rw [body_eq hcalls, body_eq hcalls', hatoms]
  obtain ⟨name, params, body⟩ := f
  obtain ⟨name', params', body'⟩ := g
  cases hname
  cases hparams
  cases hbody
  rfl

theorem render_determines_nested :
    render ⟨"end", ["a", "def"], [.call "g" [.call "h" [.literal 1], .literal (-2)]]⟩ =
      render ⟨"end", ["a", "def"], [.call "g" [.call "h" [.literal 1, .literal (-2)]]]⟩ ∧
    [Expr.call "g" [.call "h" [.literal 1], .literal (-2)]] ≠
      [Expr.call "g" [.call "h" [.literal 1, .literal (-2)]]] ∧
    [Expr.call "g" [.call "h" [.literal 1], .literal (-2)]].flatMap Expr.atoms =
      [Expr.call "g" [.call "h" [.literal 1, .literal (-2)]]].flatMap Expr.atoms ∧
    Definition.mk "f" [] [.operator .sub, .literal (-2)] =
      Definition.mk "f" [] [.operator .sub, .literal (-2)] := by
  have hrender : render ⟨"end", ["a", "def"], [.call "g" [.call "h" [.literal 1], .literal (-2)]]⟩ =
      render ⟨"end", ["a", "def"], [.call "g" [.call "h" [.literal 1, .literal (-2)]]]⟩ := by
    decide +kernel
  have hdetermined := render_determines _ _ ⟨by decide, by decide, by decide⟩
    ⟨by decide, by decide, by decide⟩ hrender
  have hsame := render_determines ⟨"f", [], [.operator .sub, .literal (-2)]⟩ _
    ⟨by decide, by decide, by decide⟩ ⟨by decide, by decide, by decide⟩ rfl
  exact ⟨hrender, by simp, hdetermined.2.2.1, hsame.2.2.2 (by simp) (by simp)⟩

end Definition

end DefLang
