import DefLang.Compile
import DefLang.Proofs.Decimal
import DefLang.Proofs.Grammar
import DefLang.Proofs.Layout

/-!
# Sources of definitions

`Definition.source d f` writes a definition in a dialect so that it can be read again. That works
for the definitions that a source can define at all: `Definition.WellFormed` asks that every name in
it is spelled like a name of the dialect and that no integer is negative.

A text is written piece by piece, each behind a space, a comma or a parenthesis, so that no two of
its lexemes fuse. `SplitsInto d cs P` says of a piece that it splits into tokens with the property
`P`, wherever it stands; pieces are put together as the grammar puts together their tokens.
-/

namespace DefLang

/-- The words of a dialect, which are not names. -/
def Dialect.words : Dialect → List String
  | worded => ["def", "end"]
  | braced => ["act"]

structure Dialect.IsName (d : Dialect) (name : String) : Prop where
  ne_nil : name.toList ≠ []
  isAlpha : ∀ c ∈ name.toList, c.isAlpha = true
  not_mem_words : name ∉ d.words

/-- Names are names of the dialect and no integer is negative, at any depth. -/
inductive Expr.WellFormed (d : Dialect) : Expr → Prop
  | literal {value : Int64} (hvalue : 0 ≤ value.toInt) : WellFormed d (.literal value)
  | ref {name : String} (hname : d.IsName name) : WellFormed d (.ref name)
  | call {callee : String} {args : List Expr} (hcallee : d.IsName callee)
      (hargs : ∀ e ∈ args, WellFormed d e) : WellFormed d (.call callee args)
  | operator {op : Operator} : WellFormed d (.operator op)

structure Definition.WellFormed (d : Dialect) (f : Definition) : Prop where
  name : d.IsName f.name
  params : ∀ p ∈ f.params, d.IsName p
  body : ∀ e ∈ f.body, e.WellFormed d

def applied (name : String) (texts : List String) : String :=
  name ++ "(" ++ ",".intercalate texts ++ ")"

mutual

def Expr.source : Expr → String
  | .literal value => Decimal.write value
  | .ref name => name
  | .call callee args => applied callee (Expr.sourceAll args)
  | .operator op => op.symbol

def Expr.sourceAll : List Expr → List String
  | [] => []
  | e :: es => e.source :: Expr.sourceAll es

end

@[simp] theorem Expr.sourceAll_eq_map (es : List Expr) : sourceAll es = es.map source := by
  induction es with
  | nil => simp [sourceAll]
  | cons e es ih => simp [sourceAll, ih]

/-- The definition as it is written in a dialect, with a space between its parts. -/
def Definition.source (d : Dialect) (f : Definition) : String :=
  " ".intercalate
    (d.keyword :: applied f.name f.params ::
      (d.opener?.toList ++ f.body.map Expr.source ++ [d.closer]))

theorem toList_intercalate_cons (sep text : String) (texts : List String) :
    (sep.intercalate (text :: texts)).toList =
      text.toList ++ texts.flatMap fun text' => sep.toList ++ text'.toList := by
  induction texts generalizing text with
  | nil => simp
  | cons text' texts ih => simp [ih]

theorem fuses_space_append (before rest : List Char) :
    fuses before (" ".toList ++ rest) = false :=
  fuses_cons_eq_false (by decide) (by decide) before rest

theorem fuses_comma_append (before rest : List Char) :
    fuses before (",".toList ++ rest) = false :=
  fuses_cons_eq_false (by decide) (by decide) before rest

theorem fuses_flatMap_append {α : Type} {sep : List Char}
    (hsep : ∀ before rest, fuses before (sep ++ rest) = false) (text : α → List Char) (xs : List α)
    {before rest : List Char} (hrest : fuses before rest = false) :
    fuses before ((xs.flatMap fun x => sep ++ text x) ++ rest) = false := by
  cases xs with
  | nil => exact hrest
  | cons x xs =>
    rw [List.flatMap_cons, List.append_assoc, List.append_assoc]
    exact hsep before _

theorem fuses_flatMap {α : Type} {sep : List Char}
    (hsep : ∀ before rest, fuses before (sep ++ rest) = false) (text : α → List Char) (xs : List α)
    (before : List Char) : fuses before (xs.flatMap fun x => sep ++ text x) = false := by
  have h := fuses_flatMap_append hsep text xs (fuses_nil_right before)
  rwa [List.append_nil] at h

theorem Dialect.isName_iff {d : Dialect} {name : String} :
    d.IsName name ↔ Token.Kind.identifier.IsLexeme d name.toList := by
  constructor
  · intro h
    refine ⟨⟨h.ne_nil, h.isAlpha⟩, fun _ => ?_⟩
    have hwords := h.not_mem_words
    cases d with
    | worded =>
      simp only [words, List.mem_cons, List.not_mem_nil, or_false, not_or] at hwords
      exact ⟨fun heq => hwords.1 (String.toList_inj.1 heq),
        fun heq => hwords.2 (String.toList_inj.1 heq)⟩
    | braced =>
      simp only [words, List.mem_cons, List.not_mem_nil, or_false] at hwords
      refine ⟨fun heq => hwords (String.toList_inj.1 heq), fun heq => ?_⟩
      have hbrace := h.isAlpha '\x7d' (by rw [heq]; decide)
      exact absurd hbrace (by decide)
  · rintro ⟨⟨hne, halpha⟩, hunreserved⟩
    obtain ⟨hkeyword, hcloser⟩ := hunreserved rfl
    refine ⟨hne, halpha, fun hmem => ?_⟩
    cases d with
    | worded =>
      simp only [words, List.mem_cons, List.not_mem_nil, or_false] at hmem
      rcases hmem with rfl | rfl
      · exact hkeyword rfl
      · exact hcloser rfl
    | braced =>
      simp only [words, List.mem_cons, List.not_mem_nil, or_false] at hmem
      subst hmem
      exact hkeyword rfl

theorem Token.Kind.isLexeme_toDigits (d : Dialect) (n : Nat) :
    integer.IsLexeme d (Nat.toDigits 10 n) := by
  refine ⟨⟨Nat.toDigits_ne_nil, fun c hc => ?_⟩, by simp⟩
  exact Nat.isDigit_of_mem_toDigits (by decide) (by decide) hc

theorem Decimal.isLexeme_write (d : Dialect) {value : Int64} (h : 0 ≤ value.toInt) :
    Token.Kind.integer.IsLexeme d (write value).toList := by
  rw [toList_write_of_nonneg h]
  exact Token.Kind.isLexeme_toDigits d _

/-- The text splits into tokens with a property, wherever it stands. -/
def SplitsInto (d : Dialect) (cs : List Char) (P : List Token → Prop) : Prop :=
  ∀ offset, ∃ ts, Splits d offset cs ts ∧ P ts

namespace SplitsInto

variable {d : Dialect} {cs cs' : List Char} {P Q : List Token → Prop}

theorem mono (h : SplitsInto d cs P) (hPQ : ∀ ts, P ts → Q ts) : SplitsInto d cs Q := by
  intro offset
  obtain ⟨ts, hsplits, hP⟩ := h offset
  exact ⟨ts, hsplits, hPQ ts hP⟩

theorem nil (h : P []) : SplitsInto d [] P :=
  fun _ => ⟨[], .nil, h⟩

theorem space (h : SplitsInto d cs P) : SplitsInto d (" ".toList ++ cs) P := by
  intro offset
  obtain ⟨ts, hsplits, hP⟩ := h (offset + ' '.utf8Size)
  exact ⟨ts, .space (by decide) hsplits, hP⟩

theorem lexeme {kind : Token.Kind} {text : String} (h : kind.IsLexeme d text.toList) :
    SplitsInto d text.toList fun ts => ∃ t : Token, t.kind = kind ∧ t.lexeme = text ∧ [t] = ts := by
  intro offset
  have hsplits : Splits d offset (text.toList ++ []) [⟨kind, String.ofList text.toList, offset⟩] :=
    .lexeme h (fuses_nil_right _) .nil
  rw [List.append_nil, String.ofList_toList] at hsplits
  exact ⟨_, hsplits, _, rfl, rfl, rfl⟩

theorem append (h : SplitsInto d cs P) (h' : SplitsInto d cs' Q) (hfuses : fuses cs cs' = false) :
    SplitsInto d (cs ++ cs') fun ts => ∃ us vs, P us ∧ Q vs ∧ us ++ vs = ts := by
  intro offset
  obtain ⟨us, hsplits, hP⟩ := h offset
  obtain ⟨vs, hsplits', hQ⟩ := h' (offset + byteLength cs)
  exact ⟨us ++ vs, hsplits.append hsplits' hfuses, us, vs, hP, hQ, rfl⟩

theorem exists_pair {α : Type} {x : α} {R : List Token → α → Prop}
    (h : SplitsInto d cs (R · x)) :
    SplitsInto d cs fun ts => ∃ a : List Token × α, a.2 = x ∧ a.1 = ts ∧ R a.1 a.2 :=
  h.mono fun ts hts => ⟨(ts, x), rfl, rfl, hts⟩

section Pieces

variable {α β : Type} {spell : β → List Token} {value : β → α} {Good : β → Prop} {xs : List α}

/-- Pieces with a separator in front of each. The relation `Led` says what tokens a piece and its
separator have, and `Q` how the tokens of all pieces are joined. -/
theorem led {sep : List Char} (hsep : ∀ before rest, fuses before (sep ++ rest) = false)
    {text : α → List Char} (Led : List Token → List Token → Prop)
    (Q : List (List Token) → List Token → Prop) (hnil : Q [] [])
    (hcons : ∀ piece pieces ts us, Led piece ts → Q pieces us → Q (piece :: pieces) (ts ++ us))
    (h : ∀ x ∈ xs, SplitsInto d (sep ++ text x)
      fun ts => ∃ b, value b = x ∧ Led (spell b) ts ∧ Good b) :
    SplitsInto d (xs.flatMap fun x => sep ++ text x)
      fun ts => ∃ bs : List β, bs.map value = xs ∧ Q (bs.map spell) ts ∧ ∀ b ∈ bs, Good b := by
  induction xs with
  | nil => exact .nil ⟨[], rfl, hnil, by simp⟩
  | cons x xs ih =>
    have hx := h x List.mem_cons_self
    have hxs := ih fun y hy => h y (List.mem_cons_of_mem x hy)
    rw [List.flatMap_cons]
    refine (hx.append hxs (fuses_flatMap hsep text xs _)).mono ?_
    rintro _ ⟨ts, us, ⟨b, rfl, hLed, hb⟩, ⟨bs, rfl, hQ, hbs⟩, rfl⟩
    exact ⟨b :: bs, rfl, hcons _ _ ts us hLed hQ, List.forall_mem_cons.2 ⟨hb, hbs⟩⟩

variable {text : α → String} (h : ∀ x ∈ xs, SplitsInto d (text x).toList
  fun ts => ∃ b, value b = x ∧ spell b = ts ∧ Good b)

include h

theorem spaceLed :
    SplitsInto d (xs.flatMap fun x => " ".toList ++ (text x).toList)
      fun ts => ∃ bs : List β, bs.map value = xs ∧ (bs.map spell).flatten = ts ∧
        ∀ b ∈ bs, Good b := by
  refine led fuses_space_append Eq (fun pieces ts => pieces.flatten = ts) rfl ?_ ?_
  · rintro piece pieces ts us rfl rfl
    rfl
  · exact fun x hx => (h x hx).space

theorem commaSeparated :
    SplitsInto d (",".intercalate (xs.map text)).toList
      fun ts => ∃ bs : List β, bs.map value = xs ∧ CommaSeparated (bs.map spell) ts ∧
        ∀ b ∈ bs, Good b := by
  have hcomma : Token.Kind.comma.IsLexeme d ",".toList := ⟨rfl, by simp⟩
  cases xs with
  | nil => exact .nil ⟨[], rfl, .nil, by simp⟩
  | cons x xs =>
    have htail : SplitsInto d (xs.flatMap fun y => ",".toList ++ (text y).toList)
        fun ts => ∃ bs : List β, bs.map value = xs ∧ CommaLed (bs.map spell) ts ∧
          ∀ b ∈ bs, Good b := by
      refine led fuses_comma_append
        (fun piece ts => ∃ comma : Token, comma.kind = .comma ∧ ts = comma :: piece)
        CommaLed .nil ?_ fun y hy => ?_
      · rintro piece pieces ts us ⟨comma, hkind, rfl⟩ hled
        exact .cons hkind hled
      · have hy := h y (List.mem_cons_of_mem x hy)
        refine ((lexeme hcomma).append hy
          (fuses_singleton_eq_false (by decide) (by decide) (by decide) _)).mono ?_
        rintro _ ⟨_, _, ⟨comma, hkind, -, rfl⟩, ⟨b, hvalue, rfl, hb⟩, rfl⟩
        exact ⟨b, hvalue, ⟨comma, hkind, rfl⟩, hb⟩
    rw [List.map_cons, toList_intercalate_cons, List.flatMap_map]
    refine ((h x List.mem_cons_self).append htail (fuses_flatMap fuses_comma_append _ xs _)).mono ?_
    rintro _ ⟨_, tail, ⟨b, rfl, rfl, hb⟩, ⟨bs, rfl, hled, hbs⟩, rfl⟩
    exact ⟨b :: bs, rfl, .cons hled, List.forall_mem_cons.2 ⟨hb, hbs⟩⟩

theorem applied {name : String} (hname : d.IsName name) :
    SplitsInto d (DefLang.applied name (xs.map text)).toList fun ts =>
      ∃ (callee opening closing : Token) (inner : List Token) (bs : List β),
        callee.kind = .identifier ∧ callee.lexeme = name ∧ opening.kind = .openParen ∧
        bs.map value = xs ∧ CommaSeparated (bs.map spell) inner ∧ (∀ b ∈ bs, Good b) ∧
        closing.kind = .closeParen ∧ callee :: opening :: (inner ++ [closing]) = ts := by
  have hopening : Token.Kind.openParen.IsLexeme d "(".toList := ⟨rfl, by simp⟩
  have hclosing : Token.Kind.closeParen.IsLexeme d ")".toList := ⟨rfl, by simp⟩
  have hend := (commaSeparated h).append (lexeme hclosing)
    (fuses_cons_eq_false (by decide) (by decide) _ _)
  have hparens := (lexeme hopening).append hend
    (fuses_singleton_eq_false (by decide) (by decide) (by decide) _)
  have hwhole := (lexeme (Dialect.isName_iff.1 hname)).append hparens
    (fuses_cons_eq_false (by decide) (by decide) _ _)
  simp only [DefLang.applied, String.toList_append, List.append_assoc]
  refine hwhole.mono ?_
  rintro _ ⟨_, _, ⟨callee, hcallee, hlexeme, rfl⟩, ⟨_, _, ⟨opening, hkind, -, rfl⟩,
    ⟨inner, _, ⟨bs, hvalue, hinner, hbs⟩, ⟨closing, hkind', -, rfl⟩, rfl⟩, rfl⟩, rfl⟩
  exact ⟨callee, opening, closing, inner, bs, hcallee, hlexeme, hkind, hvalue, hinner, hbs, hkind',
    rfl⟩

end Pieces

end SplitsInto

theorem Expr.WellFormed.splitsInto {d : Dialect} {e : Expr} (h : e.WellFormed d) :
    SplitsInto d e.source.toList (Expr.Derives · e) := by
  induction h with
  | @literal value hvalue =>
    rw [Expr.source]
    refine (SplitsInto.lexeme (Decimal.isLexeme_write d hvalue)).mono ?_
    rintro _ ⟨t, ht, hlexeme, rfl⟩
    exact .literal ht (by rw [hlexeme, Decimal.read?_write])
  | ref hname =>
    rw [Expr.source]
    refine (SplitsInto.lexeme (Dialect.isName_iff.1 hname)).mono ?_
    rintro _ ⟨t, ht, rfl, rfl⟩
    exact .ref ht
  | @call callee args hcallee _ ih =>
    have happlied := SplitsInto.applied (fun e he => (ih e he).exists_pair) hcallee
    rw [Expr.source, sourceAll_eq_map]
    refine happlied.mono ?_
    rintro _ ⟨t, opening, closing, inner, bs, ht, rfl, hopening, rfl, hinner, hbs, hclosing, rfl⟩
    exact .call ht hopening hinner hbs hclosing
  | @operator op =>
    have hoperator : Token.Kind.operator.IsLexeme d op.symbol.toList := ⟨⟨op, rfl⟩, by simp⟩
    rw [Expr.source]
    refine (SplitsInto.lexeme hoperator).mono ?_
    rintro _ ⟨t, ht, hlexeme, rfl⟩
    exact .operator ht hlexeme

theorem Dialect.splitsInto_opener (d : Dialect) :
    SplitsInto d (d.opener?.toList.flatMap fun text => " ".toList ++ text.toList)
      fun ts => ts.map Token.kind = d.openerKinds := by
  cases d with
  | worded => exact .nil rfl
  | braced =>
    have hopener : Token.Kind.opener.IsLexeme .braced "\x7b".toList := ⟨rfl, by simp⟩
    refine (SplitsInto.lexeme hopener).space.mono ?_
    rintro _ ⟨t, ht, -, rfl⟩
    simp [ht, openerKinds]

theorem Definition.toList_source (d : Dialect) (f : Definition) :
    (f.source d).toList = d.keyword.toList ++ (" ".toList ++ (applied f.name f.params).toList ++
      ((d.opener?.toList.flatMap fun text => " ".toList ++ text.toList) ++
        ((f.body.flatMap fun e => " ".toList ++ e.source.toList) ++
          (" ".toList ++ d.closer.toList)))) := by
  simp only [source, toList_intercalate_cons, List.flatMap_cons, List.flatMap_append,
    List.flatMap_map, List.flatMap_nil, List.append_nil, List.append_assoc]

/-- A well-formed definition is written with tokens that spell it. -/
theorem Definition.WellFormed.splitsInto {d : Dialect} {f : Definition} (h : f.WellFormed d) :
    SplitsInto d (f.source d).toList (Definition.Derives d · f) := by
  have hkeyword : Token.Kind.keyword.IsLexeme d d.keyword.toList := ⟨rfl, by simp⟩
  have hcloser : Token.Kind.closer.IsLexeme d d.closer.toList := ⟨rfl, by simp⟩
  have hparams : ∀ p ∈ f.params, SplitsInto d (id p).toList
      fun ts => ∃ t : Token, t.lexeme = p ∧ [t] = ts ∧ t.kind = .identifier := by
    intro p hp
    refine (SplitsInto.lexeme (Dialect.isName_iff.1 (h.params p hp))).mono ?_
    rintro _ ⟨t, ht, hlexeme, rfl⟩
    exact ⟨t, hlexeme, rfl, ht⟩
  have hbody := SplitsInto.spaceLed fun e he => (h.body e he).splitsInto.exists_pair
  -- From the closer to the keyword: all that is put in front of a part meets a space there, also
  -- where the dialect has no opener or the body is empty.
  have hend := hbody.append (SplitsInto.lexeme hcloser).space (fuses_space_append _ _)
  have hblock := (Dialect.splitsInto_opener d).append hend
    (fuses_flatMap_append fuses_space_append _ _ (fuses_space_append _ _))
  have hhead := (SplitsInto.applied hparams h.name).space.append hblock
    (fuses_flatMap_append fuses_space_append _ _
      (fuses_flatMap_append fuses_space_append _ _ (fuses_space_append _ _)))
  have hwhole := (SplitsInto.lexeme hkeyword).append hhead (fuses_space_append _ _)
  rw [toList_source, ← f.params.map_id]
  refine hwhole.mono ?_
  obtain ⟨fname, fparams, fbody⟩ := f
  rintro _ ⟨_, _, ⟨keyword, hkind, -, rfl⟩, ⟨_, _, ⟨name, opening, closing, inner, params, hname,
    rfl, hopening, rfl, hinner, hkinds, hclosing, rfl⟩, ⟨opener, _, hopener, ⟨_, _,
    ⟨body, rfl, rfl, hderives⟩, ⟨closer, hkind', -, rfl⟩, rfl⟩, rfl⟩, rfl⟩, rfl⟩
  have hspells := Derives.intro hkind hname hopening hkinds hinner hclosing hopener hderives hkind'
  simpa using hspells

theorem Expr.Derives.wellFormed {d : Dialect} {ts : List Token} {e : Expr} (h : Derives ts e)
    (hts : ∀ t ∈ ts, t.kind.IsLexeme d t.lexeme.toList) : e.WellFormed d := by
  induction h with
  | @literal t value ht hvalue =>
    obtain ⟨hne, hdigits⟩ : Token.Kind.integer.Fits d t.lexeme.toList :=
      ht ▸ (hts t List.mem_cons_self).fits
    exact .literal (Decimal.nonneg_of_read?_digits hne hdigits hvalue)
  | operator _ _ => exact .operator
  | @ref t ht => exact .ref (Dialect.isName_iff.2 (ht ▸ hts t List.mem_cons_self))
  | @call callee opening closing inner args hcallee _ hinner _ _ ih =>
    refine .call (Dialect.isName_iff.2 (hcallee ▸ hts callee List.mem_cons_self)) fun e he => ?_
    obtain ⟨a, ha, rfl⟩ := List.mem_map.1 he
    refine ih a ha fun t ht => hts t ?_
    have hmem : t ∈ inner := hinner.mem a.1 (List.mem_map_of_mem ha) t ht
    simp [hmem]

theorem Definition.Derives.wellFormed {d d' : Dialect} {ts : List Token} {f : Definition}
    (h : Derives d' ts f) (hts : ∀ t ∈ ts, t.kind.IsLexeme d t.lexeme.toList) : f.WellFormed d := by
  obtain ⟨-, hname, -, hparams, hinner, -, -, hbody, -⟩ := h
  refine ⟨?_, ?_, ?_⟩
  · exact Dialect.isName_iff.2 (hname ▸ hts _ (by simp))
  · intro p hp
    obtain ⟨t, ht, rfl⟩ := List.mem_map.1 hp
    have hmem := hinner.mem [t] (List.mem_map_of_mem ht) t List.mem_cons_self
    exact Dialect.isName_iff.2 (hparams t ht ▸ hts t (by simp [hmem]))
  · intro e he
    obtain ⟨a, ha, rfl⟩ := List.mem_map.1 he
    refine (hbody a ha).wellFormed fun t ht => hts t ?_
    have hmem := List.mem_flatten.2 ⟨a.1, List.mem_map_of_mem ha, ht⟩
    simp [hmem]

theorem Definition.ofSource_eq_ok_iff {o : Options} {source : String} {f : Definition} :
    ofSource o source = .ok f ↔ ∃ ts rest, Splits o.dialect 0 source.toList (ts ++ rest) ∧
      Derives o.dialect ts f ∧ (o.strict = true → rest = []) := by
  simp only [ofSource, Token.ofSource, bind_eq_ok_iff, mapError_eq_ok_iff, Token.scan,
    scanFrom_eq_ok_iff, parse_eq_ok_iff, read_eq_ok_iff]
  constructor
  · rintro ⟨_, hsplits, rest, ⟨ts, rfl, hderives⟩, hstrict⟩
    exact ⟨ts, rest, hsplits, hderives, hstrict⟩
  · rintro ⟨ts, rest, hsplits, hderives, hstrict⟩
    exact ⟨ts ++ rest, hsplits, rest, ⟨ts, rfl, hderives⟩, hstrict⟩

/-- A source can be found for the well-formed definitions and for no others, and `Definition.source`
is one. -/
theorem Definition.ofSource_retracts_source (o : Options) :
    (∀ f : Definition, f.WellFormed o.dialect → ofSource o (f.source o.dialect) = .ok f) ∧
      ∀ source f, ofSource o source = .ok f → f.WellFormed o.dialect := by
  constructor
  · intro f hf
    obtain ⟨ts, hsplits, hderives⟩ := hf.splitsInto 0
    exact ofSource_eq_ok_iff.2 ⟨ts, [], by rwa [List.append_nil], hderives, fun _ => rfl⟩
  · intro source f h
    obtain ⟨ts, rest, hsplits, hderives, -⟩ := ofSource_eq_ok_iff.1 h
    exact hderives.wellFormed fun t ht => hsplits.isLexeme t (List.mem_append_left rest ht)

def nestedCall : Definition :=
  ⟨"f", ["a", "b"], [.call "g" [.call "h" [], .literal 1], .operator .ge]⟩

theorem Definition.ofSource_source_nestedCall :
    nestedCall.WellFormed .braced ∧
      ofSource ⟨.braced, true⟩ "act f(a,b) \x7b g(h(),1) >= \x7d" = .ok nestedCall := by
  have hname (name : String) (hmem : name ∈ ["f", "a", "b", "g", "h"]) :
      Dialect.braced.IsName name := by
    have hall : ∀ name ∈ ["f", "a", "b", "g", "h"], name.toList ≠ [] ∧
        name.toList.all Char.isAlpha = true ∧ name ∉ Dialect.braced.words := by
      decide
    obtain ⟨hne, halpha, hwords⟩ := hall name hmem
    exact ⟨hne, List.all_eq_true.1 halpha, hwords⟩
  have hargs : ∀ e ∈ [Expr.call "h" [], .literal 1], e.WellFormed .braced := by
    simp only [List.mem_cons, List.not_mem_nil, or_false]
    rintro e (rfl | rfl)
    · exact .call (hname _ (by decide)) (by simp)
    · exact .literal (by decide)
  have hwellFormed : nestedCall.WellFormed .braced := by
    refine ⟨hname _ (by decide), fun p hp => hname p ?_, ?_⟩
    · simp only [nestedCall, List.mem_cons, List.not_mem_nil, or_false] at hp
      rcases hp with rfl | rfl <;> decide
    · simp only [nestedCall, List.mem_cons, List.not_mem_nil, or_false]
      rintro e (rfl | rfl)
      · exact .call (hname _ (by decide)) hargs
      · exact .operator
  have hsource : nestedCall.source .braced = "act f(a,b) \x7b g(h(),1) >= \x7d" := by decide
  exact ⟨hwellFormed, hsource ▸ (ofSource_retracts_source ⟨.braced, true⟩).1 _ hwellFormed⟩

end DefLang
