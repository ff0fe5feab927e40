import DefLang.Proofs.Source
import Mathlib.Control.Monad.Basic

/-!
# What rendering keeps

The words of a definition are the lexemes of its rendering, in either dialect: spaces and commas
keep them apart (`HasWords`). They are also what is left of the tokens that spell the definition
when parentheses and the opener are dropped, the keyword and the closer are written as `def` and
`end`, and integers lose the zeros at their front (`Token.rendered?`).

In the dialect of the rendering itself a lexeme determines its kind, so the kinds are kept too.
-/

namespace DefLang

mutual

/-- The lexemes of an expression when it is rendered. -/
def Expr.words : Expr → List String
  | .literal value => [Decimal.write value]
  | .ref name => [name]
  | .call callee args => callee :: [","].intercalate (Expr.wordsAll args)
  | .operator op => [op.symbol]

def Expr.wordsAll : List Expr → List (List String)
  | [] => []
  | e :: es => e.words :: Expr.wordsAll es

end

@[simp] theorem Expr.wordsAll_eq_map (es : List Expr) : wordsAll es = es.map words := by
  induction es with
  | nil => simp [wordsAll]
  | cons e es ih => simp [wordsAll, ih]

/-- The parts of a definition when it is rendered, each with its lexemes. -/
def Definition.parts (f : Definition) : List (String × List String) :=
  [("def", ["def"]), (f.name, [f.name]),
    (",".intercalate f.params, [","].intercalate (f.params.map fun p => [p])),
    (" ".intercalate (f.body.map Expr.render), f.body.flatMap Expr.words), ("end", ["end"])]

def Definition.words (f : Definition) : List String :=
  f.parts.flatMap Prod.snd

theorem intercalate_cons {α : Type} (sep x : List α) (xs : List (List α)) :
    sep.intercalate (x :: xs) = x ++ xs.flatMap (sep ++ ·) := by
  induction xs generalizing x with
  | nil => simp
  | cons x' xs ih =>
    rw [List.intercalate_cons_cons, ih, List.flatMap_cons, List.append_assoc, List.append_assoc]

theorem intercalate_nil_left {α : Type} (xs : List (List α)) : [].intercalate xs = xs.flatten := by
  cases xs with
  | nil => rfl
  | cons x xs => simp [intercalate_cons, List.flatMap_def]

/-- The text splits into the lexemes `words`, wherever it stands. -/
def HasWords (d : Dialect) (cs : List Char) (words : List String) : Prop :=
  SplitsInto d cs (·.map Token.lexeme = words)

namespace HasWords

variable {d : Dialect} {cs cs' : List Char} {words words' : List String}

theorem lexeme {kind : Token.Kind} {text : String} (h : kind.IsLexeme d text.toList) :
    HasWords d text.toList [text] := by
  refine (SplitsInto.lexeme h).mono ?_
  rintro _ ⟨t, -, rfl, rfl⟩
  rfl

theorem name {d' : Dialect} {text : String} (h : d'.IsName text) : HasWords d text.toList [text] :=
  lexeme (Token.Kind.isLexeme_ofWord h.ne_nil h.isAlpha)

theorem append (h : HasWords d cs words) (h' : HasWords d cs' words')
    (hfuses : fuses cs cs' = false) : HasWords d (cs ++ cs') (words ++ words') := by
  refine (SplitsInto.append h h' hfuses).mono ?_
  rintro _ ⟨us, vs, rfl, rfl, rfl⟩
  exact List.map_append

/-- A separator, and the lexemes that are there when it stands in front of a text. -/
structure IsSeparator (d : Dialect) (sep : String) (sepWords : List String) : Prop where
  fuses : ∀ before rest, fuses before (sep.toList ++ rest) = false
  led : ∀ {cs words}, HasWords d cs words → HasWords d (sep.toList ++ cs) (sepWords ++ words)

theorem isSeparator_space (d : Dialect) : IsSeparator d " " [] :=
  ⟨fuses_space_append, SplitsInto.space⟩

theorem isSeparator_comma (d : Dialect) : IsSeparator d "," [","] := by
  have hcomma : Token.Kind.comma.IsLexeme d ",".toList := ⟨rfl, by simp⟩
  exact ⟨fuses_comma_append, fun h =>
    (lexeme hcomma).append h (fuses_singleton_eq_false (by decide) (by decide) (by decide) _)⟩

section Separated

variable {α : Type} {sep : String} {sepWords : List String} {text : α → String}
  {words : α → List String} {xs : List α}

theorem led (hsep : IsSeparator d sep sepWords)
    (h : ∀ x ∈ xs, HasWords d (text x).toList (words x)) :
    HasWords d (xs.flatMap fun x => sep.toList ++ (text x).toList)
      (xs.flatMap fun x => sepWords ++ words x) := by
  induction xs with
  | nil => exact SplitsInto.nil rfl
  | cons x xs ih =>
    have hx := hsep.led (h x List.mem_cons_self)
    have hxs := ih fun y hy => h y (List.mem_cons_of_mem x hy)
    exact hx.append hxs (fuses_flatMap hsep.fuses _ xs _)

theorem separated (hsep : IsSeparator d sep sepWords)
    (h : ∀ x ∈ xs, HasWords d (text x).toList (words x)) :
    HasWords d (sep.intercalate (xs.map text)).toList (sepWords.intercalate (xs.map words)) := by
  cases xs with
  | nil => exact SplitsInto.nil rfl
  | cons x xs =>
    have htail := led hsep fun y hy => h y (List.mem_cons_of_mem x hy)
    rw [List.map_cons, List.map_cons, toList_intercalate_cons, intercalate_cons, List.flatMap_map,
      List.flatMap_map]
    exact (h x List.mem_cons_self).append htail (fuses_flatMap hsep.fuses _ xs _)

end Separated

end HasWords

theorem Expr.WellFormed.hasWords {d : Dialect} {e : Expr} (h : e.WellFormed d) (d' : Dialect) :
    HasWords d' e.render.toList e.words := by
  induction h with
  | literal hvalue =>
    rw [render, words]
    exact .lexeme (Decimal.isLexeme_write d' hvalue)
  | ref hname =>
    rw [render, words]
    exact .name hname
  | call hcallee _ ih =>
    rw [render, words, renderAll_eq_map, wordsAll_eq_map, String.toList_append,
      String.toList_append, List.append_assoc]
    have hargs := HasWords.separated (HasWords.isSeparator_comma d') ih
    -- The space stays when there are no arguments, and adds no word.
    exact (HasWords.name hcallee).append ((HasWords.isSeparator_space d').led hargs)
      (fuses_space_append _ _)
  | @operator op =>
    have hoperator : Token.Kind.operator.IsLexeme d' op.symbol.toList := ⟨⟨op, rfl⟩, by simp⟩
    rw [render, words]
    exact .lexeme hoperator

/-- A definition that a source can define is rendered with its words, also in a dialect in which
its names may have a meaning of their own. -/
theorem Definition.WellFormed.hasWords {d : Dialect} {f : Definition} (h : f.WellFormed d)
    (d' : Dialect) : HasWords d' f.render.toList f.words := by
  have hword (text : String) (hmem : text ∈ ["def", "end"]) : HasWords d' text.toList [text] := by
    have hall : ∀ word ∈ ["def", "end"],
        word.toList ≠ [] ∧ word.toList.all Char.isAlpha = true := by
      decide
    obtain ⟨hne, halpha⟩ := hall text hmem
    exact .lexeme (Token.Kind.isLexeme_ofWord hne (List.all_eq_true.1 halpha))
  have hparams : HasWords d' (",".intercalate (f.params.map id)).toList
      ([","].intercalate (f.params.map fun p => [p])) :=
    .separated (HasWords.isSeparator_comma d') fun p hp => .name (h.params p hp)
  rw [List.map_id] at hparams
  have hbody := HasWords.separated (HasWords.isSeparator_space d') fun e he =>
    (h.body e he).hasWords d'
  rw [intercalate_nil_left, ← List.flatMap_def] at hbody
  -- A rendering without parameters or body has spaces side by side: these parts have no words.
  have hparts : ∀ part ∈ f.parts, HasWords d' part.1.toList part.2 := by
    simp only [parts, List.forall_mem_cons]
    exact ⟨hword _ (by decide), .name h.name, hparams, hbody, hword _ (by decide), by simp⟩
  have hwhole := HasWords.separated (HasWords.isSeparator_space d') hparts
  rwa [intercalate_nil_left, ← List.flatMap_def] at hwhole

/-- What rendering leaves of the spelling of a token. -/
def Token.rendered? (t : Token) : Option String :=
  match t.kind with
  | .openParen | .closeParen | .opener => none
  | .keyword => some "def"
  | .closer => some "end"
  | .integer => some (String.ofList (Decimal.trimZeros t.lexeme.toList))
  | .identifier | .comma | .operator | .lineBreak => some t.lexeme

section Pieces

variable {α : Type} {f : Token → Option α} {comma : α} {pieces : List (List Token)}
  {ts : List Token}

theorem CommaLed.filterMap_eq (h : CommaLed pieces ts)
    (hcomma : ∀ t ∈ ts, t.kind = .comma → f t = some comma) :
    ts.filterMap f = pieces.flatMap fun piece => [comma] ++ piece.filterMap f := by
  induction h with
  | nil => rfl
  | @cons t piece tail pieces ht _ ih =>
    have htail := ih fun u hu => hcomma u (List.mem_cons_of_mem t (List.mem_append_right piece hu))
    rw [List.filterMap_cons_some (hcomma t List.mem_cons_self ht), List.filterMap_append, htail]
    rfl

theorem CommaSeparated.filterMap_eq (h : CommaSeparated pieces ts)
    (hcomma : ∀ t ∈ ts, t.kind = .comma → f t = some comma) :
    ts.filterMap f = [comma].intercalate (pieces.map (List.filterMap f)) := by
  cases h with
  | nil => rfl
  | @cons piece tail pieces htail =>
    rw [List.filterMap_append, htail.filterMap_eq fun t ht => hcomma t (List.mem_append_right _ ht),
      List.map_cons, intercalate_cons, List.flatMap_map]

end Pieces

namespace Token

variable {d : Dialect} {t : Token}

theorem rendered?_comma (h : t.kind.IsLexeme d t.lexeme.toList) (ht : t.kind = .comma) :
    t.rendered? = some "," := by
  have hlexeme : Kind.comma.Fits d t.lexeme.toList := ht ▸ h.fits
  have htext : t.lexeme = "," := String.toList_inj.1 hlexeme
  simp [rendered?, ht, htext]

theorem rendered?_integer {value : Int64} (h : t.kind.IsLexeme d t.lexeme.toList)
    (ht : t.kind = .integer) (hvalue : Decimal.read? t.lexeme = some value) :
    t.rendered? = some (Decimal.write value) := by
  obtain ⟨hne, hdigits⟩ : Kind.integer.Fits d t.lexeme.toList := ht ▸ h.fits
  simp only [rendered?, ht]
  rw [← Decimal.toList_write_of_read?_digits hne hdigits hvalue, String.ofList_toList]

end Token

theorem Expr.Derives.filterMap_rendered? {d : Dialect} {ts : List Token} {e : Expr}
    (h : Derives ts e) (hts : ∀ t ∈ ts, t.kind.IsLexeme d t.lexeme.toList) :
    ts.filterMap Token.rendered? = e.words := by
  induction h with
  | @literal t value ht hvalue =>
    rw [words, List.filterMap_cons_some
      (Token.rendered?_integer (hts t List.mem_cons_self) ht hvalue), List.filterMap_nil]
  | operator ht hop => simp [Token.rendered?, words, ht, hop]
  | ref ht => simp [Token.rendered?, words, ht]
  | @call callee opening closing inner args hcallee hopening hinner _ hclosing ih =>
    have hlexeme : ∀ t ∈ inner, t.kind.IsLexeme d t.lexeme.toList :=
      fun t ht => hts t (by simp [ht])
    have hargs : args.map (fun a => a.1.filterMap Token.rendered?) = args.map fun a => a.2.words :=
      List.map_congr_left fun a ha => ih a ha fun t ht =>
        hlexeme t (hinner.mem a.1 (List.mem_map_of_mem ha) t ht)
    have hwords := hinner.filterMap_eq fun t ht => Token.rendered?_comma (hlexeme t ht)
    rw [List.map_map] at hwords
    have hcalleeWord : callee.rendered? = some callee.lexeme := by simp [Token.rendered?, hcallee]
    have hopeningGone : opening.rendered? = none := by simp [Token.rendered?, hopening]
    have hclosingGone : closing.rendered? = none := by simp [Token.rendered?, hclosing]
    rw [List.filterMap_cons_some hcalleeWord, List.filterMap_cons_none hopeningGone,
      List.filterMap_append, List.filterMap_cons_none hclosingGone, List.filterMap_nil,
      List.append_nil, hwords, words, wordsAll_eq_map, List.map_map]
    exact congrArg (fun pieces => callee.lexeme :: [","].intercalate pieces) hargs

theorem Definition.Derives.filterMap_rendered? {d d' : Dialect} {ts : List Token} {f : Definition}
    (h : Derives d' ts f) (hts : ∀ t ∈ ts, t.kind.IsLexeme d t.lexeme.toList) :
    ts.filterMap Token.rendered? = f.words := by
  cases h with
  | @intro keyword name opening closing closer params inner opener body hkeyword hname hopening
      hparams hinner hclosing hopener hbody hcloser =>
    have hkeywordWord : keyword.rendered? = some "def" := by simp [Token.rendered?, hkeyword]
    have hnameWord : name.rendered? = some name.lexeme := by simp [Token.rendered?, hname]
    have hopeningGone : opening.rendered? = none := by simp [Token.rendered?, hopening]
    have hclosingGone : closing.rendered? = none := by simp [Token.rendered?, hclosing]
    have hcloserWord : closer.rendered? = some "end" := by simp [Token.rendered?, hcloser]
    have hopenerGone : opener.filterMap Token.rendered? = [] := by
      refine List.filterMap_eq_nil_iff.2 fun t ht => ?_
      have hkind : t.kind ∈ d'.openerKinds := hopener ▸ List.mem_map_of_mem ht
      cases d' with
      | worded => cases hkind
      | braced => simp [Token.rendered?, List.mem_singleton.1 hkind]
    have hparamWords : inner.filterMap Token.rendered? =
        [","].intercalate ((params.map Token.lexeme).map fun p => [p]) := by
      rw [hinner.filterMap_eq fun t ht => Token.rendered?_comma (hts t (by simp [ht])),
        List.map_map, List.map_map]
      refine congrArg _ (List.map_congr_left fun p hp => ?_)
      simp [Token.rendered?, hparams p hp]
    have hbodyWords : (body.map Prod.fst).flatten.filterMap Token.rendered? =
        (body.map Prod.snd).flatMap Expr.words := by
      rw [List.filterMap_flatten, List.flatMap_def, List.map_map, List.map_map]
      refine congrArg List.flatten (List.map_congr_left fun e he => ?_)
      refine (hbody e he).filterMap_rendered? fun t ht => hts t ?_
      have hmem := List.mem_flatten.2 ⟨e.1, List.mem_map_of_mem he, ht⟩
      simp [hmem]
    simp only [List.filterMap_cons_some hkeywordWord, List.filterMap_cons_some hnameWord,
      List.filterMap_cons_none hopeningGone, List.filterMap_append, hparamWords,
      List.filterMap_cons_none hclosingGone, hopenerGone, hbodyWords,
      List.filterMap_cons_some hcloserWord, List.filterMap_nil]
    simp [words, parts]

theorem Token.isLexeme_of_rendered? {t : Token} {word : String}
    (h : t.kind.IsLexeme .worded t.lexeme.toList) (hword : t.rendered? = some word) :
    t.kind.IsLexeme .worded word.toList := by
  obtain ⟨kind, lexeme, offset⟩ := t
  cases kind with
  | keyword | closer =>
    cases hword
    exact ⟨rfl, by simp⟩
  | opener | openParen | closeParen => cases hword
  | integer =>
    cases hword
    rw [String.toList_ofList, Decimal.trimZeros_eq h.fits.1 h.fits.2]
    exact Token.Kind.isLexeme_toDigits .worded _
  | identifier | comma | operator | lineBreak =>
    cases hword
    exact h

theorem Token.map_kind_eq {ts us : List Token}
    (hts : ∀ t ∈ ts, t.kind.IsLexeme .worded t.lexeme.toList)
    (hus : ∀ u ∈ us, u.kind.IsLexeme .worded u.lexeme.toList)
    (h : us.map lexeme = ts.filterMap rendered?) :
    us.map kind = (ts.filter (·.rendered?.isSome)).map kind := by
  induction ts generalizing us with
  | nil => simpa using h
  | cons t ts ih =>
    have hts' : ∀ u ∈ ts, u.kind.IsLexeme .worded u.lexeme.toList :=
      fun u hu => hts u (List.mem_cons_of_mem t hu)
    cases ht : t.rendered? with
    | none =>
      rw [List.filterMap_cons_none ht] at h
      rw [List.filter_cons_of_neg (by simp [ht])]
      exact ih hts' hus h
    | some word =>
      rw [List.filterMap_cons_some ht] at h
      cases us with
      | nil => cases h
      | cons u us =>
        obtain ⟨rfl, htail⟩ := List.cons.inj h
        -- One text is a lexeme of both kinds.
        have hword := isLexeme_of_rendered? (hts t List.mem_cons_self) ht
        rw [List.filter_cons_of_pos (by simp [ht]), List.map_cons, List.map_cons,
          (hus u List.mem_cons_self).kind_eq hword,
          ih hts' (fun v hv => hus v (List.mem_cons_of_mem u hv)) htail]

/-- Compiling loses only parentheses, openers, layout and leading zeros. -/
theorem compile_keeps_lexemes (o : Options) (source out : String) (h : compile o source = .ok out) :
    ∃ ts rest f us, Token.scan o.dialect source = .ok (ts ++ rest) ∧
      Definition.read o.dialect (ts ++ rest) = .ok (f, rest) ∧ Token.scan .worded out = .ok us ∧
      us.map Token.lexeme = ts.filterMap Token.rendered? ∧
      (o.dialect = .worded →
        us.map Token.kind = (ts.filter (·.rendered?.isSome)).map Token.kind) := by
  obtain ⟨all, f, hscan, hparse, rfl⟩ := compile_eq_ok_iff.1 h
  obtain ⟨rest, hread, -⟩ := Definition.parse_eq_ok_iff.1 hparse
  obtain ⟨ts, rfl, hderives⟩ := Definition.read_eq_ok_iff.1 hread
  have hts : ∀ t ∈ ts, t.kind.IsLexeme o.dialect t.lexeme.toList := fun t ht =>
    (scanFrom_eq_ok_iff.1 hscan).isLexeme t (List.mem_append_left rest ht)
  obtain ⟨us, hsplits, hwords⟩ := (hderives.wellFormed hts).hasWords .worded 0
  have hlexemes : us.map Token.lexeme = ts.filterMap Token.rendered? := by
    rw [hwords, hderives.filterMap_rendered? hts]
  refine ⟨ts, rest, f, us, hscan, hread, scanFrom_eq_ok_iff.2 hsplits, hlexemes, fun hd => ?_⟩
  exact Token.map_kind_eq (hd ▸ hts) hsplits.isLexeme hlexemes

theorem compile_keeps_lexemes_calls :
    compile ⟨.worded, false⟩ "def f(a,b) g(h(),007)>=00 end def g" =
      .ok "def f a,b g h ,7 >= 0 end" ∧
    ∃ ts rest f us, Token.scan .worded "def f(a,b) g(h(),007)>=00 end def g" = .ok (ts ++ rest) ∧
      Definition.read .worded (ts ++ rest) = .ok (f, rest) ∧
      Token.scan .worded "def f a,b g h ,7 >= 0 end" = .ok us ∧
      us.map Token.lexeme = ts.filterMap Token.rendered? ∧
      us.map Token.kind = (ts.filter (·.rendered?.isSome)).map Token.kind := by
  have h : compile ⟨.worded, false⟩ "def f(a,b) g(h(),007)>=00 end def g" =
      .ok "def f a,b g h ,7 >= 0 end" := by
    decide +kernel
  obtain ⟨ts, rest, f, us, hscan, hread, hscan', hlexemes, hkinds⟩ := compile_keeps_lexemes _ _ _ h
  exact ⟨h, ts, rest, f, us, hscan, hread, hscan', hlexemes, hkinds rfl⟩

end DefLang
