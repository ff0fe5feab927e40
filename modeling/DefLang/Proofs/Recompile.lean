import DefLang.Proofs.Rendering

/-!
# Compiling a rendering

A rendering has no parentheses, so it is no source in any dialect. It can be scanned, and its first
three tokens decide. In the dialect with braces the first one, `def`, is a name. In the dialect of
the rendering the second one is the name of the definition, unless this is a word of that dialect,
which only a source in the other one can define; and the third one, which is there even when the
definition has no parameters and no body, is not a parenthesis.
-/

namespace DefLang

open Token (scan)

theorem Splits.offset_eq_of_head? {d : Dialect} {offset : Nat} {cs : List Char} {t : Token}
    {ts : List Token} {c : Char} (h : Splits d offset cs (t :: ts)) (hhead : cs.head? = some c)
    (hc : isSpace c = false) : t.offset = offset := by
  cases h with
  | space hspace _ =>
    cases hhead
    rw [hspace] at hc
    cases hc
  | lexeme _ _ _ => rfl

theorem Splits.kind_eq_ofWord {d : Dialect} {offset : Nat} {cs : List Char} {ts : List Token}
    {t : Token} {word : String} (h : Splits d offset cs ts) (ht : t ∈ ts) (hword : t.lexeme = word)
    (hne : word.toList ≠ []) (hall : ∀ c ∈ word.toList, c.isAlpha = true) :
    t.kind = .ofWord d word.toList := by
  have hlexeme := h.isLexeme t ht
  rw [hword] at hlexeme
  exact hlexeme.kind_eq (Token.Kind.isLexeme_ofWord hne hall)

theorem Dialect.IsName.ofWord_worded_ne_identifier_iff {d : Dialect} {name : String}
    (h : d.IsName name) : Token.Kind.ofWord .worded name.toList ≠ .identifier ↔
      d = .braced ∧ (name = "def" ∨ name = "end") := by
  have hlexeme := Token.Kind.isLexeme_ofWord (d := .worded) h.ne_nil h.isAlpha
  have hname : Token.Kind.ofWord .worded name.toList = .identifier ↔ name ∉ words .worded := by
    constructor
    · intro heq
      rw [heq] at hlexeme
      exact (isName_iff.2 hlexeme).not_mem_words
    · intro hnot
      exact hlexeme.kind_eq (isName_iff.1 ⟨h.ne_nil, h.isAlpha, hnot⟩)
  rw [Ne, hname, Decidable.not_not]
  cases d with
  | worded => simp [h.not_mem_words]
  | braced => simp [words]

theorem Token.rendered?_ne_openParen {d : Dialect} {t : Token}
    (h : t.kind.IsLexeme d t.lexeme.toList) : t.rendered? ≠ some "(" := by
  -- A token that is rendered as a parenthesis would be a lexeme of two kinds.
  have hopen : Kind.openParen.IsLexeme d "(".toList := ⟨rfl, by simp⟩
  intro hword
  obtain ⟨kind, lexeme, offset⟩ := t
  cases kind with
  | keyword => exact absurd hword (by decide : some "def" ≠ some "(")
  | closer => exact absurd hword (by decide : some "end" ≠ some "(")
  | opener | openParen | closeParen => cases hword
  | integer =>
    have htrim : Decimal.trimZeros lexeme.toList = "(".toList := by
      rw [← Option.some.inj hword, String.toList_ofList]
    have hdigits := Kind.isLexeme_toDigits d (Nat.ofDigitChars 10 lexeme.toList 0)
    rw [← Decimal.trimZeros_eq h.fits.1 h.fits.2, htrim] at hdigits
    cases hdigits.kind_eq hopen
  | identifier | comma | operator | lineBreak =>
    cases hword
    cases h.kind_eq hopen

theorem Definition.exists_words (f : Definition) :
    ∃ word words, f.words = "def" :: f.name :: word :: words := by
  let tail := [","].intercalate (f.params.map fun p => [p]) ++ f.body.flatMap Expr.words ++ ["end"]
  have hwords : f.words = "def" :: f.name :: tail := by simp [words, parts, tail]
  obtain ⟨word, words, htail⟩ := List.exists_cons_of_ne_nil (by simp [tail] : tail ≠ [])
  exact ⟨word, words, by rw [hwords, htail]⟩

theorem Definition.head?_render (f : Definition) : f.render.toList.head? = some 'd' := by
  rw [render, toList_intercalate_cons]
  rfl

/-- The first three tokens of a rendering. -/
theorem Definition.Derives.exists_scan_render {d : Dialect} {ts : List Token} {f : Definition}
    (h : Derives d ts f) (hts : ∀ t ∈ ts, t.kind.IsLexeme d t.lexeme.toList) (d' : Dialect) :
    ∃ name t rest, scan d' f.render =
        .ok (⟨.ofWord d' "def".toList, "def", 0⟩ :: name :: t :: rest) ∧
      name.kind = .ofWord d' f.name.toList ∧ t.kind ≠ .openParen := by
  have hf := h.wellFormed hts
  obtain ⟨us, hsplits, hlexemes⟩ := hf.hasWords d' 0
  obtain ⟨word, words, hwords⟩ := f.exists_words
  have hword : word ∈ ts.filterMap Token.rendered? := by
    rw [h.filterMap_rendered? hts, hwords]
    simp
  rw [hwords] at hlexemes
  obtain ⟨keyword, us, rfl, hkeyword, hlexemes⟩ := List.map_eq_cons_iff.1 hlexemes
  obtain ⟨name, us, rfl, hname, hlexemes⟩ := List.map_eq_cons_iff.1 hlexemes
  obtain ⟨t, rest, rfl, rfl, -⟩ := List.map_eq_cons_iff.1 hlexemes
  have hletters : ∀ c ∈ "def".toList, c.isAlpha = true := List.all_eq_true.1 (by decide)
  have hkeywordKind := hsplits.kind_eq_ofWord (by simp) hkeyword (by decide) hletters
  have hnameKind := hsplits.kind_eq_ofWord (by simp) hname hf.name.ne_nil hf.name.isAlpha
  have ht : t.kind ≠ .openParen := by
    intro hopen
    have hfits := (hsplits.isLexeme t (by simp)).fits
    rw [hopen] at hfits
    obtain ⟨u, hu, hrendered⟩ := List.mem_filterMap.1 hword
    have hlexeme : t.lexeme = "(" := String.toList_inj.1 hfits
    rw [hlexeme] at hrendered
    exact Token.rendered?_ne_openParen (hts u hu) hrendered
  have hoffset := hsplits.offset_eq_of_head? f.head?_render (by decide)
  refine ⟨name, t, rest, ?_, hnameKind, ht⟩
  rw [← hkeywordKind, ← hkeyword, ← hoffset]
  exact scanFrom_eq_ok_iff.2 hsplits

theorem Definition.parse_eq_error_of_header {o : Options} {keyword name t : Token}
    {rest : List Token} (hkeyword : keyword.kind = .keyword) (ht : t.kind ≠ .openParen) :
    parse o (keyword :: name :: t :: rest) = .error
      (if name.kind = .identifier then .unexpected .openParen t
        else .unexpected .identifier name) := by
  by_cases hname : name.kind = .identifier
  · simp [parse, read, Token.expect, hkeyword, hname, ht]
  · simp [parse, read, Token.expect, hkeyword, hname]

/-- No rendering compiles, in any dialect: it can be scanned, and a token of another kind than the
one required is found among the first three. -/
theorem compile_rendering_eq_error (o o' : Options) (source out : String)
    (h : compile o source = .ok out) :
    ∃ f expected found, Definition.ofSource o source = .ok f ∧ f.render = out ∧
      compile o' out = .error (.grammar (.unexpected expected found)) ∧
      (o'.dialect = .braced → expected = .keyword ∧ found = ⟨.identifier, "def", 0⟩) ∧
      (o'.dialect = .worded → expected =
        if o.dialect = .braced ∧ (f.name = "def" ∨ f.name = "end") then .identifier
        else .openParen) := by
  obtain ⟨f, hsource, rfl⟩ := map_eq_ok_iff.1 h
  obtain ⟨ts, rest, hsplits, hderives, -⟩ := Definition.ofSource_eq_ok_iff.1 hsource
  have hts : ∀ t ∈ ts, t.kind.IsLexeme o.dialect t.lexeme.toList := fun t ht =>
    hsplits.isLexeme t (List.mem_append_left rest ht)
  obtain ⟨name, t, us, hscan, hname, ht⟩ := hderives.exists_scan_render hts o'.dialect
  obtain ⟨d', strict⟩ := o'
  cases d' with
  | braced =>
    have hdef : Token.Kind.ofWord .braced "def".toList = .identifier := by decide
    rw [hdef] at hscan
    have hparse : Definition.parse ⟨.braced, strict⟩ (⟨.identifier, "def", 0⟩ :: name :: t :: us) =
        .error (.unexpected .keyword ⟨.identifier, "def", 0⟩) := rfl
    exact ⟨f, _, _, hsource, rfl, compile_of_parse_eq_error hscan hparse, fun _ => ⟨rfl, rfl⟩,
      by rintro ⟨⟩⟩
  | worded =>
    have hdef : Token.Kind.ofWord .worded "def".toList = .keyword := by decide
    rw [hdef] at hscan
    have hcompile := compile_of_parse_eq_error hscan
      (Definition.parse_eq_error_of_header (o := ⟨.worded, strict⟩) rfl ht)
    have hreserved := (hderives.wellFormed hts).name.ofWord_worded_ne_identifier_iff
    rw [← hname] at hreserved
    by_cases hidentifier : name.kind = .identifier
    · rw [if_pos hidentifier] at hcompile
      exact ⟨f, _, _, hsource, rfl, hcompile, by rintro ⟨⟩,
        fun _ => (if_neg fun h => hreserved.2 h hidentifier).symm⟩
    · rw [if_neg hidentifier] at hcompile
      exact ⟨f, _, _, hsource, rfl, hcompile, by rintro ⟨⟩,
        fun _ => (if_pos (hreserved.1 hidentifier)).symm⟩

theorem compile_rendering_eq_error_end :
    compile ⟨.braced, true⟩ "act end()\x7b\x7d" = .ok "def end   end" ∧
    (∃ f expected found,
      Definition.ofSource ⟨.braced, true⟩ "act end()\x7b\x7d" = .ok f ∧
      f.render = "def end   end" ∧
      compile ⟨.worded, false⟩ "def end   end" = .error (.grammar (.unexpected expected found)) ∧
      expected = if f.name = "def" ∨ f.name = "end" then .identifier else .openParen) ∧
    compile ⟨.worded, false⟩ "def end   end" =
      .error (.grammar (.unexpected .identifier ⟨.closer, "end", 4⟩)) := by
  have h : compile ⟨.braced, true⟩ "act end()\x7b\x7d" = .ok "def end   end" := by decide +kernel
  obtain ⟨f, expected, found, hsource, hrender, hcompile, -, hexpected⟩ :=
    compile_rendering_eq_error _ ⟨.worded, false⟩ _ _ h
  have hexpected := hexpected rfl
  simp only [true_and] at hexpected
  exact ⟨h, ⟨f, expected, found, hsource, hrender, hcompile, hexpected⟩, by decide +kernel⟩

end DefLang
