import DefLang.Definition
import DefLang.Token.Scan

/-!
# Lexemes

`Token.Kind.IsLexeme d kind lexeme` says which spellings a kind of token has in a dialect. Two texts
fuse when a lexeme that ends where they meet would not end there: inside a word, or between the
characters of `>=` and `<=`.

The token at the front of a text is the one lexeme with which the text begins and which does not
fuse with the rest. Kinds of token are told apart by their first character, words excepted; a word
is the longest run of letters, so that the order of the kinds decides only between a keyword or
closer and an identifier. The scanner has a table of operators of its own, and the reader knows what
each entry means (`Operator.isSome_ofSymbol?_iff`).
-/

namespace DefLang

def isSpace (c : Char) : Bool :=
  isBlank c || isLineBreak c

/-- Whether a lexeme at the end of `before` would go on in `after`. -/
def fuses (before after : List Char) : Bool :=
  before.getLast?.any fun a => after.head?.any fun b =>
    isWordChar a && isWordChar b || (a == '>' || a == '<') && b == '='

namespace Token.Kind

/-- The texts that a kind takes off the front of a text, before words are told apart. -/
def Fits (d : Dialect) : Kind → List Char → Prop
  | keyword, lexeme => lexeme = d.keyword.toList
  | opener, lexeme => d.opener?.map String.toList = some lexeme
  | closer, lexeme => lexeme = d.closer.toList
  | identifier, lexeme => lexeme ≠ [] ∧ ∀ c ∈ lexeme, c.isAlpha = true
  | integer, lexeme => lexeme ≠ [] ∧ ∀ c ∈ lexeme, c.isDigit = true
  | openParen, lexeme => lexeme = ['(']
  | closeParen, lexeme => lexeme = [')']
  | comma, lexeme => lexeme = [',']
  | operator, lexeme => ∃ op : Operator, lexeme = op.symbol.toList
  | lineBreak, _ => False

/-- The spellings of a kind. An identifier is spelled unlike the words of the dialect. -/
structure IsLexeme (d : Dialect) (kind : Kind) (lexeme : List Char) : Prop where
  fits : kind.Fits d lexeme
  unreserved : kind = identifier → lexeme ≠ d.keyword.toList ∧ lexeme ≠ d.closer.toList

/-- The lexemes that are the same wherever they stand. -/
def markers (d : Dialect) : List (Kind × List Char) :=
  (keyword, d.keyword.toList) :: (closer, d.closer.toList) ::
    (openParen, ['(']) :: (closeParen, [')']) :: (comma, [',']) ::
    (d.opener?.map fun text => (opener, text.toList)).toList ++
    operatorSymbols.map fun symbol => (operator, symbol.toList)

/-- What tells a kind from others at its first character; keywords are words like identifiers. -/
def group (d : Dialect) : Kind → Kind
  | keyword => identifier
  | closer => if d = .worded then identifier else closer
  | kind => kind

def ofFirst (c : Char) : Kind :=
  if c.isAlpha then identifier
  else if c.isDigit then integer
  else if isLineBreak c then lineBreak
  else if c = '(' then openParen
  else if c = ')' then closeParen
  else if c = ',' then comma
  else if c = '\x7b' then opener
  else if c = '\x7d' then closer
  else operator

/-- The kind of a word: one of the dialect's own words, or else an identifier. -/
def ofWord (d : Dialect) (word : List Char) : Kind :=
  if word = d.keyword.toList then keyword
  else if word = d.closer.toList then closer
  else identifier

end Token.Kind

/-- The table of the scanner and that of the reader list the same symbols. -/
theorem Operator.isSome_ofSymbol?_iff {symbol : String} :
    (ofSymbol? symbol).isSome = true ↔ symbol ∈ Token.operatorSymbols := by
  constructor
  · intro h
    obtain ⟨op, hop⟩ := Option.isSome_iff_exists.1 h
    rw [ofSymbol?_eq_some_iff.1 hop]
    cases op <;> decide
  · intro h
    have hknown : ∀ entry ∈ Token.operatorSymbols, (ofSymbol? entry).isSome = true := by decide
    exact hknown symbol h

theorem Token.mem_operatorSymbols_iff {symbol : String} :
    symbol ∈ operatorSymbols ↔ ∃ op : Operator, symbol = op.symbol := by
  rw [← Operator.isSome_ofSymbol?_iff, Option.isSome_iff_exists]
  exact exists_congr fun op => Operator.ofSymbol?_eq_some_iff

theorem isWordChar_of_isAlpha {c : Char} (h : c.isAlpha = true) : isWordChar c = true := by
  simp [isWordChar, Char.isAlphanum, h]

theorem isWordChar_of_isDigit {c : Char} (h : c.isDigit = true) : isWordChar c = true := by
  simp [isWordChar, Char.isAlphanum, h]

theorem isAlpha_eq_false_of_isDigit {c : Char} (h : c.isDigit = true) : c.isAlpha = false := by
  have hle : c.toNat ≤ 57 := (Char.isDigit_iff_toNat.1 h).2
  have hupper : c.isUpper = false := by
    refine decide_eq_false fun hA => ?_
    have hge : 65 ≤ c.toNat := UInt32.le_iff_toNat_le.1 hA.1
    omega
  have hlower : c.isLower = false := by
    refine Bool.and_eq_false_imp.2 fun ha => ?_
    have hge : 97 ≤ c.toNat := UInt32.le_iff_toNat_le.1 (of_decide_eq_true ha)
    omega
  exact Bool.or_eq_false_iff.2 ⟨hupper, hlower⟩

theorem isWordChar_eq_false_of_isSpace {c : Char} (h : isSpace c = true) :
    isWordChar c = false := by
  simp only [isSpace, isBlank, isLineBreak, Bool.or_eq_true, beq_iff_eq] at h
  rcases h with ((((rfl | rfl) | rfl) | rfl) | (rfl | rfl)) <;> decide

theorem isSpace_eq_false_of_isWordChar {c : Char} (h : isWordChar c = true) :
    isSpace c = false := by
  cases hc : isSpace c with
  | false => rfl
  | true => rw [isWordChar_eq_false_of_isSpace hc] at h; cases h

theorem fuses_eq_of_getLast? {before after : List Char} {a : Char}
    (ha : before.getLast? = some a) :
    fuses before after = after.head?.any fun b =>
      isWordChar a && isWordChar b || (a == '>' || a == '<') && b == '=' := by
  rw [fuses, ha, Option.any_some]

@[simp] theorem fuses_nil_left (after : List Char) : fuses [] after = false := rfl

@[simp] theorem fuses_nil_right (before : List Char) : fuses before [] = false := by
  simp [fuses]

theorem fuses_append_left (as : List Char) {bs : List Char} (hbs : bs ≠ []) (after : List Char) :
    fuses (as ++ bs) after = fuses bs after := by
  rw [fuses, fuses, List.getLast?_append, List.getLast?_eq_some_getLast hbs, Option.some_or]

theorem fuses_append_right (before : List Char) {bs : List Char} (hbs : bs ≠ [])
    (cs : List Char) : fuses before (bs ++ cs) = fuses before bs := by
  rw [fuses, fuses, List.head?_append, List.head?_eq_some_head hbs, Option.some_or]

theorem fuses_tail_eq_false {c : Char} {before after : List Char}
    (h : fuses (c :: before) after = false) : fuses before after = false := by
  by_cases hnil : before = []
  · rw [hnil, fuses_nil_left]
  · rwa [← fuses_append_left [c] hnil]

theorem fuses_append_assoc (as bs cs : List Char) :
    fuses as bs = false ∧ fuses (as ++ bs) cs = false ↔
      fuses bs cs = false ∧ fuses as (bs ++ cs) = false := by
  by_cases hbs : bs = []
  · simp [hbs]
  · rw [fuses_append_left as hbs, fuses_append_right as hbs, and_comm]

theorem fuses_cons_eq_false {b : Char} (hword : isWordChar b = false) (hassign : b ≠ '=')
    (before rest : List Char) : fuses before (b :: rest) = false := by
  cases hlast : before.getLast? with
  | none => simp [fuses, hlast]
  | some a => simp [fuses_eq_of_getLast? hlast, hword, hassign]

theorem fuses_singleton_eq_false {a : Char} (hword : isWordChar a = false) (hgt : a ≠ '>')
    (hlt : a ≠ '<') (after : List Char) : fuses [a] after = false := by
  rw [fuses_eq_of_getLast? List.getLast?_singleton]
  cases after.head? with
  | none => rfl
  | some b => simp [hword, hgt, hlt]

theorem fuses_eq_cutsWord {before after : List Char} (hgt : before.getLast? ≠ some '>')
    (hlt : before.getLast? ≠ some '<') : fuses before after = Token.cutsWord before after := by
  cases ha : before.getLast? with
  | none => simp [fuses, Token.cutsWord, ha]
  | some a =>
    have hgt' : a ≠ '>' := by simpa [ha] using hgt
    have hlt' : a ≠ '<' := by simpa [ha] using hlt
    cases hb : after.head? with
    | none => simp [fuses, Token.cutsWord, ha, hb]
    | some b => simp [fuses, Token.cutsWord, ha, hb, hgt', hlt']

theorem fuses_eq_cutsWord_of_word {before after : List Char}
    (h : ∀ c ∈ before, isWordChar c = true) : fuses before after = Token.cutsWord before after := by
  have hlast (a : Char) (ha : isWordChar a = false) : before.getLast? ≠ some a := by
    intro hlast
    have := h a (List.mem_of_getLast? hlast)
    simp [ha] at this
  exact fuses_eq_cutsWord (hlast '>' (by decide)) (hlast '<' (by decide))

theorem takeWhile_append_of_fuses {p : Char → Bool} (hp : ∀ c, p c = true → isWordChar c = true)
    {lexeme rest : List Char} (hne : lexeme ≠ []) (hall : ∀ c ∈ lexeme, p c = true)
    (hfuses : fuses lexeme rest = false) : (lexeme ++ rest).takeWhile p = lexeme := by
  rw [List.takeWhile_append_of_pos hall]
  cases rest with
  | nil => simp
  | cons b rest =>
    have hlast := List.getLast?_eq_some_getLast hne
    have ha := hp _ (hall _ (List.getLast_mem hne))
    rw [fuses_eq_of_getLast? hlast] at hfuses
    cases hb : p b with
    | false => simp [hb]
    | true => simp [ha, hp b hb] at hfuses

namespace Token.Kind

theorem lexeme?_eq_some {d : Dialect} {cs lexeme : List Char} {kind : Kind} :
    kind.lexeme? d cs = some lexeme ↔ kind.candidate d cs = lexeme ∧ lexeme ≠ [] ∧
      cutsWord lexeme (cs.drop lexeme.length) = false := by
  simp only [lexeme?, Option.ite_none_left_eq_some, Option.some.injEq, Bool.or_eq_true,
    List.isEmpty_iff, not_or, Bool.not_eq_true]
  constructor
  · rintro ⟨⟨hne, hcuts⟩, rfl⟩
    exact ⟨rfl, hne, hcuts⟩
  · rintro ⟨rfl, hne, hcuts⟩
    exact ⟨⟨hne, hcuts⟩, rfl⟩

theorem marker_eq_iff {text : String} {cs lexeme : List Char} (hne : text.toList ≠ []) :
    marker text cs = lexeme ∧ lexeme ≠ [] ↔ lexeme = text.toList ∧ ∃ rest, cs = lexeme ++ rest := by
  by_cases h : text.toList.isPrefixOf cs
  · rw [marker, if_pos h]
    obtain ⟨rest, rfl⟩ := List.isPrefixOf_iff_prefix.1 h
    constructor
    · rintro ⟨rfl, -⟩
      exact ⟨rfl, rest, rfl⟩
    · rintro ⟨rfl, -⟩
      exact ⟨rfl, hne⟩
  · rw [marker, if_neg h]
    constructor
    · rintro ⟨rfl, hnil⟩
      exact absurd rfl hnil
    · rintro ⟨rfl, rest, rfl⟩
      exact absurd (List.isPrefixOf_iff_prefix.2 (List.prefix_append _ rest)) h

theorem ofFirst_of_isLineBreak {c : Char} (h : isLineBreak c = true) : ofFirst c = lineBreak := by
  simp only [isLineBreak, Bool.or_eq_true, beq_iff_eq] at h
  rcases h with rfl | rfl <;> decide

section Front

variable {d : Dialect} {cs lexeme rest : List Char} {kind : Kind}

theorem lexeme?_eq_some_iff_of_marker (text : String)
    (hkind : kind.candidate d cs = marker text cs) (hne : text.toList ≠ [])
    (hgt : text.toList.getLast? ≠ some '>') (hlt : text.toList.getLast? ≠ some '<') :
    kind.lexeme? d cs = some lexeme ↔
      lexeme = text.toList ∧ ∃ rest, cs = lexeme ++ rest ∧ fuses lexeme rest = false := by
  rw [lexeme?_eq_some, hkind, ← and_assoc, marker_eq_iff hne]
  constructor
  · rintro ⟨⟨rfl, rest, rfl⟩, hcuts⟩
    rw [List.drop_left] at hcuts
    exact ⟨rfl, rest, rfl, by rw [fuses_eq_cutsWord hgt hlt, hcuts]⟩
  · rintro ⟨rfl, rest, rfl, hfuses⟩
    rw [fuses_eq_cutsWord hgt hlt] at hfuses
    exact ⟨⟨rfl, rest, rfl⟩, by rw [List.drop_left, hfuses]⟩

theorem lexeme?_eq_some_iff_of_run {p : Char → Bool} (hkind : kind.candidate d cs = cs.takeWhile p)
    (hp : ∀ c, p c = true → isWordChar c = true) :
    kind.lexeme? d cs = some lexeme ↔
      (lexeme ≠ [] ∧ ∀ c ∈ lexeme, p c = true) ∧
        ∃ rest, cs = lexeme ++ rest ∧ fuses lexeme rest = false := by
  rw [lexeme?_eq_some, hkind]
  constructor
  · rintro ⟨rfl, hne, hcuts⟩
    have hall : ∀ c ∈ cs.takeWhile p, p c = true := List.all_eq_true.1 List.all_takeWhile
    have hsplit := List.prefix_iff_eq_append.1 (List.takeWhile_prefix p : cs.takeWhile p <+: cs)
    refine ⟨⟨hne, hall⟩, _, hsplit.symm, ?_⟩
    rw [fuses_eq_cutsWord_of_word fun c hc => hp c (hall c hc), hcuts]
  · rintro ⟨⟨hne, hall⟩, rest, rfl, hfuses⟩
    refine ⟨takeWhile_append_of_fuses hp hne hall hfuses, hne, ?_⟩
    rw [List.drop_left, ← fuses_eq_cutsWord_of_word fun c hc => hp c (hall c hc), hfuses]

theorem fuses_operator_iff (op : Operator) :
    fuses op.symbol.toList rest = true ↔ (op = .gt ∨ op = .lt) ∧ rest.head? = some '=' := by
  cases hb : rest.head? with
  | none => simp [fuses, hb]
  | some b => cases op <;> simp +decide [fuses, hb, Operator.symbol]

theorem candidate_operator (op : Operator) (hfuses : fuses op.symbol.toList rest = false) :
    operator.candidate d (op.symbol.toList ++ rest) = op.symbol.toList := by
  cases rest with
  | nil => cases op <;> cases d <;> decide
  | cons b rest =>
    have hb (hop : op = .gt ∨ op = .lt) : ('=' == b) = false := by
      rw [beq_eq_false_iff_ne]
      rintro rfl
      rw [(fuses_operator_iff op).2 ⟨hop, rfl⟩] at hfuses
      cases hfuses
    cases op <;> simp_all [candidate, operatorSymbols, Operator.symbol, List.isPrefixOf]

theorem lexeme?_operator_eq_some_iff :
    operator.lexeme? d cs = some lexeme ↔
      (∃ op : Operator, lexeme = op.symbol.toList) ∧
        ∃ rest, cs = lexeme ++ rest ∧ fuses lexeme rest = false := by
  rw [lexeme?_eq_some]
  constructor
  · rintro ⟨hcandidate, hne, -⟩
    have hprefix : lexeme <+: cs := hcandidate ▸ candidate_isPrefix d cs operator
    obtain ⟨rest, rfl⟩ := hprefix
    have hop : ∃ op : Operator, lexeme = op.symbol.toList := by
      rw [candidate] at hcandidate
      cases hfind : (operatorSymbols.map String.toList).find? (·.isPrefixOf (lexeme ++ rest)) with
      | none =>
        rw [hfind] at hcandidate
        exact absurd hcandidate.symm hne
      | some found =>
        obtain ⟨symbol, hmem, rfl⟩ := List.mem_map.1 (List.mem_of_find?_eq_some hfind)
        obtain ⟨op, rfl⟩ := mem_operatorSymbols_iff.1 hmem
        rw [hfind] at hcandidate
        exact ⟨op, hcandidate.symm⟩
    obtain ⟨op, rfl⟩ := hop
    refine ⟨⟨op, rfl⟩, rest, rfl, ?_⟩
    cases hfuses : fuses op.symbol.toList rest with
    | false => rfl
    | true =>
      -- The longer operator would have been found instead.
      obtain ⟨hop, hrest⟩ := (fuses_operator_iff op).1 hfuses
      obtain ⟨rest, rfl⟩ := List.head?_eq_some_iff.1 hrest
      have hlonger (longer : Operator) (hlonger : longer = .ge ∨ longer = .le) :
          operator.candidate d (longer.symbol.toList ++ rest) = longer.symbol.toList := by
        apply candidate_operator
        rw [Bool.eq_false_iff, ne_eq, fuses_operator_iff]
        rcases hlonger with rfl | rfl <;> simp
      rcases hop with rfl | rfl
      · exact absurd ((hlonger .ge (.inl rfl)).symm.trans hcandidate) (by decide)
      · exact absurd ((hlonger .le (.inr rfl)).symm.trans hcandidate) (by decide)
  · rintro ⟨⟨op, rfl⟩, rest, rfl, hfuses⟩
    refine ⟨candidate_operator op hfuses, by cases op <;> decide, ?_⟩
    cases op <;> rfl

/-- A kind takes off the front of a text what fits it and does not fuse with the rest. -/
theorem lexeme?_eq_some_iff (hkind : kind ≠ lineBreak) :
    kind.lexeme? d cs = some lexeme ↔
      kind.Fits d lexeme ∧ ∃ rest, cs = lexeme ++ rest ∧ fuses lexeme rest = false := by
  cases kind with
  | keyword =>
    cases d <;> exact lexeme?_eq_some_iff_of_marker _ rfl (by decide) (by decide) (by decide)
  | opener =>
    cases d with
    | worded => simp [lexeme?, candidate, Fits, Dialect.opener?]
    | braced =>
      rw [lexeme?_eq_some_iff_of_marker "\x7b" rfl (by decide) (by decide) (by decide), Fits,
        Dialect.opener?, Option.map_some, Option.some.injEq, eq_comm]
  | closer =>
    cases d <;> exact lexeme?_eq_some_iff_of_marker _ rfl (by decide) (by decide) (by decide)
  | identifier => exact lexeme?_eq_some_iff_of_run rfl fun c => isWordChar_of_isAlpha
  | integer => exact lexeme?_eq_some_iff_of_run rfl fun c => isWordChar_of_isDigit
  | openParen => exact lexeme?_eq_some_iff_of_marker "(" rfl (by decide) (by decide) (by decide)
  | closeParen => exact lexeme?_eq_some_iff_of_marker ")" rfl (by decide) (by decide) (by decide)
  | comma => exact lexeme?_eq_some_iff_of_marker "," rfl (by decide) (by decide) (by decide)
  | operator => exact lexeme?_operator_eq_some_iff
  | lineBreak => exact absurd rfl hkind

theorem lexeme?_lineBreak_eq_some_iff :
    lineBreak.lexeme? d cs = some lexeme ↔ cs.takeWhile isLineBreak = lexeme ∧ lexeme ≠ [] := by
  rw [lexeme?_eq_some, candidate]
  constructor
  · rintro ⟨rfl, hne, -⟩
    exact ⟨rfl, hne⟩
  · rintro ⟨rfl, hne⟩
    refine ⟨rfl, hne, ?_⟩
    have hbreak : isLineBreak ((cs.takeWhile isLineBreak).getLast hne) = true :=
      List.all_eq_true.1 List.all_takeWhile _ (List.getLast_mem hne)
    rw [cutsWord, List.getLast?_eq_some_getLast hne, Option.any_some,
      isWordChar_eq_false_of_isSpace (by simp [isSpace, hbreak]), Bool.false_and]

theorem Fits.mem_markers (h : kind.Fits d lexeme) :
    (kind, lexeme) ∈ markers d ∨
      (kind = identifier ∧ lexeme ≠ [] ∧ ∀ c ∈ lexeme, c.isAlpha = true) ∨
      (kind = integer ∧ lexeme ≠ [] ∧ ∀ c ∈ lexeme, c.isDigit = true) := by
  cases kind with
  | identifier => exact .inr (.inl ⟨rfl, h⟩)
  | integer => exact .inr (.inr ⟨rfl, h⟩)
  | opener => exact .inl (by cases d <;> simp_all [Fits, markers, Dialect.opener?])
  | operator =>
    obtain ⟨op, rfl⟩ := h
    have hmem := mem_operatorSymbols_iff.2 ⟨op, rfl⟩
    exact .inl (List.mem_append_right _ (List.mem_map.2 ⟨op.symbol, hmem, rfl⟩))
  | lineBreak => exact h.elim
  | _ => exact .inl (by simp [markers, show lexeme = _ from h])

theorem Fits.exists_cons (h : kind.Fits d lexeme) :
    ∃ c cs, lexeme = c :: cs ∧ ofFirst c = kind.group d := by
  rcases h.mem_markers with hmem | ⟨rfl, hne, hall⟩ | ⟨rfl, hne, hall⟩
  · have hfirst : ∀ m ∈ markers d, m.2.head?.map ofFirst = some (m.1.group d) := by
      cases d <;> decide
    obtain ⟨c, hc, hgroup⟩ := Option.map_eq_some_iff.1 (hfirst _ hmem)
    obtain ⟨cs, rfl⟩ := List.head?_eq_some_iff.1 hc
    exact ⟨c, cs, rfl, hgroup⟩
  · obtain ⟨c, cs, rfl⟩ := List.exists_cons_of_ne_nil hne
    exact ⟨c, cs, rfl, by simp [ofFirst, group, hall c List.mem_cons_self]⟩
  · obtain ⟨c, cs, rfl⟩ := List.exists_cons_of_ne_nil hne
    have hc := hall c List.mem_cons_self
    exact ⟨c, cs, rfl, by simp [ofFirst, group, hc, isAlpha_eq_false_of_isDigit hc]⟩

theorem Fits.isSpace_eq_false (h : kind.Fits d lexeme) : ∀ c ∈ lexeme, isSpace c = false := by
  rcases h.mem_markers with hmem | ⟨-, -, hall⟩ | ⟨-, -, hall⟩
  · have hspace : ∀ m ∈ markers d, (m.2.all fun c => !isSpace c) = true := by
      cases d <;> decide
    simpa using hspace _ hmem
  · exact fun c hc => isSpace_eq_false_of_isWordChar (isWordChar_of_isAlpha (hall c hc))
  · exact fun c hc => isSpace_eq_false_of_isWordChar (isWordChar_of_isDigit (hall c hc))

theorem Fits.isWordChar_eq (h : kind.Fits d lexeme) :
    (∀ c ∈ lexeme, isWordChar c = true) ∨ ∀ c ∈ lexeme, isWordChar c = false := by
  rcases h.mem_markers with hmem | ⟨-, -, hall⟩ | ⟨-, -, hall⟩
  · have hword : ∀ m ∈ markers d,
        m.2.all isWordChar = true ∨ (m.2.all fun c => !isWordChar c) = true := by
      cases d <;> decide
    simpa using hword _ hmem
  · exact .inl fun c hc => isWordChar_of_isAlpha (hall c hc)
  · exact .inl fun c hc => isWordChar_of_isDigit (hall c hc)

theorem Fits.isAlpha (h : kind.Fits d lexeme) (hgroup : kind.group d = identifier) :
    lexeme ≠ [] ∧ ∀ c ∈ lexeme, c.isAlpha = true := by
  rcases h.mem_markers with hmem | ⟨-, hword⟩ | ⟨rfl, -⟩
  · have hword : ∀ m ∈ markers d, m.1.group d = identifier →
        m.2 ≠ [] ∧ m.2.all Char.isAlpha = true := by
      cases d <;> decide
    simpa using hword _ hmem hgroup
  · exact hword
  · cases hgroup

theorem isLexeme_ofWord (hne : lexeme ≠ []) (hall : ∀ c ∈ lexeme, c.isAlpha = true) :
    (ofWord d lexeme).IsLexeme d lexeme := by
  unfold ofWord
  split
  · next hkeyword => exact ⟨hkeyword, by simp⟩
  · next hkeyword =>
    split
    · next hcloser => exact ⟨hcloser, by simp⟩
    · next hcloser => exact ⟨⟨hne, hall⟩, fun _ => ⟨hkeyword, hcloser⟩⟩

theorem IsLexeme.exists_of_isPrefix {text : List Char} (h : kind.IsLexeme d lexeme)
    (htext : text <+: lexeme) (hne : text ≠ []) : ∃ kind' : Kind, kind'.IsLexeme d text := by
  rcases h.fits.mem_markers with hmem | ⟨-, -, hall⟩ | ⟨-, -, hall⟩
  · have hpart : ∀ m ∈ markers d, ∀ n ≤ m.2.length, m.2.take n ≠ [] →
        m.2.take n = m.2 ∨ (m.2.take n).all Char.isAlpha = true ∨
          m.2.take n = Operator.gt.symbol.toList ∨ m.2.take n = Operator.lt.symbol.toList := by
      cases d <;> decide
    have hcases := hpart _ hmem text.length htext.length_le
    rw [← List.prefix_iff_eq_take.1 htext] at hcases
    rcases hcases hne with rfl | halpha | hgt | hlt
    · exact ⟨kind, h⟩
    · exact ⟨_, isLexeme_ofWord hne (List.all_eq_true.1 halpha)⟩
    · exact ⟨operator, ⟨.gt, hgt⟩, by simp⟩
    · exact ⟨operator, ⟨.lt, hlt⟩, by simp⟩
  · exact ⟨_, isLexeme_ofWord hne fun c hc => hall c (htext.subset hc)⟩
  · exact ⟨integer, ⟨hne, fun c hc => hall c (htext.subset hc)⟩, by simp⟩

theorem exists_cons_of_lexeme? (h : kind.lexeme? d cs = some lexeme) :
    ∃ c cs', cs = c :: cs' ∧ ofFirst c = kind.group d := by
  by_cases hkind : kind = lineBreak
  · subst hkind
    obtain ⟨rfl, hne⟩ := lexeme?_lineBreak_eq_some_iff.1 h
    cases cs with
    | nil => exact absurd rfl hne
    | cons c cs =>
      cases hc : isLineBreak c with
      | false => simp [hc] at hne
      | true => exact ⟨c, cs, rfl, ofFirst_of_isLineBreak hc⟩
  · obtain ⟨hfits, rest, rfl, -⟩ := (lexeme?_eq_some_iff hkind).1 h
    obtain ⟨c, cs, rfl, hc⟩ := hfits.exists_cons
    exact ⟨c, cs ++ rest, rfl, hc⟩

theorem group_eq_of_lexeme? {kind' : Kind} {lexeme' : List Char}
    (h : kind.lexeme? d cs = some lexeme) (h' : kind'.lexeme? d cs = some lexeme') :
    kind.group d = kind'.group d := by
  obtain ⟨c, cs, rfl, hc⟩ := exists_cons_of_lexeme? h
  obtain ⟨c', cs', heq, hc'⟩ := exists_cons_of_lexeme? h'
  cases heq
  exact hc.symm.trans hc'

theorem eq_takeWhile_of_lexeme? (h : kind.lexeme? d cs = some lexeme)
    (hgroup : kind.group d = identifier) : lexeme = cs.takeWhile Char.isAlpha := by
  have hkind : kind ≠ lineBreak := by
    rintro rfl
    cases hgroup
  obtain ⟨hfits, rest, rfl, hfuses⟩ := (lexeme?_eq_some_iff hkind).1 h
  obtain ⟨hne, hall⟩ := hfits.isAlpha hgroup
  exact (takeWhile_append_of_fuses (fun c => isWordChar_of_isAlpha) hne hall hfuses).symm

/-- Where the order of the kinds matters: keywords are tried in front of identifiers. -/
theorem eq_of_precedes {kind' : Kind} (h : kind' ∈ priority.takeWhile (· != kind))
    (hgroup : kind'.group d = kind.group d) :
    kind = identifier ∧ (kind' = keyword ∨ kind' = closer) ∨ kind = closer ∧ kind' = keyword := by
  cases d <;> cases kind <;> cases kind' <;> simp_all [priority, group]

end Front

end Token.Kind

namespace Token

open Kind

variable {d : Dialect} {cs lexeme rest : List Char} {kind : Kind}

theorem firstMatch_eq_some_of_precedes {kinds : List Kind} (hkind : kind ∈ kinds)
    (hbefore : ∀ kind' ∈ kinds.takeWhile (· != kind), kind'.lexeme? d cs = none)
    (h : kind.lexeme? d cs = some lexeme) : firstMatch d kinds cs = some (kind, lexeme) := by
  induction kinds with
  | nil => cases hkind
  | cons kind' kinds ih =>
    by_cases hne : kind' = kind
    · subst hne
      simp [firstMatch, h]
    · rw [List.takeWhile_cons, if_pos (bne_iff_ne.2 hne)] at hbefore
      have hnone := hbefore kind' List.mem_cons_self
      have hmem : kind ∈ kinds := (List.mem_cons.1 hkind).resolve_left (Ne.symm hne)
      have hrest := ih hmem fun k hk => hbefore k (List.mem_cons_of_mem kind' hk)
      simpa [firstMatch, hnone] using hrest

theorem next?_of_isLexeme (h : kind.IsLexeme d lexeme) (hfuses : fuses lexeme rest = false) :
    next? d (lexeme ++ rest) = some (kind, lexeme) := by
  have hkind : kind ≠ lineBreak := by
    rintro rfl
    exact h.fits
  have hmatch : kind.lexeme? d (lexeme ++ rest) = some lexeme :=
    (lexeme?_eq_some_iff hkind).2 ⟨h.fits, rest, rfl, hfuses⟩
  refine firstMatch_eq_some_of_precedes (by cases kind <;> decide) ?_ hmatch
  intro kind' hbefore
  cases hmatch' : kind'.lexeme? d (lexeme ++ rest) with
  | none => rfl
  | some lexeme' =>
    exfalso
    -- An earlier kind that matches too is a word like this one, and both are one run of letters.
    have hgroup := group_eq_of_lexeme? hmatch' hmatch
    have hfits' : kind' = keyword ∨ kind' = closer → kind'.Fits d lexeme' := by
      intro hkind'
      refine ((lexeme?_eq_some_iff ?_).1 hmatch').1
      rcases hkind' with rfl | rfl <;> decide
    rcases eq_of_precedes hbefore hgroup with ⟨rfl, hkind'⟩ | ⟨rfl, rfl⟩
    · have heq : lexeme' = lexeme :=
        (eq_takeWhile_of_lexeme? hmatch' hgroup).trans (eq_takeWhile_of_lexeme? hmatch rfl).symm
      have hreserved := h.unreserved rfl
      rcases hkind' with rfl | rfl
      · exact hreserved.1 (heq.symm.trans (hfits' (.inl rfl)))
      · exact hreserved.2 (heq.symm.trans (hfits' (.inr rfl)))
    · have heq : lexeme' = lexeme :=
        (eq_takeWhile_of_lexeme? hmatch' rfl).trans
          (eq_takeWhile_of_lexeme? hmatch hgroup.symm).symm
      have hwords : d.keyword.toList = d.closer.toList :=
        (hfits' (.inl rfl)).symm.trans (heq.trans h.fits)
      cases d <;> exact absurd hwords (by decide)

theorem Kind.IsLexeme.kind_eq {kind' : Kind} (h : kind.IsLexeme d lexeme)
    (h' : kind'.IsLexeme d lexeme) : kind = kind' := by
  have hnext := next?_of_isLexeme h (fuses_nil_right lexeme)
  have hnext' := next?_of_isLexeme h' (fuses_nil_right lexeme)
  rw [hnext, Option.some.injEq, Prod.mk.injEq] at hnext'
  exact hnext'.1

/-- The token at the front of a text, unless it is a line break. -/
theorem next?_eq_some_iff (hkind : kind ≠ lineBreak) :
    next? d cs = some (kind, lexeme) ↔
      kind.IsLexeme d lexeme ∧ ∃ rest, cs = lexeme ++ rest ∧ fuses lexeme rest = false := by
  constructor
  · intro h
    obtain ⟨hfits, rest, rfl, hfuses⟩ :=
      (lexeme?_eq_some_iff hkind).1 (lexeme?_of_firstMatch h).2
    refine ⟨⟨hfits, ?_⟩, rest, rfl, hfuses⟩
    rintro rfl
    have hreserved (kind' : Kind) (hne : kind' ≠ identifier) : ¬ kind'.Fits d lexeme := by
      intro hfits'
      have hnext := next?_of_isLexeme ⟨hfits', fun heq => absurd heq hne⟩ hfuses
      rw [h] at hnext
      cases hnext
      exact hne rfl
    exact ⟨hreserved keyword (by decide), hreserved closer (by decide)⟩
  · rintro ⟨hlexeme, rest, rfl, hfuses⟩
    exact next?_of_isLexeme hlexeme hfuses

theorem next?_of_isLineBreak {c : Char} (hc : isLineBreak c = true) :
    next? d (c :: cs) = some (lineBreak, (c :: cs).takeWhile isLineBreak) := by
  have hmatch : lineBreak.lexeme? d (c :: cs) = some ((c :: cs).takeWhile isLineBreak) :=
    lexeme?_lineBreak_eq_some_iff.2 ⟨rfl, by simp [hc]⟩
  refine firstMatch_eq_some_of_precedes (by decide) ?_ hmatch
  intro kind hbefore
  cases hmatch' : kind.lexeme? d (c :: cs) with
  | none => rfl
  | some lexeme =>
    have hgroup := group_eq_of_lexeme? hmatch' hmatch
    rcases eq_of_precedes hbefore hgroup with ⟨heq, -⟩ | ⟨heq, -⟩ <;> cases heq

end Token

end DefLang
