import DefLang.Text.Place
import DefLang.Token

/-!
# Scanning

Words are made of ASCII letters, digits and underscores. Blanks separate tokens on a line, and line
breaks separate lines; no character outside ASCII is in any of these classes.

`Token.Kind.lexeme?` says what a kind matches at the front of a text: a marker, or the longest run
of a character class, and nothing that ends inside a word. `Token.next?` takes the first kind in
order of priority that matches. `Token.scan` repeats this over a whole text, skipping blanks and
dropping line breaks.

A matched lexeme is never empty and stands at the front of the text, so scanning makes progress.
-/

namespace DefLang

def isWordChar (c : Char) : Bool :=
  c.isAlphanum || c == '_'

/-- Space, tab, vertical tab and form feed. -/
def isBlank (c : Char) : Bool :=
  c == ' ' || c == '\t' || c == '\x0b' || c == '\x0c'

/-- Carriage return and line feed. -/
def isLineBreak (c : Char) : Bool :=
  c == '\r' || c == '\n'

structure ScanError where
  offset : Nat
  remaining : String
deriving DecidableEq

namespace Token

/-- A lexeme that ends in a word character would end inside a word if another one follows. -/
def cutsWord (lexeme rest : List Char) : Bool :=
  lexeme.getLast?.any isWordChar && rest.head?.any isWordChar

def marker (text : String) (cs : List Char) : List Char :=
  if text.toList.isPrefixOf cs then text.toList else []

/-- The symbols of operators, those of two characters first, so that `>=` is never split. -/
def operatorSymbols : List String :=
  [">=", "<=", "+", "-", "*", "/", "=", ">", "<", "&", "|", "%", "!"]

theorem marker_isPrefix (text : String) (cs : List Char) : marker text cs <+: cs := by
  by_cases h : text.toList.isPrefixOf cs
  · rw [marker, if_pos h]
    exact List.isPrefixOf_iff_prefix.1 h
  · simp [marker, h]

namespace Kind

/-- What a kind finds at the front of a text, before the end of words is looked at. -/
def candidate (d : Dialect) (cs : List Char) : Kind → List Char
  | keyword => marker d.keyword cs
  | opener => (d.opener?.map (marker · cs)).getD []
  | closer => marker d.closer cs
  | identifier => cs.takeWhile Char.isAlpha
  | integer => cs.takeWhile Char.isDigit
  | openParen => marker "(" cs
  | closeParen => marker ")" cs
  | comma => marker "," cs
  | operator => ((operatorSymbols.map String.toList).find? (·.isPrefixOf cs)).getD []
  | lineBreak => cs.takeWhile isLineBreak

def lexeme? (d : Dialect) (cs : List Char) (kind : Kind) : Option (List Char) :=
  let lexeme := kind.candidate d cs
  if lexeme.isEmpty || cutsWord lexeme (cs.drop lexeme.length) then none else some lexeme

/-- The kinds in the order in which they are tried. -/
def priority : List Kind :=
  [keyword, opener, closer, identifier, integer, openParen, closeParen, comma, operator, lineBreak]

theorem candidate_isPrefix (d : Dialect) (cs : List Char) (kind : Kind) :
    kind.candidate d cs <+: cs := by
  cases kind with
  | keyword => exact marker_isPrefix _ cs
  | opener => cases d <;> simp [candidate, Dialect.opener?, marker_isPrefix]
  | closer => exact marker_isPrefix _ cs
  | identifier => exact List.takeWhile_prefix _
  | integer => exact List.takeWhile_prefix _
  | openParen => exact marker_isPrefix _ cs
  | closeParen => exact marker_isPrefix _ cs
  | comma => exact marker_isPrefix _ cs
  | operator =>
    cases h : (operatorSymbols.map String.toList).find? (·.isPrefixOf cs) with
    | none => simp [candidate, h]
    | some symbol => simpa [candidate, h] using List.find?_some h
  | lineBreak => exact List.takeWhile_prefix _

theorem lexeme?_isPrefix {d : Dialect} {cs lexeme : List Char} {kind : Kind}
    (h : kind.lexeme? d cs = some lexeme) : lexeme <+: cs := by
  simp only [lexeme?, Option.ite_none_left_eq_some, Option.some.injEq] at h
  exact h.2 ▸ candidate_isPrefix d cs kind

theorem ne_nil_of_lexeme? {d : Dialect} {cs lexeme : List Char} {kind : Kind}
    (h : kind.lexeme? d cs = some lexeme) : lexeme ≠ [] := by
  simp only [lexeme?, Option.ite_none_left_eq_some, Option.some.injEq] at h
  rintro rfl
  simp [h.2] at h

end Kind

def firstMatch (d : Dialect) (kinds : List Kind) (cs : List Char) : Option (Kind × List Char) :=
  kinds.findSome? fun kind => (kind.lexeme? d cs).map (kind, ·)

/-- The token at the very front of `cs`: its kind and its lexeme. -/
def next? (d : Dialect) (cs : List Char) : Option (Kind × List Char) :=
  firstMatch d Kind.priority cs

theorem lexeme?_of_firstMatch {d : Dialect} {kinds : List Kind} {cs lexeme : List Char}
    {kind : Kind} (h : firstMatch d kinds cs = some (kind, lexeme)) :
    kind ∈ kinds ∧ kind.lexeme? d cs = some lexeme := by
  obtain ⟨k, hk, hm⟩ := List.exists_of_findSome?_eq_some h
  simp only [Option.map_eq_some_iff, Prod.mk.injEq] at hm
  obtain ⟨l, hl, rfl, rfl⟩ := hm
  exact ⟨hk, hl⟩

theorem ne_nil_of_next? {d : Dialect} {cs lexeme : List Char} {kind : Kind}
    (h : next? d cs = some (kind, lexeme)) : lexeme ≠ [] :=
  Kind.ne_nil_of_lexeme? (lexeme?_of_firstMatch h).2

theorem isPrefix_of_next? {d : Dialect} {cs lexeme : List Char} {kind : Kind}
    (h : next? d cs = some (kind, lexeme)) : lexeme <+: cs :=
  Kind.lexeme?_isPrefix (lexeme?_of_firstMatch h).2

/-- The tokens of `cs`, which begins at byte `offset` of the source. -/
def scanFrom (d : Dialect) (offset : Nat) : List Char → Except ScanError (List Token)
  | [] => .ok []
  | c :: cs =>
    if isBlank c then
      scanFrom d (offset + c.utf8Size) cs
    else
      match _h : next? d (c :: cs) with
      | none => .error ⟨offset, String.ofList (c :: cs)⟩
      | some (kind, lexeme) =>
        let tokens := scanFrom d (offset + byteLength lexeme) ((c :: cs).drop lexeme.length)
        if kind = .lineBreak then tokens
        else tokens.map (⟨kind, String.ofList lexeme, offset⟩ :: ·)
termination_by cs => cs.length
decreasing_by
  · simp
  · have := List.length_pos_iff.2 (ne_nil_of_next? _h)
    simp only [List.length_drop, List.length_cons]
    omega

def scan (d : Dialect) (source : String) : Except ScanError (List Token) :=
  scanFrom d 0 source.toList

end Token

end DefLang
