import DefLang.Proofs.Lexeme

/-!
# Longest matches and the order of the kinds

All kinds that match at the front of a text find the same lexeme there, and of the operators whose
symbol stands there the longest one is found. So the first match in any order is a longest match.

Two different kinds match at once only where a word of the dialect is read as an identifier too.
`Kind.IsReserved` are the kinds of such words. The kinds can be tried in any order that has these in
front of identifiers, and in no other order.
-/

namespace DefLang.Token

namespace Kind

/-- The kinds of the dialect's own words. -/
def IsReserved (d : Dialect) (kind : Kind) : Prop :=
  kind.group d = identifier ∧ kind ≠ identifier

theorem isReserved_iff {d : Dialect} {kind : Kind} :
    kind.IsReserved d ↔ kind = keyword ∨ d = .worded ∧ kind = closer := by
  cases d <;> cases kind <;> simp [IsReserved, group]

theorem mem_priority (kind : Kind) : kind ∈ priority := by
  cases kind <;> decide

section Front

variable {d : Dialect} {cs lexeme lexeme' : List Char} {kind kind' : Kind}

theorem group_eq_identifier (h : kind.group d = kind'.group d) (hne : kind ≠ kind') :
    kind.group d = identifier := by
  cases d <;> cases kind <;> cases kind' <;> simp_all [group]

theorem lexeme_eq_of_lexeme? (h : kind.lexeme? d cs = some lexeme)
    (h' : kind'.lexeme? d cs = some lexeme') : lexeme = lexeme' := by
  by_cases hne : kind = kind'
  · subst hne
    exact Option.some.inj (h.symm.trans h')
  · have hgroup := group_eq_of_lexeme? h h'
    have hword := group_eq_identifier hgroup hne
    rw [eq_takeWhile_of_lexeme? h hword, eq_takeWhile_of_lexeme? h' (hgroup.symm.trans hword)]

theorem isReserved_of_lexeme? (h : kind.lexeme? d cs = some lexeme)
    (h' : kind'.lexeme? d cs = some lexeme') (hne : kind ≠ kind') :
    kind = identifier ∧ kind'.IsReserved d ∨ kind' = identifier ∧ kind.IsReserved d := by
  have hgroup := group_eq_of_lexeme? h h'
  have hword := group_eq_identifier hgroup hne
  have hword' := hgroup.symm.trans hword
  by_cases hkind : kind = identifier
  · exact .inl ⟨hkind, hword', fun hkind' => hne (hkind.trans hkind'.symm)⟩
  by_cases hkind' : kind' = identifier
  · exact .inr ⟨hkind', hword, hkind⟩
  -- The two words of a dialect differ.
  have heq := lexeme_eq_of_lexeme? h h'
  have hfits : ∀ {k : Kind} {l}, k.IsReserved d → k.lexeme? d cs = some l → k.Fits d l := by
    intro k l hk hl
    exact ((lexeme?_eq_some_iff (by rintro rfl; cases hk.1)).1 hl).1
  have hkeyword : d.keyword.toList ≠ d.closer.toList := by cases d <;> decide
  have hfit := hfits ⟨hword, hkind⟩ h
  have hfit' := hfits ⟨hword', hkind'⟩ h'
  rcases isReserved_iff.1 ⟨hword, hkind⟩ with rfl | ⟨-, rfl⟩ <;>
    rcases isReserved_iff.1 ⟨hword', hkind'⟩ with rfl | ⟨-, rfl⟩
  · exact absurd rfl hne
  · exact absurd (hfit.symm.trans (heq.trans hfit')) hkeyword
  · exact absurd (hfit'.symm.trans (heq.symm.trans hfit)) hkeyword
  · exact absurd rfl hne

theorem exists_operator_of_isPrefix {op : Operator} (h : op.symbol.toList <+: cs) :
    ∃ lexeme, operator.lexeme? d cs = some lexeme ∧
      byteLength op.symbol.toList ≤ byteLength lexeme := by
  obtain ⟨rest, rfl⟩ := h
  cases hfuses : fuses op.symbol.toList rest with
  | false =>
    exact ⟨_, lexeme?_operator_eq_some_iff.2 ⟨⟨op, rfl⟩, rest, rfl, hfuses⟩, Nat.le_refl _⟩
  | true =>
    -- Only `>` and `<` fuse, and the operator that they begin is found.
    obtain ⟨hop, hhead⟩ := (fuses_operator_iff op).1 hfuses
    obtain ⟨rest, rfl⟩ := List.head?_eq_some_iff.1 hhead
    have hlonger (longer : Operator) (hne : longer ≠ .gt ∧ longer ≠ .lt) :
        operator.lexeme? d (longer.symbol.toList ++ rest) = some longer.symbol.toList := by
      refine lexeme?_operator_eq_some_iff.2 ⟨⟨longer, rfl⟩, rest, rfl, ?_⟩
      rw [Bool.eq_false_iff, ne_eq, fuses_operator_iff]
      simp [hne]
    rcases hop with rfl | rfl
    · exact ⟨_, hlonger .ge (by decide), by decide⟩
    · exact ⟨_, hlonger .le (by decide), by decide⟩

end Front

end Kind

open Kind

/-- The matches at the front of a text: what the kinds find, and the symbols of operators, be they
the longest or not. -/
inductive Matches (d : Dialect) (cs : List Char) : Kind → List Char → Prop
  | lexeme {kind : Kind} {lexeme : List Char} (h : kind.lexeme? d cs = some lexeme) :
      Matches d cs kind lexeme
  | symbol {op : Operator} (h : op.symbol.toList <+: cs) : Matches d cs operator op.symbol.toList

/-- The kind matches at the front of a text, and if it is that of identifiers, no word of the
dialect stands there. -/
structure Prevails (d : Dialect) (cs : List Char) (kind : Kind) (lexeme : List Char) : Prop where
  lexeme?_eq : kind.lexeme? d cs = some lexeme
  unreserved : kind = identifier → ∀ kind', IsReserved d kind' → kind'.lexeme? d cs = none

section Order

variable {d : Dialect} {kinds : List Kind} {cs lexeme : List Char} {kind kind' : Kind}

theorem Matches.byteLength_le (h : Matches d cs kind' lexeme) {lexeme' : List Char}
    (h' : kind.lexeme? d cs = some lexeme') : byteLength lexeme ≤ byteLength lexeme' := by
  cases h with
  | lexeme h => exact Nat.le_of_eq (congrArg byteLength (lexeme_eq_of_lexeme? h h'))
  | symbol h =>
    obtain ⟨longest, hlongest, hle⟩ := exists_operator_of_isPrefix (d := d) h
    rwa [lexeme_eq_of_lexeme? h' hlongest]

theorem Matches.exists_lexeme? (h : Matches d cs kind lexeme) :
    ∃ lexeme', kind.lexeme? d cs = some lexeme' := by
  cases h with
  | lexeme h => exact ⟨_, h⟩
  | symbol h =>
    obtain ⟨longest, hlongest, -⟩ := exists_operator_of_isPrefix (d := d) h
    exact ⟨longest, hlongest⟩

theorem firstMatch_eq_none_iff :
    firstMatch d kinds cs = none ↔ ∀ kind ∈ kinds, kind.lexeme? d cs = none := by
  simp [firstMatch]

theorem not_mem_takeWhile {a b : Kind} (h : a ∈ kinds.takeWhile (· != b)) :
    b ∉ kinds.takeWhile (· != a) := by
  induction kinds with
  | nil => simp
  | cons k kinds ih =>
    by_cases ha : k = a
    · simp [ha]
    · by_cases hb : k = b
      · simp [hb] at h
      · rw [List.takeWhile_cons, if_pos (bne_iff_ne.2 hb)] at h
        rw [List.takeWhile_cons, if_pos (bne_iff_ne.2 ha)]
        have htail := (List.mem_cons.1 h).resolve_left (Ne.symm ha)
        exact fun hmem => ih htail ((List.mem_cons.1 hmem).resolve_left (Ne.symm hb))

/-- With the words of the dialect tried in front of identifiers, the kind that prevails is found. -/
theorem Prevails.firstMatch_eq (h : Prevails d cs kind lexeme) (hall : ∀ kind, kind ∈ kinds)
    (hreserved : ∀ kind, IsReserved d kind → kind ∈ kinds.takeWhile (· != identifier)) :
    firstMatch d kinds cs = some (kind, lexeme) := by
  refine firstMatch_eq_some_of_precedes (hall kind) (fun kind' hbefore => ?_) h.lexeme?_eq
  cases h' : kind'.lexeme? d cs with
  | none => rfl
  | some lexeme' =>
    exfalso
    have hne : kind ≠ kind' := by
      rintro rfl
      simpa using List.all_eq_true.1 List.all_takeWhile kind hbefore
    rcases isReserved_of_lexeme? h.lexeme?_eq h' hne with ⟨hkind, hkind'⟩ | ⟨rfl, hkind'⟩
    · rw [h.unreserved hkind kind' hkind'] at h'
      cases h'
    · exact not_mem_takeWhile (hreserved kind hkind') hbefore

theorem exists_prevails (h : kind.lexeme? d cs = some lexeme) :
    ∃ kind' lexeme', Prevails d cs kind' lexeme' := by
  by_cases hword : ∃ kind', IsReserved d kind' ∧ kind'.lexeme? d cs ≠ none
  · obtain ⟨kind', hkind', hne⟩ := hword
    obtain ⟨lexeme', h'⟩ := Option.ne_none_iff_exists'.1 hne
    exact ⟨kind', lexeme', h', fun hidentifier => absurd hidentifier hkind'.2⟩
  · refine ⟨kind, lexeme, h, fun _ kind' hkind' => ?_⟩
    exact Decidable.not_not.1 fun hne => hword ⟨kind', hkind', hne⟩

theorem mem_takeWhile_priority (h : kind.IsReserved d) :
    kind ∈ priority.takeWhile (· != identifier) := by
  rcases isReserved_iff.1 h with rfl | ⟨-, rfl⟩ <;> decide

theorem Prevails.next?_eq (h : Prevails d cs kind lexeme) : next? d cs = some (kind, lexeme) :=
  h.firstMatch_eq mem_priority fun _ => mem_takeWhile_priority

theorem firstMatch_eq_next? (hall : ∀ kind, kind ∈ kinds)
    (hreserved : ∀ kind, IsReserved d kind → kind ∈ kinds.takeWhile (· != identifier))
    (cs : List Char) : firstMatch d kinds cs = next? d cs := by
  by_cases hnone : ∀ kind : Kind, kind.lexeme? d cs = none
  · rw [next?, firstMatch_eq_none_iff.2 fun kind _ => hnone kind,
      firstMatch_eq_none_iff.2 fun kind _ => hnone kind]
  · obtain ⟨kind, hkind⟩ := Classical.not_forall.1 hnone
    obtain ⟨lexeme, h⟩ := Option.ne_none_iff_exists'.1 hkind
    obtain ⟨kind', lexeme', hprevails⟩ := exists_prevails h
    rw [hprevails.firstMatch_eq hall hreserved, hprevails.next?_eq]

theorem mem_takeWhile_of_firstMatch (hall : ∀ kind, kind ∈ kinds)
    (h : ∀ cs, firstMatch d kinds cs = next? d cs) (hkind : kind.IsReserved d) :
    kind ∈ kinds.takeWhile (· != identifier) := by
  have hword : ∃ word, kind.lexeme? d word = some word ∧ identifier.lexeme? d word = some word := by
    rcases isReserved_iff.1 hkind with rfl | ⟨rfl, rfl⟩
    · exact ⟨d.keyword.toList, by cases d <;> decide⟩
    · exact ⟨Dialect.worded.closer.toList, by decide⟩
  obtain ⟨word, hreserved, hidentifier⟩ := hword
  refine Decidable.byContradiction fun hnot => ?_
  have hfound : firstMatch d kinds word = some (identifier, word) := by
    refine firstMatch_eq_some_of_precedes (hall identifier) (fun kind' hbefore => ?_) hidentifier
    cases h' : kind'.lexeme? d word with
    | none => rfl
    | some lexeme' =>
      exfalso
      have hne : kind ≠ kind' := by
        rintro rfl
        exact hnot hbefore
      rcases isReserved_of_lexeme? hreserved h' hne with ⟨rfl, -⟩ | ⟨rfl, -⟩
      · exact hkind.2 rfl
      · simpa using List.all_eq_true.1 List.all_takeWhile _ hbefore
  have hprevails : Prevails d word kind word := ⟨hreserved, fun heq => absurd heq hkind.2⟩
  rw [h word, hprevails.next?_eq, Option.some.injEq, Prod.mk.injEq] at hfound
  exact hkind.2 hfound.1

end Order

/-- The token at the front of a text is a longest match, and there is one if anything matches. The
kinds give the same tokens in every order in which the words of the dialect come in front of
identifiers, and in no other. -/
theorem next?_longest_in_any_order (d : Dialect) :
    (∀ cs, (next? d cs = none ↔ ∀ kind lexeme, ¬ Matches d cs kind lexeme) ∧
      ∀ kind lexeme, next? d cs = some (kind, lexeme) → Matches d cs kind lexeme ∧
        ∀ kind' lexeme', Matches d cs kind' lexeme' → byteLength lexeme' ≤ byteLength lexeme) ∧
    ∀ kinds : List Kind, kinds.Perm priority →
      ((∀ cs, firstMatch d kinds cs = next? d cs) ↔
        keyword ∈ kinds.takeWhile (· != identifier) ∧
        (d = .worded → closer ∈ kinds.takeWhile (· != identifier))) := by
  constructor
  · intro cs
    constructor
    · rw [next?, firstMatch_eq_none_iff]
      constructor
      · intro hnone kind lexeme hmatch
        obtain ⟨lexeme', h⟩ := hmatch.exists_lexeme?
        rw [hnone kind (mem_priority kind)] at h
        cases h
      · intro hnone kind _
        exact Option.eq_none_iff_forall_ne_some.2 fun lexeme h => hnone kind lexeme (.lexeme h)
    · intro kind lexeme hnext
      have h := (lexeme?_of_firstMatch hnext).2
      exact ⟨.lexeme h, fun kind' lexeme' hmatch => hmatch.byteLength_le h⟩
  · intro kinds hperm
    have hall : ∀ kind, kind ∈ kinds := fun kind => hperm.mem_iff.2 (mem_priority kind)
    constructor
    · intro h
      exact ⟨mem_takeWhile_of_firstMatch hall h (isReserved_iff.2 (.inl rfl)),
        fun hd => mem_takeWhile_of_firstMatch hall h (isReserved_iff.2 (.inr ⟨hd, rfl⟩))⟩
    · rintro ⟨hkeyword, hcloser⟩
      refine firstMatch_eq_next? hall fun kind hkind => ?_
      rcases isReserved_iff.1 hkind with rfl | ⟨hd, rfl⟩
      · exact hkeyword
      · exact hcloser hd

theorem next?_longest_in_any_order_symbols :
    next? .worded ">=1".toList = some (operator, ">=".toList) ∧
    Matches .worded ">=1".toList operator Operator.gt.symbol.toList ∧
    byteLength Operator.gt.symbol.toList ≤ byteLength ">=".toList ∧
    [lineBreak, operator, comma, closeParen, openParen, integer, closer, opener, keyword,
      identifier].Perm priority ∧
    firstMatch .worded [lineBreak, operator, comma, closeParen, openParen, integer, closer, opener,
      keyword, identifier] "end)".toList = next? .worded "end)".toList := by
  have hnext : next? .worded ">=1".toList = some (operator, ">=".toList) := by decide
  have hmatch : Matches .worded ">=1".toList operator Operator.gt.symbol.toList :=
    .symbol ⟨"=1".toList, by decide⟩
  have hperm : [lineBreak, operator, comma, closeParen, openParen, integer, closer, opener, keyword,
      identifier].Perm priority := by
    decide
  have hlongest := ((next?_longest_in_any_order .worded).1 _).2 _ _ hnext
  have horder := ((next?_longest_in_any_order .worded).2 _ hperm).2 (by decide)
  exact ⟨hnext, hmatch, hlongest.2 _ _ hmatch, hperm, horder _⟩

end DefLang.Token
