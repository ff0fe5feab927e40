import DefLang.Proofs.Cut
import DefLang.Proofs.Relabel
import Mathlib.Control.Monad.Basic

/-!
# Spaces between tokens, and texts in a row

A text that splits into tokens can be cut at every place that is not inside a lexeme, also between
two spaces. Both parts split, the second one into tokens that begin at its own front, so spaces put
in at the cut move the tokens behind them and change nothing else. Parsing hands offsets through to
the error and looks at none. So spaces between tokens change no output, and of an error only the
offset it blames.

A text is scanned in the same way wherever it begins: offsets count from there. So two texts in a
row are scanned one after the other, unless a lexeme at the end of the first would go on in the
second. If the first cannot be scanned, the second is part of what remains.
-/

namespace DefLang

open Token (scan scanFrom)

namespace Token

/-- The place is inside the lexeme of the token, not in front of it and not behind it. -/
def Covers (t : Token) (place : Nat) : Prop :=
  t.offset < place ∧ place < t.offset + byteLength t.lexeme.toList

instance (t : Token) (place : Nat) : Decidable (t.Covers place) :=
  inferInstanceAs (Decidable (_ ∧ _))

/-- The token in a text that begins `n` bytes later. -/
def shift (n : Nat) (t : Token) : Token :=
  { t with offset := t.offset + n }

/-- The token when `n` bytes are put into its text at byte `place`. -/
def shiftFrom (place n : Nat) (t : Token) : Token :=
  { t with offset := if t.offset < place then t.offset else t.offset + n }

variable {place n : Nat} {t : Token}

theorem shiftFrom_of_lt (h : t.offset < place) : t.shiftFrom place n = t := by
  rw [shiftFrom, if_pos h]

theorem shiftFrom_of_le (h : place ≤ t.offset) : t.shiftFrom place n = t.shift n := by
  rw [shiftFrom, if_neg (Nat.not_lt.2 h), shift]

theorem relabels_shiftFrom (place n : Nat) : Relabels id (shiftFrom place n) where
  kind _ := rfl
  name _ _ := rfl
  value _ _ := rfl

end Token

theorem utf8Size_of_isSpace {c : Char} (h : isSpace c = true) : c.utf8Size = 1 := by
  simp only [isSpace, isBlank, isLineBreak, Bool.or_eq_true, beq_iff_eq] at h
  rcases h with ((((rfl | rfl) | rfl) | rfl) | (rfl | rfl)) <;> rfl

theorem Token.Kind.Fits.byteLength_pos {d : Dialect} {kind : Kind} {lexeme : List Char}
    (h : kind.Fits d lexeme) : 0 < byteLength lexeme := by
  obtain ⟨c, cs, rfl, -⟩ := h.exists_cons
  have hc := c.utf8Size_pos
  rw [byteLength_cons]
  omega

namespace Splits

variable {d : Dialect} {offset n : Nat} {cs : List Char} {ts : List Token}

theorem shift (h : Splits d offset cs ts) (n : Nat) :
    Splits d (offset + n) cs (ts.map (Token.shift n)) := by
  induction h with
  | nil => exact .nil
  | @space offset c cs ts hc _ ih =>
    rw [Nat.add_right_comm] at ih
    exact .space hc ih
  | @lexeme offset kind lexeme rest ts hlexeme hfuses _ ih =>
    rw [Nat.add_right_comm] at ih
    exact .lexeme hlexeme hfuses ih

theorem offset_bounds (h : Splits d offset cs ts) :
    ∀ t ∈ ts, offset ≤ t.offset ∧
      t.offset + byteLength t.lexeme.toList ≤ offset + byteLength cs := by
  induction h with
  | nil => simp
  | @space offset c cs ts _ _ ih =>
    intro t ht
    have hbounds := ih t ht
    rw [byteLength_cons]
    omega
  | @lexeme offset kind lexeme rest ts _ _ _ ih =>
    rw [byteLength_append]
    refine List.forall_mem_cons.2 ⟨⟨Nat.le_refl offset, ?_⟩, fun t ht => ?_⟩
    · rw [String.toList_ofList]
      exact Nat.add_le_add_left (Nat.le_add_right _ _) offset
    · have hbounds := ih t ht
      omega

/-- A text can be cut at a place that is not inside a lexeme. -/
theorem exists_cut (h : Splits d offset cs ts) (hn : n ≤ byteLength cs)
    (hbetween : ∀ t ∈ ts, ¬ t.Covers (offset + n)) :
    ∃ before after us vs, cs = before ++ after ∧ byteLength before = n ∧ ts = us ++ vs ∧
      Splits d offset before us ∧ Splits d (offset + n) after vs ∧ fuses before after = false := by
  induction h generalizing n with
  | nil =>
    have hzero : n = 0 := by simpa using hn
    subst hzero
    exact ⟨[], [], [], [], rfl, rfl, rfl, .nil, .nil, rfl⟩
  | @space offset c cs ts hc h ih =>
    cases n with
    | zero => exact ⟨[], c :: cs, [], ts, rfl, rfl, rfl, .nil, .space hc h, rfl⟩
    | succ n =>
      have hsize := utf8Size_of_isSpace hc
      have hplace : offset + (n + 1) = offset + c.utf8Size + n := by omega
      rw [byteLength_cons] at hn
      rw [hplace] at hbetween ⊢
      obtain ⟨before, after, us, vs, rfl, hlength, rfl, hbefore, hafter, hfuses⟩ :=
        ih (by omega) hbetween
      exact ⟨c :: before, after, us, vs, rfl, by rw [byteLength_cons]; omega, rfl,
        .space hc hbefore, hafter, fuses_spaces_append (List.forall_mem_singleton.2 hc) hfuses⟩
  | @lexeme offset kind lexeme rest ts hlexeme hjunction h ih =>
    by_cases hzero : n = 0
    · subst hzero
      exact ⟨[], lexeme ++ rest, [], _, rfl, rfl, rfl, .nil, .lexeme hlexeme hjunction h, rfl⟩
    · obtain ⟨hfirst, hbetween⟩ := List.forall_mem_cons.1 hbetween
      have hle : byteLength lexeme ≤ n := by
        rw [Token.Covers, String.toList_ofList] at hfirst
        dsimp only at hfirst
        omega
      obtain ⟨m, rfl⟩ := Nat.exists_eq_add_of_le hle
      rw [← Nat.add_assoc] at hbetween ⊢
      rw [byteLength_append] at hn
      obtain ⟨before, after, us, vs, rfl, rfl, rfl, hbefore, hafter, hfuses⟩ :=
        ih (by omega) hbetween
      obtain ⟨hlexeme', hcut⟩ := (fuses_append_assoc lexeme before after).2 ⟨hfuses, hjunction⟩
      exact ⟨lexeme ++ before, after, _ :: us, vs, by rw [List.append_assoc],
        byteLength_append _ _, rfl, .lexeme hlexeme hlexeme' hbefore, hafter, hcut⟩

theorem insert_spaces (h : Splits d offset cs ts) (hn : n ≤ byteLength cs)
    (hbetween : ∀ t ∈ ts, ¬ t.Covers (offset + n))
    {gap : List Char} (hgap : ∀ c ∈ gap, isSpace c = true) :
    ∃ before after, cs = before ++ after ∧ byteLength before = n ∧
      Splits d offset (before ++ (gap ++ after))
        (ts.map (Token.shiftFrom (offset + n) (byteLength gap))) := by
  obtain ⟨before, after, us, vs, rfl, rfl, rfl, hbefore, hafter, hfuses⟩ :=
    h.exists_cut hn hbetween
  have hus : us.map (Token.shiftFrom (offset + byteLength before) (byteLength gap)) = us := by
    refine (List.map_congr_left fun t ht => ?_).trans (List.map_id us)
    have hbound := (hbefore.offset_bounds t ht).2
    have hpos := (hbefore.isLexeme t ht).fits.byteLength_pos
    exact Token.shiftFrom_of_lt (by omega)
  have hvs : vs.map (Token.shiftFrom (offset + byteLength before) (byteLength gap)) =
      vs.map (Token.shift (byteLength gap)) :=
    List.map_congr_left fun t ht => Token.shiftFrom_of_le (hafter.offset_bounds t ht).1
  have hfuses' : fuses before (gap ++ after) = false := by
    cases gap with
    | nil => exact hfuses
    | cons c gap => exact fuses_space_eq_false (hgap c List.mem_cons_self) _
  rw [List.map_append, hus, hvs]
  exact ⟨before, after, rfl, rfl,
    hbefore.append (.spaces hgap (hafter.shift (byteLength gap))) hfuses'⟩

end Splits

/-- Spaces that are put between the tokens of a source leave what it compiles to as it is, and of an
error change only the offset that it blames. -/
theorem compile_insert_spaces (o : Options) (source gap : String) (ts : List Token) (place : Nat)
    (hscan : scan o.dialect source = .ok ts) (hplace : place ≤ byteLength source.toList)
    (hbetween : ∀ t ∈ ts, ¬ t.Covers place) (hgap : ∀ c ∈ gap.toList, isSpace c = true) :
    ∃ before after, splitAtByte? place source.toList = some (before, after) ∧
      (∀ out, compile o (String.ofList before ++ gap ++ String.ofList after) = .ok out ↔
        compile o source = .ok out) ∧
      ∀ failure, compile o source = .error failure →
        ∃ error, failure = .grammar error ∧
          compile o (String.ofList before ++ gap ++ String.ofList after) =
            .error (.grammar (error.mapToken (.shiftFrom place (byteLength gap.toList)))) := by
  obtain ⟨before, after, hsource, hlength, hsplits⟩ := (scanFrom_eq_ok_iff.1 hscan).insert_spaces
    hplace (by rwa [Nat.zero_add]) hgap
  rw [Nat.zero_add] at hsplits
  have hscan' : scan o.dialect (String.ofList before ++ gap ++ String.ofList after) =
      .ok (ts.map (.shiftFrom place (byteLength gap.toList))) := by
    rw [scan, scanFrom_eq_ok_iff]
    simpa using hsplits
  exact ⟨before, after, splitAtByte?_eq_some_iff.2 ⟨hsource, hlength⟩,
    compile_relabel (Token.relabels_shiftFrom place _) hscan hscan'⟩

theorem compile_insert_spaces_lineBreak :
    (∃ before after, splitAtByte? 8 "def f()\r\n x )".toList = some (before, after) ∧
      compile ⟨.worded, false⟩ (String.ofList before ++ "\t\n\x0b" ++ String.ofList after) =
        .error (.grammar (.unexpected .identifier ⟨.closeParen, ")", 15⟩))) ∧
    ∃ before after, splitAtByte? 5 "act f(a)\x7ba>=1\x7d".toList = some (before, after) ∧
      compile ⟨.braced, true⟩ (String.ofList before ++ "\x0c\r" ++ String.ofList after) =
        .ok "def f a a >= 1 end" := by
  have hspaces (gap : String) (h : gap.toList.all isSpace = true) :
      ∀ c ∈ gap.toList, isSpace c = true :=
    List.all_eq_true.1 h
  have hscan : scan .worded "def f()\r\n x )" =
      .ok [⟨.keyword, "def", 0⟩, ⟨.identifier, "f", 4⟩, ⟨.openParen, "(", 5⟩,
        ⟨.closeParen, ")", 6⟩, ⟨.identifier, "x", 10⟩, ⟨.closeParen, ")", 12⟩] := by
    decide +kernel
  have hscan' : scan .braced "act f(a)\x7ba>=1\x7d" =
      .ok [⟨.keyword, "act", 0⟩, ⟨.identifier, "f", 4⟩, ⟨.openParen, "(", 5⟩,
        ⟨.identifier, "a", 6⟩, ⟨.closeParen, ")", 7⟩, ⟨.opener, "\x7b", 8⟩,
        ⟨.identifier, "a", 9⟩, ⟨.operator, ">=", 10⟩, ⟨.integer, "1", 12⟩,
        ⟨.closer, "\x7d", 13⟩] := by
    decide +kernel
  have herror : compile ⟨.worded, false⟩ "def f()\r\n x )" =
      .error (.grammar (.unexpected .identifier ⟨.closeParen, ")", 12⟩)) := by
    decide +kernel
  have hok : compile ⟨.braced, true⟩ "act f(a)\x7ba>=1\x7d" = .ok "def f a a >= 1 end" := by
    decide +kernel
  obtain ⟨before, after, hcut, -, hfail⟩ := compile_insert_spaces ⟨.worded, false⟩ _ "\t\n\x0b" _ 8
    hscan (by decide) (by decide) (hspaces _ (by decide))
  obtain ⟨before', after', hcut', hout, -⟩ := compile_insert_spaces ⟨.braced, true⟩ _ "\x0c\r" _ 5
    hscan' (by decide) (by decide) (hspaces _ (by decide))
  obtain ⟨error, heq, hmoved⟩ := hfail _ herror
  cases heq
  exact ⟨⟨before, after, hcut, hmoved⟩, before', after', hcut', (hout _).2 hok⟩

def ScanError.shift (n : Nat) (e : ScanError) : ScanError :=
  { e with offset := n + e.offset }

theorem scanFrom_add (d : Dialect) (n offset : Nat) (cs : List Char) :
    scanFrom d (n + offset) cs =
      ((scanFrom d offset cs).map (List.map (Token.shift n))).mapError (ScanError.shift n) := by
  cases h : scanFrom d offset cs with
  | ok ts =>
    have hsplits := (Splits.of_scanFrom h).shift n
    rw [Nat.add_comm, scanFrom_eq_ok_iff.2 hsplits]
    rfl
  | error e =>
    obtain ⟨before, rest, ts, rfl, hsplits, hfuses, hstuck, rfl⟩ := scanFrom_eq_error_iff.1 h
    have hmoved := hsplits.shift n
    rw [Nat.add_comm] at hmoved
    apply scanFrom_eq_error_iff.2
    exact ⟨before, rest, _, rfl, hmoved, hfuses, hstuck, by rw [ScanError.shift, Nat.add_assoc]⟩

/-- Scanning two texts in a row, where `fuses` is the only obstacle. An error in the first one stays
where it is; behind a first one without errors, tokens and errors of the second one move. -/
theorem scan_append (d : Dialect) (first second : String) :
    (∀ e, scan d first = .error e →
      scan d (first ++ second) = .error ⟨e.offset, e.remaining ++ second⟩) ∧
    ∀ ts, scan d first = .ok ts → fuses first.toList second.toList = false →
      (∀ us, scan d second = .ok us →
        scan d (first ++ second) = .ok (ts ++ us.map (Token.shift (byteLength first.toList)))) ∧
      ∀ e, scan d second = .error e →
        scan d (first ++ second) = .error ⟨byteLength first.toList + e.offset, e.remaining⟩ := by
  constructor
  · intro e h
    rw [scan, String.toList_append, scanFrom_append_of_error h, String.ofList_toList]
  · intro ts h hfuses
    have happend : scan d (first ++ second) =
        (scanFrom d (byteLength first.toList + 0) second.toList).map (ts ++ ·) := by
      rw [scan, String.toList_append, scanFrom_append (Splits.of_scanFrom h) hfuses, Nat.zero_add,
        Nat.add_zero]
    rw [happend, scanFrom_add]
    constructor
    · intro us hsecond
      rw [scan] at hsecond
      rw [hsecond]
      rfl
    · intro e hsecond
      rw [scan] at hsecond
      rw [hsecond]
      rfl

theorem scan_append_lineBreak :
    (scan .worded "x a_" = .error ⟨2, "a_"⟩ ∧ scan .worded ("x a_" ++ "b") = .error ⟨2, "a_b"⟩) ∧
    fuses "f>\r".toList "\n=1".toList = false ∧
    scan .braced ("f>\r" ++ "\n=1") =
      .ok [⟨.identifier, "f", 0⟩, ⟨.operator, ">", 1⟩, ⟨.operator, "=", 4⟩, ⟨.integer, "1", 5⟩] ∧
    scan .braced ("f>\r" ++ "\n= é") = .error ⟨6, "é"⟩ := by
  have hword : scan .worded "x a_" = .error ⟨2, "a_"⟩ := by
    decide +kernel
  have hfirst : scan .braced "f>\r" = .ok [⟨.identifier, "f", 0⟩, ⟨.operator, ">", 1⟩] := by
    decide +kernel
  have hsecond : scan .braced "\n=1" = .ok [⟨.operator, "=", 1⟩, ⟨.integer, "1", 2⟩] := by
    decide +kernel
  have herror : scan .braced "\n= é" = .error ⟨3, "é"⟩ := by
    decide +kernel
  have hjoined := (scan_append .worded "x a_" "b").1 _ hword
  have hok := ((scan_append .braced "f>\r" "\n=1").2 _ hfirst (by decide)).1 _ hsecond
  have hfails := ((scan_append .braced "f>\r" "\n= é").2 _ hfirst (by decide)).2 _ herror
  exact ⟨⟨hword, hjoined⟩, by decide, hok, hfails⟩

end DefLang
