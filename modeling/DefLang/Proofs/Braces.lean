import DefLang.Proofs.Dialects
import Mathlib.Data.List.Forall2

/-!
# Scanning in both dialects

Where there are no braces, the two dialects scan a text alike: they cut it at the same places or
fail at the same place, and the tokens differ only in that the words of one dialect are names in the
other (`Token.Corresponds`).

A brace is a lexeme in one dialect and cannot be scanned in the other. It fuses with nothing, so the
text in front of the first brace is scanned on its own in both. Without braces in the dialect,
scanning fails there if it has not failed before, and so never later than with them.
-/

namespace DefLang

open Token (scan scanFrom)

/-- The same token in the dialect without braces and in the one with them. -/
structure Token.Corresponds (worded braced : Token) : Prop where
  lexeme : braced.lexeme = worded.lexeme
  offset : braced.offset = worded.offset
  def_word : worded.lexeme = "def" → worded.kind = .keyword ∧ braced.kind = .identifier
  end_word : worded.lexeme = "end" → worded.kind = .closer ∧ braced.kind = .identifier
  act_word : worded.lexeme = "act" → worded.kind = .identifier ∧ braced.kind = .keyword
  kind : worded.lexeme ≠ "def" → worded.lexeme ≠ "end" → worded.lexeme ≠ "act" →
    braced.kind = worded.kind

section Words

variable {d : Dialect} {t : Token}

theorem Token.Kind.IsLexeme.eq_ofWord {kind : Token.Kind} {lexeme : List Char}
    (h : kind.IsLexeme d lexeme) (hall : lexeme.all Char.isAlpha = true) :
    kind = ofWord d lexeme := by
  obtain ⟨c, cs, rfl, -⟩ := h.fits.exists_cons
  exact h.kind_eq (isLexeme_ofWord (by simp) (List.all_eq_true.1 hall))

theorem Token.Kind.ofWord_eq_identifier {word : List Char} (hkeyword : word ≠ d.keyword.toList)
    (hcloser : word ≠ d.closer.toList) : ofWord d word = identifier := by
  rw [ofWord, if_neg hkeyword, if_neg hcloser]

theorem Token.corresponds_recast (h : t.kind.IsLexeme .worded t.lexeme.toList) :
    t.Corresponds (t.recast .braced) := by
  have hword (word : String) (hall : word.toList.all Char.isAlpha = true) (heq : t.lexeme = word) :
      t.kind = .ofWord .worded word.toList ∧
        (t.recast .braced).kind = .ofWord .braced word.toList := by
    subst heq
    exact ⟨h.eq_ofWord hall, by rw [recast, if_pos hall]⟩
  refine ⟨rfl, rfl, hword "def" (by decide), hword "end" (by decide), hword "act" (by decide), ?_⟩
  intro hdef hend hact
  by_cases hall : t.lexeme.toList.all Char.isAlpha = true
  · -- A word that is reserved in neither dialect is a name in both.
    have hne {other : String} (h : t.lexeme ≠ other) : t.lexeme.toList ≠ other.toList :=
      fun heq => h (String.toList_inj.1 heq)
    have hbrace : t.lexeme.toList ≠ Dialect.braced.closer.toList := by
      intro heq
      rw [heq] at hall
      exact absurd hall (by decide)
    obtain ⟨hworded, hbraced⟩ := hword t.lexeme hall rfl
    rw [hworded, hbraced, Kind.ofWord_eq_identifier (d := .braced) (hne hact) hbrace,
      Kind.ofWord_eq_identifier (d := .worded) (hne hdef) (hne hend)]
  · rw [recast, if_neg hall]

end Words

section Text

variable {d : Dialect} {offset : Nat} {cs : List Char}

theorem Stuck.recast (h : Stuck d cs) (hbrace : ∀ c ∈ cs, isBrace c = false) (d' : Dialect) :
    Stuck d' cs := by
  refine ⟨h.exists_cons, fun kind lexeme rest hlexeme heq => ?_⟩
  have ht : (String.ofList lexeme).toList = lexeme := String.toList_ofList
  have hfree : ∀ c ∈ lexeme, isBrace c = false :=
    fun c hc => hbrace c (heq ▸ List.mem_append_left rest hc)
  have hrecast := Token.isLexeme_recast (t := ⟨kind, String.ofList lexeme, 0⟩)
    (by rwa [ht]) (by rwa [ht]) d
  rw [ht] at hrecast
  exact h.fuses _ lexeme rest hrecast heq

theorem scanFrom_recast (hbrace : ∀ c ∈ cs, isBrace c = false) (d d' : Dialect) (offset : Nat) :
    scanFrom d' offset cs = (scanFrom d offset cs).map (List.map (Token.recast d')) := by
  cases h : scanFrom d offset cs with
  | ok ts => exact scanFrom_eq_ok_iff.2 ((scanFrom_eq_ok_iff.1 h).recast hbrace d')
  | error e =>
    obtain ⟨before, rest, ts, rfl, hsplits, hfuses, hstuck, rfl⟩ := scanFrom_eq_error_iff.1 h
    obtain ⟨hbefore, hrest⟩ := List.forall_mem_append.1 hbrace
    exact scanFrom_eq_error_iff.2 ⟨before, rest, _, rfl, hsplits.recast hbefore d', hfuses,
      hstuck.recast hrest d', rfl⟩

theorem offset_bounds_of_scanFrom {e : ScanError} (h : scanFrom d offset cs = .error e) :
    offset ≤ e.offset ∧ e.offset ≤ offset + byteLength cs := by
  obtain ⟨before, rest, ts, rfl, -, -, -, rfl⟩ := scanFrom_eq_error_iff.1 h
  rw [byteLength_append]
  constructor
  · exact Nat.le_add_right _ _
  · exact Nat.add_le_add_left (Nat.le_add_right _ _) _

/-- The text in front of the first brace decides: if it can be scanned, the dialect without braces
fails at the brace and the other one goes on from there; if not, both fail in it alike. -/
theorem scan_first_brace {source : String} {before after : List Char} {brace : Char}
    (hsource : source.toList = before ++ brace :: after)
    (hbefore : ∀ c ∈ before, isBrace c = false) (hbrace : isBrace brace = true) :
    (∃ ts, scan .worded source = .error ⟨byteLength before, String.ofList (brace :: after)⟩ ∧
      scan .braced source =
        (scanFrom .braced (byteLength before) (brace :: after)).map (ts ++ ·)) ∨
    ∃ e, e.offset ≤ byteLength before ∧ scan .worded source = .error e ∧
      scan .braced source = .error e := by
  have hrecast := scanFrom_recast hbefore .braced .worded 0
  cases h : scanFrom .braced 0 before with
  | ok ts =>
    have hsplits := scanFrom_eq_ok_iff.1 h
    refine .inl ⟨ts, ?_, ?_⟩
    · exact scan_worded_of_brace hsource hbrace (hsplits.recast hbefore .worded)
    · rw [scan, hsource, scanFrom_append hsplits (fuses_brace_eq_false hbrace before after),
        Nat.zero_add]
  | error e =>
    rw [h] at hrecast
    have hbound := (offset_bounds_of_scanFrom h).2
    rw [Nat.zero_add] at hbound
    refine .inr ⟨⟨e.offset, e.remaining ++ String.ofList (brace :: after)⟩, hbound, ?_, ?_⟩
    · rw [scan, hsource, scanFrom_append_of_error hrecast]
    · rw [scan, hsource, scanFrom_append_of_error h]

end Text

/-- Without braces in a text, the two dialects fail alike or find tokens that correspond. With
braces in it, the dialect without them fails, at the first brace or where the other one fails in
front of it. -/
theorem scan_in_both_dialects (source : String) :
    ((∀ c ∈ source.toList, isBrace c = false) →
      (∃ e, scan .worded source = .error e ∧ scan .braced source = .error e) ∨
      ∃ ts us, scan .worded source = .ok ts ∧ scan .braced source = .ok us ∧
        List.Forall₂ Token.Corresponds ts us) ∧
    ∀ before brace after, source.toList = before ++ brace :: after →
      (∀ c ∈ before, isBrace c = false) → isBrace brace = true →
      ∃ e, scan .worded source = .error e ∧
        (∀ us, scan .braced source = .ok us → e.offset = byteLength before) ∧
        ∀ e', scan .braced source = .error e' → e.offset = min (byteLength before) e'.offset := by
  constructor
  · intro hbrace
    have hrecast := scanFrom_recast hbrace .worded .braced 0
    cases h : scanFrom .worded 0 source.toList with
    | error e =>
      rw [h] at hrecast
      exact .inl ⟨e, h, hrecast⟩
    | ok ts =>
      rw [h] at hrecast
      refine .inr ⟨ts, ts.map (Token.recast .braced), h, hrecast, ?_⟩
      rw [List.forall₂_map_right_iff, List.forall₂_same]
      intro t ht
      exact Token.corresponds_recast ((scanFrom_eq_ok_iff.1 h).isLexeme t ht)
  · intro before brace after hsource hbefore hbrace
    rcases scan_first_brace hsource hbefore hbrace with ⟨ts, hworded, hbraced⟩ |
      ⟨e, hbound, hworded, hbraced⟩
    · refine ⟨_, hworded, fun _ _ => rfl, fun e' he' => ?_⟩
      rw [hbraced] at he'
      cases hrest : scanFrom .braced (byteLength before) (brace :: after) with
      | ok us =>
        rw [hrest] at he'
        cases he'
      | error e =>
        rw [hrest] at he'
        cases he'
        exact (Nat.min_eq_left (offset_bounds_of_scanFrom hrest).1).symm
    · refine ⟨e, hworded, fun us hus => ?_, fun e' he' => ?_⟩
      · rw [hbraced] at hus
        cases hus
      · rw [hbraced] at he'
        cases he'
        exact (Nat.min_eq_right hbound).symm

theorem scan_in_both_dialects_words :
    (∃ ts us, scan .worded "act end x>=1 def" = .ok ts ∧ scan .braced "act end x>=1 def" = .ok us ∧
      List.Forall₂ Token.Corresponds ts us) ∧
    (∃ e, scan .worded "def 1x" = .error e ∧ scan .braced "def 1x" = .error e) ∧
    (∃ e, scan .worded "end \x7b\x7d" = .error e ∧ e.offset = 4) ∧
    (∃ e, scan .worded "end \x7b é" = .error e ∧ e.offset = min 4 6) ∧
    ∃ e, scan .worded "é \x7b" = .error e ∧ e.offset = min 3 0 := by
  have hfree (text : String) (h : (text.toList.all fun c => !isBrace c) = true) :
      ∀ c ∈ text.toList, isBrace c = false := by
    simpa using h
  refine ⟨?_, ?_, ?_, ?_, ?_⟩
  · have hscan : (scan .worded "act end x>=1 def").isOk = true := by
      decide +kernel
    rcases (scan_in_both_dialects _).1 (hfree "act end x>=1 def" (by decide)) with
      ⟨e, he, -⟩ | hboth
    · rw [he] at hscan
      cases hscan
    · exact hboth
  · have hscan : scan .worded "def 1x" = .error ⟨4, "1x"⟩ := by
      decide +kernel
    rcases (scan_in_both_dialects _).1 (hfree "def 1x" (by decide)) with hboth | ⟨ts, us, hts, -⟩
    · exact hboth
    · rw [hscan] at hts
      cases hts
  · have hscan : scan .braced "end \x7b\x7d" =
        .ok [⟨.identifier, "end", 0⟩, ⟨.opener, "\x7b", 4⟩, ⟨.closer, "\x7d", 5⟩] := by
      decide +kernel
    obtain ⟨e, he, hok, -⟩ := (scan_in_both_dialects "end \x7b\x7d").2 "end ".toList '\x7b'
      ['\x7d'] (by decide) (hfree _ (by decide)) (by decide)
    exact ⟨e, he, hok _ hscan⟩
  · have hscan : scan .braced "end \x7b é" = .error ⟨6, "é"⟩ := by
      decide +kernel
    obtain ⟨e, he, -, hmin⟩ := (scan_in_both_dialects "end \x7b é").2 "end ".toList '\x7b'
      [' ', 'é'] (by decide) (hfree _ (by decide)) (by decide)
    exact ⟨e, he, hmin _ hscan⟩
  · have hscan : scan .braced "é \x7b" = .error ⟨0, "é \x7b"⟩ := by
      decide +kernel
    obtain ⟨e, he, -, hmin⟩ := (scan_in_both_dialects "é \x7b").2 "é ".toList '\x7b' []
      (by decide) (hfree _ (by decide)) (by decide)
    exact ⟨e, he, hmin _ hscan⟩

end DefLang
