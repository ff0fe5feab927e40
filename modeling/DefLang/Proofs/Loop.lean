import DefLang.Proofs.Length
import Mathlib.Control.Monad.Basic
import Mathlib.Logic.Relation

/-!
# The scanning loop

`ScanState.turn` is one turn of a loop over a source: it skips blanks, measures the token at the
front of the rest, and cuts the rest behind so many bytes. A cut can fail, and a length of zero
would leave the loop where it is. Neither happens, whatever the source.

What a turn has found and what scanning finds in the rest always make up the same result
(`ScanState.result`), and each turn leaves less of the rest. So every run of the loop ends, and ends
with the result of `Token.scan`.
-/

namespace DefLang

open Token (next? scanFrom scan)

namespace Token

def EndsBy (t : Token) (place : Nat) : Prop :=
  t.offset < place ∧ t.offset + byteLength t.lexeme.toList ≤ place

theorem EndsBy.mono {t : Token} {place place' : Nat} (h : t.EndsBy place) (hle : place ≤ place') :
    t.EndsBy place' :=
  ⟨Nat.lt_of_lt_of_le h.1 hle, Nat.le_trans h.2 hle⟩

end Token

/-- Where the loop stands between two turns. -/
structure ScanState where
  found : List Token
  rest : List Char
deriving DecidableEq

/-- What a turn of the loop comes to. It is broken where the rest cannot be cut. -/
inductive Turn where
  | finished (tokens : List Token)
  | failed (error : ScanError)
  | broken
  | onward (state : ScanState)
deriving DecidableEq

def Turn.last : Except ScanError (List Token) → Turn
  | .ok tokens => finished tokens
  | .error error => failed error

def restOffset (source rest : List Char) : Nat :=
  byteLength source - byteLength rest

theorem restOffset_append {source front rest : List Char} (h : front ++ rest <:+ source) :
    restOffset source rest = restOffset source (front ++ rest) + byteLength front := by
  obtain ⟨before, rfl⟩ := h
  simp only [restOffset, byteLength_append]
  omega

theorem scanFrom_spaces {d : Dialect} {offset : Nat} {gap : List Char}
    (hgap : ∀ c ∈ gap, isSpace c = true) (cs : List Char) :
    scanFrom d offset (gap ++ cs) = scanFrom d (offset + byteLength gap) cs := by
  induction gap generalizing offset with
  | nil => rfl
  | cons c gap ih =>
    obtain ⟨hc, hgap⟩ := List.forall_mem_cons.1 hgap
    rw [List.cons_append, scanFrom_space hc, ih hgap, byteLength_cons, Nat.add_assoc]

namespace ScanState

def turn (d : Dialect) (source : List Char) (s : ScanState) : Turn :=
  let rest := s.rest.dropWhile isBlank
  if rest.isEmpty then
    .finished s.found
  else
    match Token.nextLength? d rest with
    | none => .failed ⟨restOffset source rest, String.ofList rest⟩
    | some (kind, n) =>
      match splitAtByte? n rest with
      | none => .broken
      | some (lexeme, tail) =>
        .onward
          { found := if kind = .lineBreak then s.found
              else s.found ++ [⟨kind, String.ofList lexeme, restOffset source rest⟩]
            rest := tail }

def Reached (d : Dialect) (source : List Char) : ScanState → Prop :=
  Relation.ReflTransGen (fun s s' => s.turn d source = .onward s') ⟨[], source⟩

/-- All that a turn can do: the rest is blank, or no token begins behind its blanks, or one does. -/
inductive Turns (d : Dialect) (source : List Char) (s : ScanState) : Turn → Prop
  | finished (hblank : ∀ c ∈ s.rest, isBlank c = true) : Turns d source s (.finished s.found)
  | failed {gap cs : List Char} {c : Char} (hrest : s.rest = gap ++ c :: cs)
      (hgap : ∀ c ∈ gap, isBlank c = true) (hc : isBlank c = false)
      (hnext : next? d (c :: cs) = none) :
      Turns d source s (.failed ⟨restOffset source (c :: cs), String.ofList (c :: cs)⟩)
  | onward {gap lexeme tail : List Char} {kind : Token.Kind}
      (hrest : s.rest = gap ++ (lexeme ++ tail)) (hgap : ∀ c ∈ gap, isBlank c = true)
      (hnext : next? d (lexeme ++ tail) = some (kind, lexeme)) :
      Turns d source s (.onward
        { found := if kind = .lineBreak then s.found
            else s.found ++ [⟨kind, String.ofList lexeme, restOffset source (lexeme ++ tail)⟩]
          rest := tail })

variable {d : Dialect} {source : List Char} {s s' : ScanState}

theorem turns (d : Dialect) (source : List Char) (s : ScanState) :
    Turns d source s (s.turn d source) := by
  have hrest : s.rest = s.rest.takeWhile isBlank ++ s.rest.dropWhile isBlank :=
    List.takeWhile_append_dropWhile.symm
  have hgap : ∀ c ∈ s.rest.takeWhile isBlank, isBlank c = true :=
    List.all_eq_true.1 List.all_takeWhile
  have hhead := List.head?_dropWhile_not isBlank s.rest
  rw [turn]
  generalize s.rest.dropWhile isBlank = rest at hrest hhead
  cases rest with
  | nil =>
    rw [List.append_nil] at hrest
    exact .finished (by rwa [← hrest] at hgap)
  | cons c cs =>
    cases hnext : next? d (c :: cs) with
    | none =>
      rw [Token.nextLength?_eq_none_iff.2 hnext]
      exact .failed hrest hgap (by simpa using hhead) hnext
    | some token =>
      obtain ⟨kind, lexeme⟩ := token
      obtain ⟨tail, heq, hsplit⟩ := Token.splitAtByte?_of_next? hnext
      rw [Token.nextLength?_eq_some_iff.2 ⟨lexeme, hnext, rfl⟩]
      simp only [hsplit, List.isEmpty_cons, Bool.false_eq_true, if_false]
      rw [heq] at hrest hnext ⊢
      exact .onward hrest hgap hnext

theorem turns_of_eq {turn : Turn} (h : s.turn d source = turn) : Turns d source s turn :=
  h ▸ turns d source s

theorem turn_ne_broken (d : Dialect) (source : List Char) (s : ScanState) :
    s.turn d source ≠ .broken := by
  intro h
  cases turns_of_eq h

theorem found_of_finished {ts : List Token} (h : s.turn d source = .finished ts) :
    s.found = ts := by
  cases turns_of_eq h
  rfl

theorem byteLength_rest_lt (h : s.turn d source = .onward s') :
    byteLength s'.rest < byteLength s.rest := by
  cases turns_of_eq h with
  | @onward gap lexeme tail kind hrest hgap hnext =>
    have hpos := Token.byteLength_pos_of_next? hnext
    rw [hrest, byteLength_append, byteLength_append]
    change byteLength tail < _
    omega

/-- What has been found, and what scanning finds in the rest. -/
def result (d : Dialect) (source : List Char) (s : ScanState) : Except ScanError (List Token) :=
  (scanFrom d (restOffset source s.rest) s.rest).map (s.found ++ ·)

theorem result_of_turn (hsuffix : s.rest <:+ source) (h : s.turn d source = .onward s') :
    s'.result d source = s.result d source := by
  cases turns_of_eq h with
  | @onward gap lexeme tail kind hrest hgap hnext =>
    rw [hrest] at hsuffix
    have htoken := restOffset_append hsuffix
    have htail := restOffset_append ((List.suffix_append gap _).trans hsuffix)
    rw [result, result, hrest, scanFrom_spaces fun c hc => isSpace_of_isBlank (hgap c hc), ← htoken]
    by_cases hkind : kind = .lineBreak
    · subst hkind
      have hbreaks := Token.isLineBreak_of_next? hnext
      rw [if_pos rfl, scanFrom_spaces fun c hc => isSpace_of_isLineBreak (hbreaks c hc), ← htail]
    · obtain ⟨hlexeme, rest, heq, hfuses⟩ := (Token.next?_eq_some_iff hkind).1 hnext
      obtain rfl := List.append_cancel_left heq
      simp only [if_neg hkind, scanFrom_lexeme hlexeme hfuses, ← htail]
      cases scanFrom d (restOffset source tail) tail with
      | error e => rfl
      | ok ts => exact congrArg Except.ok (List.append_assoc _ _ _)

theorem turn_eq_last (hsuffix : s.rest <:+ source) (h : ∀ s', s.turn d source ≠ .onward s') :
    s.turn d source = .last (s.result d source) := by
  have hturns := turns d source s
  rw [result]
  generalize s.turn d source = turn at h hturns
  cases hturns with
  | finished hblank =>
    have hscan : scanFrom d (restOffset source s.rest) (s.rest ++ []) = _ :=
      scanFrom_spaces (fun c hc => isSpace_of_isBlank (hblank c hc)) []
    rw [List.append_nil, scanFrom] at hscan
    rw [hscan]
    exact congrArg Turn.finished (List.append_nil _).symm
  | @failed gap cs c hrest hgap hc hnext =>
    rw [hrest] at hsuffix
    rw [hrest, scanFrom_spaces fun c hc => isSpace_of_isBlank (hgap c hc),
      ← restOffset_append hsuffix, scanFrom_of_next?_eq_none hc hnext]
    rfl
  | onward => exact absurd rfl (h _)

/-- What holds between two turns: the rest is the end of the source, the tokens that have been found
end in front of it one after the other, and nothing of the result is lost. -/
structure Sound (d : Dialect) (source : List Char) (s : ScanState) : Prop where
  isSuffix : s.rest <:+ source
  ordered : s.found.Pairwise fun t u => t.EndsBy u.offset
  endsBy : ∀ t ∈ s.found, t.EndsBy (restOffset source s.rest)
  result_eq : s.result d source = scanFrom d 0 source

theorem sound_start (d : Dialect) (source : List Char) : Sound d source ⟨[], source⟩ where
  isSuffix := List.suffix_rfl
  ordered := List.Pairwise.nil
  endsBy := by simp
  result_eq := by
    rw [result, restOffset, Nat.sub_self]
    exact congrFun Except.map_id _

theorem Sound.onward (hs : Sound d source s) (h : s.turn d source = .onward s') :
    Sound d source s' := by
  have hresult := (result_of_turn hs.isSuffix h).trans hs.result_eq
  cases turns_of_eq h with
  | @onward gap lexeme tail kind hrest hgap hnext =>
    have hsuffix := hs.isSuffix
    have hends := hs.endsBy
    rw [hrest] at hsuffix hends
    have hlexeme := (List.suffix_append gap _).trans hsuffix
    have htail := (List.suffix_append lexeme tail).trans hlexeme
    have htokenOffset := restOffset_append hsuffix
    have htailOffset := restOffset_append hlexeme
    have hfound : ∀ t ∈ s.found, t.EndsBy (restOffset source (lexeme ++ tail)) :=
      fun t ht => (hends t ht).mono (by omega)
    have hfound' : ∀ t ∈ s.found, t.EndsBy (restOffset source tail) :=
      fun t ht => (hfound t ht).mono (by omega)
    by_cases hkind : kind = .lineBreak
    · simp only [if_pos hkind] at hresult ⊢
      exact ⟨htail, hs.ordered, hfound', hresult⟩
    · simp only [if_neg hkind] at hresult ⊢
      refine ⟨htail, ?_, ?_, hresult⟩
      · refine List.pairwise_append.2 ⟨hs.ordered, List.pairwise_singleton _ _, ?_⟩
        simpa using hfound
      · have hpos := Token.byteLength_pos_of_next? hnext
        refine List.forall_mem_append.2 ⟨hfound', List.forall_mem_singleton.2 ?_⟩
        rw [Token.EndsBy, String.toList_ofList]
        dsimp only
        omega

theorem Reached.sound (h : Reached d source s) : Sound d source s := by
  induction h with
  | refl => exact sound_start d source
  | tail _ hturn ih => exact ih.onward hturn

theorem Reached.exists_last (h : Reached d source s) :
    ∃ s', Reached d source s' ∧ s'.turn d source = .last (scanFrom d 0 source) := by
  -- By induction on what is left of the source: a turn that goes on leaves less of it.
  induction hn : byteLength s.rest using Nat.strongRecOn generalizing s with
  | ind n ih =>
    by_cases honward : ∃ s', s.turn d source = .onward s'
    · obtain ⟨s', hturn⟩ := honward
      exact ih _ (hn ▸ byteLength_rest_lt hturn) (h.tail hturn) rfl
    · have hsound := h.sound
      refine ⟨s, h, ?_⟩
      rw [turn_eq_last hsound.isSuffix (not_exists.1 honward), hsound.result_eq]

end ScanState

open ScanState

/-- Scanning is safe and comes to an end. A token is an ASCII front part of the text, neither empty
nor cut inside a character. So no turn of the loop is broken, every turn leaves less of the source,
tokens follow each other without overlap, and the loop ends with the result of scanning. -/
theorem scan_loop_safe (d : Dialect) :
    (∀ (cs : List Char) (kind : Token.Kind) (n : Nat), Token.nextLength? d cs = some (kind, n) →
      1 ≤ n ∧ n ≤ byteLength cs ∧ ∃ lexeme rest, splitAtByte? n cs = some (lexeme, rest) ∧
        ∀ c ∈ lexeme, c.toNat < 128 ∧
          if kind = .lineBreak then isLineBreak c = true else isSpace c = false) ∧
    ∀ source : String,
      (∀ s, Reached d source.toList s →
        s.turn d source.toList ≠ .broken ∧
        (∀ s', s.turn d source.toList = .onward s' → byteLength s'.rest < byteLength s.rest) ∧
        s.found.Pairwise fun t u =>
          t.offset < u.offset ∧ t.offset + byteLength t.lexeme.toList ≤ u.offset) ∧
      (∃ s, Reached d source.toList s ∧ s.turn d source.toList = .last (scan d source)) ∧
      ∀ ts, scan d source = .ok ts → ts.Pairwise fun t u =>
        t.offset < u.offset ∧ t.offset + byteLength t.lexeme.toList ≤ u.offset := by
  constructor
  · intro cs kind n h
    obtain ⟨lexeme, hnext, rfl⟩ := Token.nextLength?_eq_some_iff.1 h
    obtain ⟨rest, heq, hsplit⟩ := Token.splitAtByte?_of_next? hnext
    refine ⟨Token.byteLength_pos_of_next? hnext, ?_, lexeme, rest, hsplit, fun c hc => ?_⟩
    · rw [heq, byteLength_append]
      exact Nat.le_add_right _ _
    · exact ⟨Token.toNat_lt_of_next? hnext c hc, Token.isSpace_of_next? hnext c hc⟩
  · intro source
    have hlast : ∃ s, Reached d source.toList s ∧ s.turn d source.toList = .last (scan d source) :=
      Reached.exists_last .refl
    refine ⟨fun s hs => ⟨turn_ne_broken d _ s, fun s' => byteLength_rest_lt, hs.sound.ordered⟩,
      hlast, fun ts hts => ?_⟩
    obtain ⟨s, hs, hturn⟩ := hlast
    rw [hts] at hturn
    rw [← found_of_finished hturn]
    exact hs.sound.ordered

theorem scan_loop_safe_lineBreak :
    Token.nextLength? .braced "\r\n\r日".toList = some (.lineBreak, 3) ∧
    (∃ lexeme rest, splitAtByte? 3 "\r\n\r日".toList = some (lexeme, rest) ∧
      ∀ c ∈ lexeme, c.toNat < 128 ∧ isLineBreak c = true) ∧
    Reached .worded " f>=\nx".toList ⟨[⟨.identifier, "f", 1⟩], ">=\nx".toList⟩ ∧
    ScanState.turn .worded " f>=\nx".toList ⟨[⟨.identifier, "f", 1⟩], ">=\nx".toList⟩ =
      .onward ⟨[⟨.identifier, "f", 1⟩, ⟨.operator, ">=", 2⟩], "\nx".toList⟩ ∧
    byteLength "\nx".toList < byteLength ">=\nx".toList ∧
    [⟨.identifier, "f", 1⟩, ⟨.operator, ">=", 2⟩, ⟨.identifier, "x", 5⟩].Pairwise
      fun (t u : Token) =>
        t.offset < u.offset ∧ t.offset + byteLength t.lexeme.toList ≤ u.offset := by
  have hnext : Token.nextLength? .braced "\r\n\r日".toList = some (.lineBreak, 3) := by
    decide
  have hfirst : ScanState.turn .worded " f>=\nx".toList ⟨[], " f>=\nx".toList⟩ =
      .onward ⟨[⟨.identifier, "f", 1⟩], ">=\nx".toList⟩ := by
    decide
  have hsecond : ScanState.turn .worded " f>=\nx".toList
      ⟨[⟨.identifier, "f", 1⟩], ">=\nx".toList⟩ =
      .onward ⟨[⟨.identifier, "f", 1⟩, ⟨.operator, ">=", 2⟩], "\nx".toList⟩ := by
    decide
  have hreached : Reached .worded " f>=\nx".toList ⟨[⟨.identifier, "f", 1⟩], ">=\nx".toList⟩ :=
    .single hfirst
  have hscan : scan .worded " f>=\nx" =
      .ok [⟨.identifier, "f", 1⟩, ⟨.operator, ">=", 2⟩, ⟨.identifier, "x", 5⟩] := by
    decide +kernel
  have hsafe := (scan_loop_safe .worded).2 " f>=\nx"
  refine ⟨hnext, ?_, hreached, hsecond, (hsafe.1 _ hreached).2.1 _ hsecond, hsafe.2.2 _ hscan⟩
  simpa using ((scan_loop_safe .braced).1 _ _ _ hnext).2.2

end DefLang
