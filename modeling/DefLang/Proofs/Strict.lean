import DefLang.Proofs.Cut
import DefLang.Proofs.Source
import DefLang.Proofs.Viable
import Mathlib.Control.Monad.Basic

/-!
# Strict and lenient reading

Strict reading refuses tokens behind the definition and agrees with lenient reading in all else. So
the two differ on a source exactly when something stands behind its definition, and the source is
then repaired by cutting it in front of the token that the strict failure blames. The cut leaves the
tokens in front of it as they are, although the end of a lexeme depends on the character behind it.

What has been made of a list of tokens is not changed by tokens put behind it. A definition that
has been read stays the same, since it is spelled by tokens at the front of the list; strictly, the
first token behind it is then one too many. An error that blames a token stays the same, since the
machine stopped there. Only an error at the end of the tokens is open to what follows.
-/

namespace DefLang

open Token (scan)

/-- Parsing fails where reading does and, when it is strict, at a token behind the definition. -/
theorem Definition.parse_eq_error_iff {o : Options} {ts : List Token} {error : GrammarError} :
    parse o ts = .error error ↔ read o.dialect ts = .error error ∨
      o.strict = true ∧ ∃ f t rest, read o.dialect ts = .ok (f, t :: rest) ∧
        error = .trailing t := by
  rw [parse]
  cases hread : read o.dialect ts with
  | error error' => simp
  | ok result =>
    obtain ⟨f, rest⟩ := result
    cases rest with
    | nil => simp [pure, Except.pure]
    | cons t rest =>
      cases o.strict with
      | false => simp [pure, Except.pure]
      | true =>
        constructor
        · intro h
          cases h
          exact .inr ⟨rfl, f, t, rest, rfl, rfl⟩
        · rintro (h | ⟨-, f, t, rest, hok, rfl⟩)
          · cases h
          · cases hok
            rfl

section Strict

variable {d : Dialect} {source out : String} {failure : Failure}

theorem compile_strict_of_error (h : compile ⟨d, false⟩ source = .error failure) :
    compile ⟨d, true⟩ source = .error failure := by
  rcases compile_eq_error_iff.1 h with ⟨error, hscan, rfl⟩ | ⟨ts, error, hscan, hparse, rfl⟩
  · exact compile_of_scan_eq_error hscan
  · rcases Definition.parse_eq_error_iff.1 hparse with hread | ⟨hstrict, -⟩
    · exact compile_of_parse_eq_error hscan (Definition.parse_eq_error_iff.2 (.inl hread))
    · cases hstrict

theorem compile_lenient_of_ok (h : compile ⟨d, true⟩ source = .ok out) :
    compile ⟨d, false⟩ source = .ok out := by
  obtain ⟨ts, f, hscan, hparse, rfl⟩ := compile_eq_ok_iff.1 h
  exact compile_eq_ok_iff.2 ⟨ts, f, hscan, Definition.parse_of_strict false hparse, rfl⟩

theorem exists_leftover (h : compile ⟨d, false⟩ source = .ok out)
    (hstrict : compile ⟨d, true⟩ source = .error failure) :
    ∃ ts t rest f, scan d source = .ok (ts ++ t :: rest) ∧ Definition.Derives d ts f ∧
      f.render = out ∧ failure = .grammar (.trailing t) := by
  obtain ⟨all, f, hscan, hparse, rfl⟩ := compile_eq_ok_iff.1 h
  obtain ⟨rest, hread, -⟩ := Definition.parse_eq_ok_iff.1 hparse
  rcases compile_eq_error_iff.1 hstrict with ⟨error, hscan', -⟩ | ⟨us, error, hscan', herror, rfl⟩
  · rw [hscan] at hscan'
    cases hscan'
  · rw [hscan] at hscan'
    cases hscan'
    rcases Definition.parse_eq_error_iff.1 herror with hread' | ⟨-, g, t, more, hread', rfl⟩
    · rw [hread] at hread'
      cases hread'
    · rw [hread] at hread'
      cases hread'
      obtain ⟨ts, rfl, hderives⟩ := Definition.read_eq_ok_iff.1 hread
      exact ⟨ts, t, more, f, hscan, hderives, rfl, rfl⟩

theorem exists_repair {ts rest : List Token} {t : Token} {f : Definition}
    (hscan : scan d source = .ok (ts ++ t :: rest)) (hderives : Definition.Derives d ts f) :
    ∃ before after, splitAtByte? t.offset source.toList = some (before, after) ∧
      compile ⟨d, true⟩ (String.ofList before) = .ok f.render := by
  obtain ⟨before, after, hsource, hoffset, hbefore⟩ :=
    (scanFrom_eq_ok_iff.1 hscan).exists_before
  rw [Nat.zero_add] at hoffset
  refine ⟨before, t.lexeme.toList ++ after, ?_, ?_⟩
  · exact splitAtByte?_eq_some_iff.2 ⟨hsource, hoffset.symm⟩
  · have hsplits : Splits d 0 (String.ofList before).toList (ts ++ []) := by
      rwa [String.toList_ofList, List.append_nil]
    have hof : Definition.ofSource ⟨d, true⟩ (String.ofList before) = .ok f :=
      Definition.ofSource_eq_ok_iff.2 ⟨ts, [], hsplits, hderives, fun _ => rfl⟩
    exact map_eq_ok_iff.2 ⟨f, hof, rfl⟩

end Strict

/-- Strict compiling differs from lenient compiling only in that it refuses what stands behind the
definition, and the source in front of the token that it blames compiles to the same output. -/
theorem compile_strict_refuses_leftovers (d : Dialect) (source : String) :
    (∀ failure, compile ⟨d, false⟩ source = .error failure →
      compile ⟨d, true⟩ source = .error failure) ∧
    (∀ out, compile ⟨d, true⟩ source = .ok out → compile ⟨d, false⟩ source = .ok out) ∧
    ∀ out failure, compile ⟨d, false⟩ source = .ok out →
      compile ⟨d, true⟩ source = .error failure →
      ∃ ts t rest f before after, scan d source = .ok (ts ++ t :: rest) ∧
        Definition.Derives d ts f ∧ f.render = out ∧ failure = .grammar (.trailing t) ∧
        splitAtByte? t.offset source.toList = some (before, after) ∧
        compile ⟨d, true⟩ (String.ofList before) = .ok out := by
  refine ⟨fun failure => compile_strict_of_error, fun out => compile_lenient_of_ok, ?_⟩
  intro out failure hlenient hstrict
  obtain ⟨ts, t, rest, f, hscan, hderives, rfl, rfl⟩ := exists_leftover hlenient hstrict
  obtain ⟨before, after, hcut, hrepair⟩ := exists_repair hscan hderives
  exact ⟨ts, t, rest, f, before, after, hscan, hderives, rfl, rfl, hcut, hrepair⟩

theorem compile_strict_refuses_leftovers_operator :
    compile ⟨.braced, true⟩ "act f(" = .error (.grammar (.endOfInput .identifier)) ∧
    compile ⟨.worded, false⟩ "def f(a)a end" = .ok "def f a a end" ∧
    ∃ ts rest f before after,
      scan .braced "act f()\x7b g(1) \x7d>=2" = .ok (ts ++ ⟨.operator, ">=", 15⟩ :: rest) ∧
      Definition.Derives .braced ts f ∧ f.render = "def f  g 1 end" ∧
      splitAtByte? 15 "act f()\x7b g(1) \x7d>=2".toList = some (before, after) ∧
      compile ⟨.braced, true⟩ (String.ofList before) = .ok "def f  g 1 end" := by
  have hearly : compile ⟨.braced, false⟩ "act f(" =
      .error (.grammar (.endOfInput .identifier)) := by
    decide +kernel
  have hwhole : compile ⟨.worded, true⟩ "def f(a)a end" = .ok "def f a a end" := by
    decide +kernel
  have hlenient : compile ⟨.braced, false⟩ "act f()\x7b g(1) \x7d>=2" = .ok "def f  g 1 end" := by
    decide +kernel
  have hstrict : compile ⟨.braced, true⟩ "act f()\x7b g(1) \x7d>=2" =
      .error (.grammar (.trailing ⟨.operator, ">=", 15⟩)) := by
    decide +kernel
  obtain ⟨ts, t, rest, f, before, after, hscan, hderives, hrender, htrailing, hcut, hrepair⟩ :=
    (compile_strict_refuses_leftovers _ _).2.2 _ _ hlenient hstrict
  cases htrailing
  exact ⟨(compile_strict_refuses_leftovers _ _).1 _ hearly,
    (compile_strict_refuses_leftovers _ _).2.1 _ hwhole,
    ts, rest, f, before, after, hscan, hderives, hrender, hcut, hrepair⟩

namespace Definition

section Append

variable {d : Dialect} {ts rest : List Token} {f : Definition}

theorem read_append (h : read d ts = .ok (f, rest)) (extra : List Token) :
    read d (ts ++ extra) = .ok (f, rest ++ extra) := by
  obtain ⟨pre, rfl, hderives⟩ := read_eq_ok_iff.1 h
  exact read_eq_ok_iff.2 ⟨pre, List.append_assoc pre rest extra, hderives⟩

theorem parse_lenient_append (h : parse ⟨d, false⟩ ts = .ok f) (extra : List Token) :
    parse ⟨d, false⟩ (ts ++ extra) = .ok f := by
  obtain ⟨rest, hread, -⟩ := parse_eq_ok_iff.1 h
  exact parse_eq_ok_iff.2 ⟨rest ++ extra, read_append hread extra, by rintro ⟨⟩⟩

theorem parse_strict_append (h : parse ⟨d, true⟩ ts = .ok f) (t : Token) (extra : List Token) :
    parse ⟨d, true⟩ (ts ++ t :: extra) = .error (.trailing t) := by
  obtain ⟨rest, hread, hrest⟩ := parse_eq_ok_iff.1 h
  have hmore := read_append hread (t :: extra)
  rw [hrest rfl, List.nil_append] at hmore
  exact parse_eq_error_iff.2 (.inr ⟨rfl, f, t, extra, hmore, rfl⟩)

end Append

/-- A definition stays the same with more tokens behind it, except that strictly the first of them
is one too many; so does an error that blames a token. -/
theorem parse_append_stable (d : Dialect) (ts extra : List Token) :
    (∀ f, parse ⟨d, false⟩ ts = .ok f → parse ⟨d, false⟩ (ts ++ extra) = .ok f) ∧
    (∀ error, parse ⟨d, false⟩ ts = .error error → error.token?.isSome = true →
      parse ⟨d, false⟩ (ts ++ extra) = .error error) ∧
    (∀ error, parse ⟨d, true⟩ ts = .error error → error.token?.isSome = true →
      parse ⟨d, true⟩ (ts ++ extra) = .error error) ∧
    ∀ f, parse ⟨d, true⟩ ts = .ok f →
      (extra = [] → parse ⟨d, true⟩ (ts ++ extra) = .ok f) ∧
      ∀ t more, extra = t :: more → parse ⟨d, true⟩ (ts ++ extra) = .error (.trailing t) := by
  refine ⟨?_, ?_, ?_, ?_⟩
  · intro f h
    exact parse_lenient_append h extra
  · intro error h htoken
    exact parse_append_of_token? h htoken extra
  · intro error h htoken
    exact parse_append_of_token? h htoken extra
  · intro f h
    constructor
    · rintro rfl
      rwa [List.append_nil]
    · rintro t more rfl
      exact parse_strict_append h t more

theorem parse_append_stable_closedCall :
    parse ⟨.worded, false⟩ (closedCall ++ closedCall) = .ok ⟨"f", [], [.call "g" [.ref "x"]]⟩ ∧
    parse ⟨.worded, true⟩ (closedCall ++ []) = .ok ⟨"f", [], [.call "g" [.ref "x"]]⟩ ∧
    parse ⟨.worded, true⟩ (closedCall ++ closedCall) = .error (.trailing ⟨.keyword, "def", 0⟩) ∧
    parse ⟨.worded, true⟩ (closedCall ++ closedCall ++ closedCall) =
      .error (.trailing ⟨.keyword, "def", 0⟩) ∧
    parse ⟨.worded, false⟩ (unclosedCall ++ [⟨.closeParen, ")", 13⟩, ⟨.closer, "end", 15⟩]) =
      .error (.unexpected .closeParen ⟨.identifier, "y", 12⟩) := by
  have hlenient : parse ⟨.worded, false⟩ closedCall = .ok ⟨"f", [], [.call "g" [.ref "x"]]⟩ := by
    rw [parse_eq_run]
    rfl
  have hstrict : parse ⟨.worded, true⟩ closedCall = .ok ⟨"f", [], [.call "g" [.ref "x"]]⟩ := by
    rw [parse_eq_run]
    rfl
  have hunclosed : parse ⟨.worded, false⟩ unclosedCall =
      .error (.unexpected .closeParen ⟨.identifier, "y", 12⟩) := by
    rw [parse_eq_run]
    rfl
  have htrailing := ((parse_append_stable _ _ closedCall).2.2.2 _ hstrict).2 _ _ rfl
  refine ⟨?_, ?_, htrailing, ?_, ?_⟩
  · exact (parse_append_stable _ _ _).1 _ hlenient
  · exact ((parse_append_stable _ _ _).2.2.2 _ hstrict).1 rfl
  · exact (parse_append_stable _ _ _).2.2.1 _ htrailing rfl
  · exact (parse_append_stable _ _ _).2.1 _ hunclosed rfl

end Definition

end DefLang
