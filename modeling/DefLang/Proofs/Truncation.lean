import DefLang.Proofs.Header
import DefLang.Proofs.Viable

/-!
# Definitions that are cut off

A definition from which tokens are missing at the end is reported as one that has come to its end
too early, wherever it is cut: no front part of a definition is a definition, and a token that could
be blamed there would be blamed in the whole as well.

Without its closer alone, a body that ends in a name leaves the name in doubt, since an opening
parenthesis would make a call of it. Any other body is known to lack its closer.
-/

namespace DefLang.Definition

section Body

variable {t : Token} {ts : List Token} {e : Expr}

theorem readBody_name (ht : t.kind = .identifier) :
    readBody [t] = .error (.endOfLookahead .openParen 1) := by
  have hread : Expr.read [t] = .error (.endOfLookahead .openParen 1) :=
    Expr.readIn_identifier_nil ht
  rw [readBody, if_neg (by simp [ht])]
  split
  · next error herror =>
    rw [hread] at herror
    cases herror
    rfl
  · next e rest hok =>
    rw [hread] at hok
    cases hok

theorem readBody_derives (h : Expr.Derives ts e) (href : ∀ name, e ≠ .ref name) :
    readBody ts = .error (.endOfInput .closer) := by
  have hread := h.readIn_append href [] []
  rw [List.append_nil, Expr.resume] at hread
  rw [readBody_of_read hread, readBody]
  rfl

/-- What is missed behind a body that ends in this expression, or in none. -/
def missedBehind : Option Expr → GrammarError
  | some (.ref _) => .endOfLookahead .openParen 1
  | _ => .endOfInput .closer

theorem missedBehind_of_ne_ref {last : Option Expr} (h : ∀ name, last ≠ some (.ref name)) :
    missedBehind last = .endOfInput .closer := by
  unfold missedBehind
  split
  · next name => exact absurd rfl (h name)
  · rfl

theorem readBody_last (h : Expr.Derives ts e) : readBody ts = .error (missedBehind (some e)) := by
  cases e with
  | ref name =>
    cases h with
    | ref ht => exact readBody_name ht
  | literal value => exact readBody_derives h (by simp)
  | call callee args => exact readBody_derives h (by simp)
  | operator op => exact readBody_derives h (by simp)

theorem readBody_flatten {body : List (List Token × Expr)}
    (hbody : ∀ e ∈ body, Expr.Derives e.1 e.2) :
    readBody (body.map Prod.fst).flatten = .error (missedBehind (body.map Prod.snd).getLast?) := by
  rcases List.eq_nil_or_concat body with rfl | ⟨init, last, rfl⟩
  · rw [List.map_nil, List.flatten_nil, readBody]
    rfl
  · have hinit : ∀ e ∈ init, Expr.Derives e.1 e.2 := fun e he => hbody e (by simp [he])
    have hlast : Expr.Derives last.1 last.2 := hbody last (by simp)
    obtain ⟨t, ts, hts, ht, -⟩ := hlast.exists_cons
    -- The last expression is read on its own, since nothing follows that could tell what a name is.
    have hread := readBody_flatten_append hinit ht ts
    rw [← hts, readBody_last hlast] at hread
    simpa [Except.map] using hread

end Body

section Cut

variable {d : Dialect} {ts pre : List Token} {f : Definition}

theorem eq_of_parse_front {strict : Bool} {g : Definition} (h : Derives d ts f) (hpre : pre <+: ts)
    (hparse : parse ⟨d, strict⟩ pre = .ok g) : pre = ts := by
  obtain ⟨post, rfl⟩ := hpre
  obtain ⟨rest, hread, -⟩ := parse_eq_ok_iff.1 hparse
  obtain ⟨front, rfl, hfront⟩ := read_eq_ok_iff.1 hread
  have happend : front ++ (rest ++ post) = (front ++ rest ++ post) ++ [] := by simp
  have hfull : front = front ++ rest ++ post := (hfront.eq_of_append_eq h happend).1
  rw [List.append_assoc, List.self_eq_append_right] at hfull
  rw [(List.append_eq_nil_iff.1 hfull).2, List.append_nil]

theorem Derives.parse_dropLast (h : Derives d ts f) (strict : Bool) :
    parse ⟨d, strict⟩ ts.dropLast = .error (missedBehind f.body.getLast?) := by
  obtain ⟨header, opener, body, closer, rfl, hheader, hopener, hes, hbody, -⟩ :=
    derives_iff_header.1 h
  have hcut : (header ++ (opener ++ ((body.map Prod.fst).flatten ++ [closer]))).dropLast =
      header ++ (opener ++ (body.map Prod.fst).flatten) := by
    simp only [← List.append_assoc, List.dropLast_concat]
  have hread : readOpener d (opener ++ (body.map Prod.fst).flatten) =
      .ok (body.map Prod.fst).flatten :=
    readOpener_eq_ok_iff.2 ⟨opener, rfl, hopener⟩
  rw [hcut, hheader.parse_append, hread, ok_bind, parseBody, readBody_flatten hbody, error_bind,
    hes]

theorem parse_front_eq_error (strict : Bool) (h : parse ⟨d, true⟩ ts = .ok f) (hpre : pre <+: ts)
    (hne : pre ≠ ts) : ∃ error, parse ⟨d, strict⟩ pre = .error error ∧ error.token? = none := by
  cases hparse : parse ⟨d, strict⟩ pre with
  | ok g => exact absurd (eq_of_parse_front (derives_of_parse_strict h) hpre hparse) hne
  | error error =>
    -- A token that is blamed in the front part would be blamed in the whole.
    refine ⟨error, rfl, Option.not_isSome_iff_eq_none.1 fun htoken => ?_⟩
    obtain ⟨post, rfl⟩ := hpre
    have hwhole := parse_append_of_token? hparse htoken post
    rw [parse_of_strict strict h] at hwhole
    cases hwhole

end Cut

/-- A definition that is cut off anywhere is reported as ended too early. With nothing but its
closer missing, the report depends on whether its body ends in a name. -/
theorem parse_truncated (d : Dialect) (strict : Bool) (ts : List Token) (f : Definition)
    (h : parse ⟨d, true⟩ ts = .ok f) :
    (∀ pre, pre <+: ts → pre ≠ ts →
      (∃ kind, parse ⟨d, strict⟩ pre = .error (.endOfInput kind)) ∨
        ∃ kind distance, parse ⟨d, strict⟩ pre = .error (.endOfLookahead kind distance)) ∧
    (∀ name, f.body.getLast? = some (.ref name) →
      parse ⟨d, strict⟩ ts.dropLast = .error (.endOfLookahead .openParen 1)) ∧
    ((∀ name, f.body.getLast? ≠ some (.ref name)) →
      parse ⟨d, strict⟩ ts.dropLast = .error (.endOfInput .closer)) := by
  have hlast := (derives_of_parse_strict h).parse_dropLast strict
  refine ⟨?_, ?_, ?_⟩
  · intro pre hpre hne
    obtain ⟨error, herror, htoken⟩ := parse_front_eq_error strict h hpre hne
    rw [herror]
    cases error with
    | endOfInput kind => exact .inl ⟨kind, rfl⟩
    | endOfLookahead kind distance => exact .inr ⟨kind, distance, rfl⟩
    | unexpected expected found => cases htoken
    | integerTooLarge found => cases htoken
    | unknownOperator found => cases htoken
    | trailing found => cases htoken
  · intro name hname
    rw [hlast, hname]
    rfl
  · intro hname
    rw [hlast, missedBehind_of_ne_ref hname]

/-- The tokens of `def f() g(x) y end`. -/
def nameLast : List Token :=
  closedCall.dropLast ++ [⟨.identifier, "y", 13⟩, ⟨.closer, "end", 15⟩]

theorem parse_truncated_nameLast :
    parse ⟨.worded, true⟩ closedCall = .ok ⟨"f", [], [.call "g" [.ref "x"]]⟩ ∧
    parse ⟨.worded, true⟩ nameLast = .ok ⟨"f", [], [.call "g" [.ref "x"], .ref "y"]⟩ ∧
    parse ⟨.worded, false⟩ closedCall.dropLast = .error (.endOfInput .closer) ∧
    parse ⟨.worded, false⟩ nameLast.dropLast = .error (.endOfLookahead .openParen 1) ∧
    ((∃ kind, parse ⟨.worded, true⟩ (nameLast.take 7) = .error (.endOfInput kind)) ∨
      ∃ kind distance,
        parse ⟨.worded, true⟩ (nameLast.take 7) = .error (.endOfLookahead kind distance)) := by
  have hclosed : parse ⟨.worded, true⟩ closedCall = .ok ⟨"f", [], [.call "g" [.ref "x"]]⟩ := by
    rw [parse_eq_run]
    rfl
  have hname : parse ⟨.worded, true⟩ nameLast =
      .ok ⟨"f", [], [.call "g" [.ref "x"], .ref "y"]⟩ := by
    rw [parse_eq_run]
    rfl
  refine ⟨hclosed, hname, ?_, ?_, ?_⟩
  · exact (parse_truncated _ false _ _ hclosed).2.2 (by simp)
  · exact (parse_truncated _ false _ _ hname).2.1 "y" rfl
  · exact (parse_truncated _ true _ _ hname).1 _ (List.take_prefix 7 nameLast) (by decide)

end DefLang.Definition
