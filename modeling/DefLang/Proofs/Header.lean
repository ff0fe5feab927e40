import DefLang.Proofs.Grammar
import DefLang.Proofs.Progress

/-!
# Behind the header

Parsing reads a header, then the marker where the dialect has one, then the body. Only the marker
depends on the dialect, so the dialect with the marker reads the same definitions as the other one,
and fails in the same ways, with one more token behind the header.

The expressions of a body follow each other without separators. `Definition.Sequence ts es` says
that `ts` spells `es` in this way. Behind a header and the marker of the dialect, tokens and a
closer are parsed strictly exactly when the tokens are such a sequence, so that two bodies are put
together by putting their tokens side by side: a name at the end of the first is no call, since
nothing in a body begins with a parenthesis.
-/

namespace DefLang.Definition

open Token (expect)

/-- Parses what stands behind a header and the marker of the body. -/
def parseBody (strict : Bool) (name : String) (params : List String) (ts : List Token) :
    Except GrammarError Definition := do
  match ← readBody ts with
  | (body, []) => return ⟨name, params, body⟩
  | (body, t :: _) => if strict then throw (.trailing t) else return ⟨name, params, body⟩

theorem parse_eq_header_bind (o : Options) (ts : List Token) :
    parse o ts = readHeader ts >>= fun h =>
      readOpener o.dialect h.2.2 >>= parseBody o.strict h.1 h.2.1 := by
  simp only [parse, read_eq_header_bind, bind_assoc, pure_bind]
  refine bind_congr fun h => bind_congr fun rest => bind_congr fun body => ?_
  rcases body with ⟨es, _ | ⟨t, more⟩⟩
  · rfl
  · rfl

theorem not_header_of_readHeader {ts : List Token} {error : GrammarError}
    (h : readHeader ts = .error error) (header : List Token) (name : String)
    (params : List String) (hfront : header <+: ts) : ¬ Header header name params := by
  intro hheader
  obtain ⟨rest, rfl⟩ := hfront
  rw [readHeader_eq_ok_iff.2 ⟨header, rfl, hheader⟩] at h
  cases h

section Dialects

variable {header : List Token} {name : String} {params : List String}

theorem Header.parse_append (h : Header header name params) (o : Options) (rest : List Token) :
    parse o (header ++ rest) =
      readOpener o.dialect rest >>= parseBody o.strict name params := by
  rw [parse_eq_header_bind, readHeader_eq_ok_iff.2 ⟨header, rfl, h⟩, ok_bind]

theorem Header.parse_worded_append (h : Header header name params) (strict : Bool)
    (rest : List Token) :
    parse ⟨.worded, strict⟩ (header ++ rest) = parseBody strict name params rest :=
  h.parse_append ⟨.worded, strict⟩ rest

theorem Header.parse_braced_append (h : Header header name params) (strict : Bool)
    (rest : List Token) :
    parse ⟨.braced, strict⟩ (header ++ rest) =
      expect .opener rest >>= fun r => parseBody strict name params r.2 := by
  have hopener : readOpener .braced rest = (expect .opener rest).map Prod.snd := rfl
  rw [h.parse_append ⟨.braced, strict⟩ rest, hopener]
  cases expect .opener rest with
  | error error => rfl
  | ok r => rfl

theorem exists_error_of_no_header {ts : List Token}
    (h : ∀ header name params, header <+: ts → ¬ Header header name params) :
    ∃ error, ∀ o, parse o ts = .error error := by
  cases hread : readHeader ts with
  | ok result =>
    obtain ⟨name, params, rest⟩ := result
    obtain ⟨header, rfl, hheader⟩ := readHeader_eq_ok_iff.1 hread
    exact absurd hheader (h header name params (List.prefix_append header rest))
  | error error => exact ⟨error, fun o => by rw [parse_eq_header_bind, hread, error_bind]⟩

end Dialects

/-- The dialect with a marker in front of the body parses as the other one does without the marker,
errors included. Where a header is followed by anything else the marker is missed, and where there
is no header both fail alike. -/
theorem parse_braced_requires_opener (strict : Bool) (ts : List Token) :
    (∀ header name params opener post, ts = header ++ opener :: post →
      Header header name params → opener.kind = .opener →
      parse ⟨.braced, strict⟩ ts = parse ⟨.worded, strict⟩ (header ++ post)) ∧
    (∀ name params, Header ts name params →
      parse ⟨.braced, strict⟩ ts = .error (.endOfInput .opener)) ∧
    (∀ header name params t post, ts = header ++ t :: post →
      Header header name params → t.kind ≠ .opener →
      parse ⟨.braced, strict⟩ ts = .error (.unexpected .opener t)) ∧
    ((∀ header name params, header <+: ts → ¬ Header header name params) →
      ∃ error, parse ⟨.braced, strict⟩ ts = .error error ∧
        parse ⟨.worded, strict⟩ ts = .error error) := by
  refine ⟨?_, ?_, ?_, ?_⟩
  · rintro header name params opener post rfl hheader hopener
    rw [hheader.parse_braced_append, hheader.parse_worded_append, expect, if_pos hopener, ok_bind]
  · intro name params hheader
    have hparse := hheader.parse_braced_append strict []
    rwa [List.append_nil] at hparse
  · rintro header name params t post rfl hheader ht
    rw [hheader.parse_braced_append, expect, if_neg ht, error_bind]
  · intro hnone
    obtain ⟨error, herror⟩ := exists_error_of_no_header hnone
    exact ⟨error, herror _, herror _⟩

/-- The tokens of `act f(a, b)`. -/
def twoParams : List Token :=
  [⟨.keyword, "act", 0⟩, ⟨.identifier, "f", 4⟩, ⟨.openParen, "(", 5⟩, ⟨.identifier, "a", 6⟩,
    ⟨.comma, ",", 7⟩, ⟨.identifier, "b", 9⟩, ⟨.closeParen, ")", 10⟩]

theorem header_twoParams : Header twoParams "f" ["a", "b"] := by
  obtain ⟨header, heq, hheader⟩ :=
    readHeader_eq_ok_iff.1 (rfl : readHeader twoParams = .ok ("f", ["a", "b"], []))
  rwa [heq, List.append_nil]

theorem parse_braced_requires_opener_twoParams :
    parse ⟨.braced, true⟩
        (twoParams ++ [⟨.opener, "\x7b", 12⟩, ⟨.closer, "\x7d", 13⟩, ⟨.comma, ",", 14⟩]) =
      parse ⟨.worded, true⟩ (twoParams ++ [⟨.closer, "\x7d", 13⟩, ⟨.comma, ",", 14⟩]) ∧
    parse ⟨.braced, true⟩ twoParams = .error (.endOfInput .opener) ∧
    parse ⟨.braced, true⟩ (twoParams ++ [⟨.closer, "\x7d", 12⟩]) =
      .error (.unexpected .opener ⟨.closer, "\x7d", 12⟩) ∧
    ∃ error, parse ⟨.braced, true⟩ twoParams.dropLast = .error error ∧
      parse ⟨.worded, true⟩ twoParams.dropLast = .error error := by
  have hcut : readHeader twoParams.dropLast = .error (.endOfInput .comma) := rfl
  refine ⟨?_, ?_, ?_, ?_⟩
  · exact (parse_braced_requires_opener true _).1 _ _ _ _ _ rfl header_twoParams rfl
  · exact (parse_braced_requires_opener true _).2.1 _ _ header_twoParams
  · exact (parse_braced_requires_opener true _).2.2.1 _ _ _ _ _ rfl header_twoParams (by decide)
  · exact (parse_braced_requires_opener true _).2.2.2 (not_header_of_readHeader hcut)

/-- The tokens spell the expressions one after another. -/
def Sequence (ts : List Token) (es : List Expr) : Prop :=
  ∃ body : List (List Token × Expr), ts = (body.map Prod.fst).flatten ∧ es = body.map Prod.snd ∧
    ∀ e ∈ body, Expr.Derives e.1 e.2

theorem Sequence.append {ts ts' : List Token} {es es' : List Expr} (h : Sequence ts es)
    (h' : Sequence ts' es') : Sequence (ts ++ ts') (es ++ es') := by
  obtain ⟨body, rfl, rfl, hbody⟩ := h
  obtain ⟨body', rfl, rfl, hbody'⟩ := h'
  exact ⟨body ++ body', by simp, by simp, List.forall_mem_append.2 ⟨hbody, hbody'⟩⟩

section Closed

variable {closer : Token} {ts : List Token}

theorem readBody_closer_eq_ok_iff (hcloser : closer.kind = .closer) {es : List Expr} :
    readBody (ts ++ [closer]) = .ok (es, []) ↔ Sequence ts es := by
  constructor
  · intro h
    obtain ⟨body, closer', hts, hes, hbody, -⟩ := derives_of_readBody h
    exact ⟨body, (List.append_inj' hts rfl).1, hes, hbody⟩
  · rintro ⟨body, rfl, rfl, hbody⟩
    exact readBody_append hbody hcloser []

theorem parseBody_strict_eq_ok_iff {name : String} {params : List String} {f : Definition} :
    parseBody true name params ts = .ok f ↔
      ∃ es, readBody ts = .ok (es, []) ∧ f = ⟨name, params, es⟩ := by
  rw [parseBody, bind_eq_ok_iff]
  constructor
  · rintro ⟨⟨es, rest⟩, hread, h⟩
    cases rest with
    | nil => exact ⟨es, hread, (Except.ok.inj h).symm⟩
    | cons t rest => cases h
  · rintro ⟨es, hread, rfl⟩
    exact ⟨(es, []), hread, rfl⟩

theorem Header.parse_strict_eq_ok_iff {d : Dialect} {header opener : List Token} {name : String}
    {params : List String} {f : Definition} (hheader : Header header name params)
    (hopener : opener.map Token.kind = d.openerKinds) (hcloser : closer.kind = .closer) :
    parse ⟨d, true⟩ (header ++ (opener ++ (ts ++ [closer]))) = .ok f ↔
      ∃ es, Sequence ts es ∧ f = ⟨name, params, es⟩ := by
  have hread : readOpener d (opener ++ (ts ++ [closer])) = .ok (ts ++ [closer]) :=
    readOpener_eq_ok_iff.2 ⟨opener, rfl, hopener⟩
  rw [hheader.parse_append, hread, ok_bind, parseBody_strict_eq_ok_iff]
  simp only [readBody_closer_eq_ok_iff hcloser]

end Closed

/-- Two bodies that are parsed behind a header are parsed in a row behind it, as the expressions of
the first and then those of the second. -/
theorem parse_bodies_append (d : Dialect) (header opener first second : List Token) (name : String)
    (params : List String) (closer : Token) (f g : Definition) (hheader : Header header name params)
    (hopener : opener.map Token.kind = d.openerKinds) (hcloser : closer.kind = .closer)
    (hfirst : parse ⟨d, true⟩ (header ++ opener ++ first ++ [closer]) = .ok f)
    (hsecond : parse ⟨d, true⟩ (header ++ opener ++ second ++ [closer]) = .ok g) :
    g.name = f.name ∧ g.params = f.params ∧
      parse ⟨d, true⟩ (header ++ opener ++ first ++ second ++ [closer]) =
        .ok ⟨f.name, f.params, f.body ++ g.body⟩ := by
  simp only [List.append_assoc] at hfirst hsecond ⊢
  obtain ⟨es, hes, rfl⟩ := (hheader.parse_strict_eq_ok_iff hopener hcloser).1 hfirst
  obtain ⟨es', hes', rfl⟩ := (hheader.parse_strict_eq_ok_iff hopener hcloser).1 hsecond
  refine ⟨rfl, rfl, ?_⟩
  have hall := (hheader.parse_strict_eq_ok_iff hopener hcloser).2 ⟨_, hes.append hes', rfl⟩
  rwa [List.append_assoc] at hall

def oneArgument : List Token :=
  [⟨.identifier, "b", 16⟩, ⟨.openParen, "(", 17⟩, ⟨.integer, "1", 18⟩, ⟨.closeParen, ")", 19⟩]

theorem parse_bodies_append_names :
    parse ⟨.braced, true⟩ (twoParams ++ [⟨.opener, "\x7b", 12⟩] ++ [⟨.identifier, "a", 14⟩] ++
      [⟨.closer, "\x7d", 21⟩]) = .ok ⟨"f", ["a", "b"], [.ref "a"]⟩ ∧
    parse ⟨.braced, true⟩ (twoParams ++ [⟨.opener, "\x7b", 12⟩] ++ oneArgument ++
      [⟨.closer, "\x7d", 21⟩]) = .ok ⟨"f", ["a", "b"], [.call "b" [.literal 1]]⟩ ∧
    parse ⟨.braced, true⟩ (twoParams ++ [⟨.opener, "\x7b", 12⟩] ++ [⟨.identifier, "a", 14⟩] ++
      oneArgument ++ [⟨.closer, "\x7d", 21⟩]) =
        .ok ⟨"f", ["a", "b"], [.ref "a", .call "b" [.literal 1]]⟩ := by
  have hname : parse ⟨.braced, true⟩ (twoParams ++ [⟨.opener, "\x7b", 12⟩] ++
      [⟨.identifier, "a", 14⟩] ++ [⟨.closer, "\x7d", 21⟩]) = .ok ⟨"f", ["a", "b"], [.ref "a"]⟩ := by
    rw [parse_eq_run]
    rfl
  have hcall : parse ⟨.braced, true⟩ (twoParams ++ [⟨.opener, "\x7b", 12⟩] ++ oneArgument ++
      [⟨.closer, "\x7d", 21⟩]) = .ok ⟨"f", ["a", "b"], [.call "b" [.literal 1]]⟩ := by
    rw [parse_eq_run]
    rfl
  have hrow := parse_bodies_append _ _ _ _ _ _ _ _ _ _ header_twoParams rfl rfl hname hcall
  exact ⟨hname, hcall, hrow.2.2⟩

end DefLang.Definition
