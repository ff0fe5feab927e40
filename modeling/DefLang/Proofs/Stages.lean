import DefLang.Proofs.Outline
import DefLang.Proofs.Relabel
import DefLang.Proofs.Source
import Mathlib.Control.Monad.Basic

/-!
# What is shown of a stage

The text that is shown of a stage determines what comes of the later stages. The outline of a
definition determines the definition, in whatever dialect it was written. A listing of tokens shows
all of a token but its offset (`Token.look`), one token to a line, and parsing only hands offsets
through to the token it blames. So two sources with one listing compile to the same output, or fail
with errors that differ in this offset alone.
-/

namespace DefLang

namespace Token

/-- What a listing shows of a token. -/
def look (t : Token) : Kind × String :=
  (t.kind, t.lexeme)

def entry (look : Kind × String) : String :=
  look.1.label ++ " " ++ quote look.2

/-- The token without its place. -/
def unplaced (t : Token) : Token :=
  { t with offset := 0 }

theorem relabels_unplaced : Relabels id unplaced where
  kind _ := rfl
  name _ _ := rfl
  value _ _ := rfl

theorem map_unplaced_eq_of_look {ts us : List Token} (h : ts.map look = us.map look) :
    ts.map unplaced = us.map unplaced := by
  have hlook : unplaced = (fun shown => ⟨shown.1, shown.2, 0⟩) ∘ look := rfl
  rw [hlook, ← List.map_map, h, List.map_map]

theorem entry_uniqueFront (shown : Kind × String) : UniqueFront entry shown := by
  have hlabels : ∀ a ∈ Kind.priority, ' ' ∉ a.label.toList ∧
      ∀ b ∈ Kind.priority, a.label = b.label → a = b := by
    decide
  have hmem (kind : Kind) : kind ∈ Kind.priority := by
    cases kind <;> decide
  have hlabel (kind : Kind) : UniqueFront (Kind.label · ++ " ") kind := by
    apply UniqueFront.of_not_mem ' ' rfl (fun a => (hlabels a (hmem a)).1)
    intro a b
    exact (hlabels a (hmem a)).2 b (hmem b)
  obtain ⟨kind, lexeme⟩ := shown
  rintro ⟨kind', lexeme'⟩ rest rest' heq
  simp only [entry, String.toList_append (s := _ ++ " "), List.append_assoc] at heq
  obtain ⟨rfl, htail⟩ := hlabel kind kind' _ _ heq
  obtain ⟨rfl, hrest⟩ := quote_uniqueFront lexeme lexeme' _ _ htail
  exact ⟨rfl, hrest⟩

theorem lines_injective {α : Type} {text : α → String} (htext : ∀ a, UniqueFront text a)
    (hne : ∀ a, (text a).toList ≠ []) :
    Function.Injective fun xs : List α => "\n".intercalate (xs.map text) := by
  have hled (xs ys : List α) (heq : (xs.map text).flatMap (fun line => "\n".toList ++ line.toList) =
      (ys.map text).flatMap (fun line => "\n".toList ++ line.toList)) : xs = ys := by
    induction xs generalizing ys with
    | nil =>
      cases ys with
      | nil => rfl
      | cons y ys => simp at heq
    | cons x xs ih =>
      cases ys with
      | nil => simp at heq
      | cons y ys =>
        rw [List.map_cons, List.map_cons, List.flatMap_cons, List.flatMap_cons, List.append_assoc,
          List.append_assoc, List.append_cancel_left_eq] at heq
        obtain ⟨rfl, htail⟩ := htext x y _ _ heq
        rw [ih ys htail]
  have hempty (x : α) (xs : List α) : "\n".intercalate ((x :: xs).map text) ≠ "" := by
    intro heq
    have htoList := congrArg String.toList heq
    rw [List.map_cons, toList_intercalate_cons] at htoList
    exact hne x (List.append_eq_nil_iff.1 htoList).1
  intro xs ys heq
  cases xs with
  | nil =>
    cases ys with
    | nil => rfl
    | cons y ys => exact absurd heq.symm (hempty y ys)
  | cons x xs =>
    cases ys with
    | nil => exact absurd heq (hempty x xs)
    | cons y ys =>
      have htoList := congrArg String.toList heq
      simp only [List.map_cons, toList_intercalate_cons] at htoList
      obtain ⟨rfl, htail⟩ := htext x y _ _ htoList
      rw [hled xs ys htail]

theorem look_eq_of_listing {ts us : List Token} (h : listing ts = listing us) :
    ts.map look = us.map look := by
  have hlisting (ts : List Token) : listing ts = "\n".intercalate ((ts.map look).map entry) := by
    rw [listing, List.map_map]
    rfl
  rw [hlisting, hlisting] at h
  exact lines_injective entry_uniqueFront (fun shown => by simp [entry]) h

end Token

/-- The errors are equal but for the offset of the token to blame. -/
def GrammarError.SameButOffset (e e' : GrammarError) : Prop :=
  e.mapToken Token.unplaced = e'.mapToken Token.unplaced

instance (e e' : GrammarError) : Decidable (e.SameButOffset e') :=
  inferInstanceAs (Decidable (_ = _))

theorem Definition.parse_of_look {ts us : List Token} (h : ts.map Token.look = us.map Token.look)
    (o : Options) :
    (∃ f, parse o ts = .ok f ∧ parse o us = .ok f) ∨
      ∃ e e', parse o ts = .error e ∧ parse o us = .error e' ∧ e.SameButOffset e' := by
  have hmap : relabelOutcome Token.unplaced (rename id) (parse o ts) =
      relabelOutcome Token.unplaced (rename id) (parse o us) := by
    rw [← parse_map Token.relabels_unplaced, ← parse_map Token.relabels_unplaced,
      Token.map_unplaced_eq_of_look h]
  cases hts : parse o ts with
  | ok f =>
    cases hus : parse o us with
    | ok g =>
      rw [hts, hus] at hmap
      have hrename : f.rename id = g.rename id := Except.ok.inj hmap
      rw [rename_id, rename_id] at hrename
      exact .inl ⟨f, rfl, by rw [hrename]⟩
    | error e' =>
      rw [hts, hus] at hmap
      cases hmap
  | error e =>
    cases hus : parse o us with
    | ok g =>
      rw [hts, hus] at hmap
      cases hmap
    | error e' =>
      rw [hts, hus] at hmap
      exact .inr ⟨e, e', rfl, rfl, Except.error.inj hmap⟩

/-- What is shown of a stage determines the stages behind it. Two sources with one outline are read
as one definition and compiled to one output. Two sources with one listing have tokens that look
alike, and are compiled to one output or fail with errors that differ in the offset they blame. -/
theorem Stage.run_determines_later :
    (∀ (o o' : Options) (source source' text : String),
      outline.run o source = .ok text → outline.run o' source' = .ok text →
        ∃ f, Definition.ofSource o source = .ok f ∧ Definition.ofSource o' source' = .ok f ∧
          compile o source = .ok f.render ∧ compile o' source' = .ok f.render) ∧
      ∀ (o : Options) (source source' text : String),
        tokens.run o source = .ok text → tokens.run o source' = .ok text →
          ∃ ts us, Token.scan o.dialect source = .ok ts ∧ Token.scan o.dialect source' = .ok us ∧
            ts.map Token.look = us.map Token.look ∧
            ((∃ out, compile o source = .ok out ∧ compile o source' = .ok out) ∨
              ∃ e e', compile o source = .error (.grammar e) ∧
                compile o source' = .error (.grammar e') ∧ e.SameButOffset e') := by
  constructor
  · intro o o' source source' text h h'
    obtain ⟨f, hf, rfl⟩ := map_eq_ok_iff.1 h
    obtain ⟨g, hg, htext⟩ := map_eq_ok_iff.1 h'
    obtain rfl := Definition.outline_injective htext
    exact ⟨g, hf, hg, map_eq_ok_iff.2 ⟨g, hf, rfl⟩, map_eq_ok_iff.2 ⟨g, hg, rfl⟩⟩
  · intro o source source' text h h'
    obtain ⟨ts, hts, rfl⟩ := map_eq_ok_iff.1 h
    obtain ⟨us, hus, htext⟩ := map_eq_ok_iff.1 h'
    have hscan := mapError_eq_ok_iff.1 hts
    have hscan' := mapError_eq_ok_iff.1 hus
    have hlook := Token.look_eq_of_listing htext.symm
    refine ⟨ts, us, hscan, hscan', hlook, ?_⟩
    rcases Definition.parse_of_look hlook o with ⟨f, hf, hf'⟩ | ⟨e, e', he, he', hsame⟩
    · exact .inl ⟨f.render, compile_eq_ok_iff.2 ⟨ts, f, hscan, hf, rfl⟩,
        compile_eq_ok_iff.2 ⟨us, f, hscan', hf', rfl⟩⟩
    · exact .inr ⟨e, e', compile_of_parse_eq_error hscan he, compile_of_parse_eq_error hscan' he',
        hsame⟩

theorem Stage.run_determines_later_calls :
    (∃ text f, outline.run ⟨.worded, false⟩ "def f() g(h(), 01) end )" = .ok text ∧
      outline.run ⟨.braced, true⟩ "act f()\x7bg(h(),1)\x7d" = .ok text ∧
      Definition.ofSource ⟨.worded, false⟩ "def f() g(h(), 01) end )" = .ok f ∧
      Definition.ofSource ⟨.braced, true⟩ "act f()\x7bg(h(),1)\x7d" = .ok f) ∧
    ∃ text e e', tokens.run ⟨.worded, true⟩ "def f)" = .ok text ∧
      tokens.run ⟨.worded, true⟩ "def\n f )" = .ok text ∧
      compile ⟨.worded, true⟩ "def f)" = .error (.grammar e) ∧
      compile ⟨.worded, true⟩ "def\n f )" = .error (.grammar e') ∧ e.SameButOffset e' := by
  have houtline : outline.run ⟨.worded, false⟩ "def f() g(h(), 01) end )" =
      .ok (Definition.outline ⟨"f", [], [.call "g" [.call "h" [], .literal 1]]⟩) := by
    decide +kernel
  have houtline' : outline.run ⟨.braced, true⟩ "act f()\x7bg(h(),1)\x7d" =
      .ok (Definition.outline ⟨"f", [], [.call "g" [.call "h" [], .literal 1]]⟩) := by
    decide +kernel
  have hlisting : tokens.run ⟨.worded, true⟩ "def f)" =
      .ok "def \"def\"\nidentifier \"f\"\nclose-paren \")\"" := by
    decide +kernel
  have hlisting' : tokens.run ⟨.worded, true⟩ "def\n f )" =
      .ok "def \"def\"\nidentifier \"f\"\nclose-paren \")\"" := by
    decide +kernel
  have hfails : compile ⟨.worded, true⟩ "def f)" =
      .error (.grammar (.unexpected .openParen ⟨.closeParen, ")", 5⟩)) := by
    decide +kernel
  obtain ⟨f, hf, hf', -⟩ := run_determines_later.1 _ _ _ _ _ houtline houtline'
  obtain ⟨-, -, -, -, -, ⟨out, hout, -⟩ | ⟨e, e', he, he', hsame⟩⟩ :=
    run_determines_later.2 _ _ _ _ hlisting hlisting'
  · rw [hfails] at hout
    cases hout
  · exact ⟨⟨_, f, houtline, houtline', hf, hf'⟩, _, e, e', hlisting, hlisting', he, he', hsame⟩

end DefLang
