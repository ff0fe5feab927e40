import DefLang.Proofs.Decimal
import DefLang.Proofs.Viable

/-!
# Integer literals

`Decimal.Spells cs v` says that `cs` is a spelling of the integer `v`: digits that denote it, behind
one sign or none. Leading zeros are allowed, so an integer has many spellings, but no text spells
two integers.

An integer token is read as a literal exactly when its lexeme spells an integer of 64 bits, in a
body as well as in the calls that are open around it. Every other integer token is blamed for not
fitting, also when its lexeme spells no integer at all, and the parse fails with it wherever an
integer could stand. The rendering of a literal spells it.
-/

namespace DefLang

namespace Decimal

/-- The digits denote the number, the last of them counting the ones. -/
inductive Denotes : List Char → Nat → Prop
  | digit {k : Nat} (hk : k < 10) : Denotes [Nat.digitChar k] k
  | snoc {cs : List Char} {n k : Nat} (h : Denotes cs n) (hk : k < 10) :
      Denotes (cs ++ [Nat.digitChar k]) (10 * n + k)

/-- A spelling of an integer. -/
inductive Spells : List Char → Int → Prop
  | unsigned {cs : List Char} {n : Nat} (h : Denotes cs n) : Spells cs n
  | plus {cs : List Char} {n : Nat} (h : Denotes cs n) : Spells ('+' :: cs) n
  | minus {cs : List Char} {n : Nat} (h : Denotes cs n) : Spells ('-' :: cs) (-n)

/-- The integer fits in 64 bits with a sign. -/
def Fits (v : Int) : Prop :=
  -(Nat.pow 2 63 : Int) ≤ v ∧ v ≤ (Nat.pow 2 63 : Int) - 1

instance (v : Int) : Decidable (Fits v) :=
  inferInstanceAs (Decidable (_ ∧ _))

section Spelling

variable {cs : List Char} {n : Nat} {v : Int} {text : String} {value : Int64}

theorem Denotes.ne_nil (h : Denotes cs n) : cs ≠ [] := by
  cases h <;> simp

theorem Denotes.isDigit (h : Denotes cs n) : ∀ c ∈ cs, c.isDigit = true := by
  induction h with
  | digit hk => simpa [Nat.isDigit_digitChar] using hk
  | snoc h hk ih =>
    refine List.forall_mem_append.2 ⟨ih, ?_⟩
    simpa [Nat.isDigit_digitChar] using hk

theorem Denotes.ofDigitChars_eq (h : Denotes cs n) : Nat.ofDigitChars 10 cs 0 = n := by
  induction h with
  | digit hk => simp [Nat.ofDigitChars_cons_digitChar_of_lt_ten hk]
  | snoc h hk ih =>
    rw [Nat.ofDigitChars_append, ih, Nat.ofDigitChars_cons_digitChar_of_lt_ten hk,
      Nat.ofDigitChars_nil]

theorem Denotes.append (h : Denotes cs n) {ds : List Char} (hall : ∀ d ∈ ds, d.isDigit = true) :
    Denotes (cs ++ ds) (Nat.ofDigitChars 10 ds n) := by
  induction ds generalizing cs n with
  | nil => simpa using h
  | cons d ds ih =>
    obtain ⟨k, hk, rfl⟩ := exists_digitChar (hall d List.mem_cons_self)
    have hmore := ih (h.snoc hk) fun d hd => hall d (List.mem_cons_of_mem _ hd)
    rw [Nat.ofDigitChars_cons_digitChar_of_lt_ten hk]
    simpa using hmore

theorem denotes_ofDigitChars (hne : cs ≠ []) (hall : ∀ c ∈ cs, c.isDigit = true) :
    Denotes cs (Nat.ofDigitChars 10 cs 0) := by
  obtain ⟨c, cs, rfl⟩ := List.exists_cons_of_ne_nil hne
  obtain ⟨k, hk, rfl⟩ := exists_digitChar (hall c List.mem_cons_self)
  have hmore := (Denotes.digit hk).append fun d hd => hall d (List.mem_cons_of_mem _ hd)
  rw [Nat.ofDigitChars_cons_digitChar_of_lt_ten hk]
  simpa using hmore

theorem natural?_eq_some_iff : natural? cs = some n ↔ Denotes cs n := by
  constructor
  · intro h
    simp only [natural?, Option.ite_none_right_eq_some, Bool.and_eq_true, Bool.not_eq_true',
      List.isEmpty_eq_false_iff, List.all_eq_true, Option.some.injEq] at h
    obtain ⟨⟨hne, hall⟩, rfl⟩ := h
    exact denotes_ofDigitChars hne hall
  · intro h
    rw [natural?_of_digits h.ne_nil h.isDigit, h.ofDigitChars_eq]

theorem Spells.integer?_eq (h : Spells cs v) : integer? cs = some v := by
  cases h with
  | unsigned h => rw [integer?_of_digits h.ne_nil h.isDigit, h.ofDigitChars_eq]
  | plus h =>
    rw [integer?, natural?_eq_some_iff.2 h]
    rfl
  | minus h =>
    rw [integer?, natural?_eq_some_iff.2 h]
    rfl

theorem spells_of_integer? (h : integer? cs = some v) : Spells cs v := by
  unfold integer? at h
  split at h
  · obtain ⟨n, hn, rfl⟩ := Option.map_eq_some_iff.1 h
    exact .plus (natural?_eq_some_iff.1 hn)
  · next ds =>
    cases hn : natural? ds with
    | none =>
      rw [hn] at h
      cases h
    | some n =>
      rw [hn] at h
      cases h
      exact .minus (natural?_eq_some_iff.1 hn)
  · obtain ⟨n, hn, rfl⟩ := Option.map_eq_some_iff.1 h
    exact .unsigned (natural?_eq_some_iff.1 hn)

theorem fits_iff : Fits v ↔ Int64.minValue.toInt ≤ v ∧ v ≤ Int64.maxValue.toInt := by
  rw [Fits, Int64.toInt_minValue, Int64.toInt_maxValue]
  rfl

theorem Spells.read?_eq (h : Spells text.toList v) :
    read? text = if Fits v then some (Int64.ofInt v) else none := by
  simp only [read?_of_integer? h.integer?_eq, fits_iff]

theorem Fits.toInt_ofInt (h : Fits v) : (Int64.ofInt v).toInt = v := by
  obtain ⟨hmin, hmax⟩ := fits_iff.1 h
  rw [Int64.toInt_minValue] at hmin
  rw [Int64.toInt_maxValue] at hmax
  exact Int64.toInt_ofInt_of_le hmin (by omega)

theorem spells_of_read? (h : read? text = some value) :
    Spells text.toList value.toInt ∧ Fits value.toInt := by
  cases hinteger : integer? text.toList with
  | none =>
    rw [read?, hinteger] at h
    cases h
  | some v =>
    have hspells := spells_of_integer? hinteger
    rw [hspells.read?_eq, Option.ite_none_right_eq_some] at h
    obtain ⟨hfits, hvalue⟩ := h
    cases hvalue
    rw [hfits.toInt_ofInt]
    exact ⟨hspells, hfits⟩

theorem read?_eq_none (h : ¬ ∃ v, Spells text.toList v ∧ Fits v) : read? text = none := by
  cases hread : read? text with
  | none => rfl
  | some value => exact absurd ⟨_, spells_of_read? hread⟩ h

end Spelling

end Decimal

/-- Where one integer can be taken before the end of the definition, any integer is looked at as the
first token of an expression. -/
theorem Progress.step_integer_of_admits {o : Options} {p : Progress} {t : Token}
    (hadmits : p.Admits o .integer) (hfinish : ∀ f, p.finish ≠ .ok f) (ht : t.kind = .integer) :
    ∃ f outer, step o t p = stepExpr f outer t := by
  obtain ⟨u, q, hu, hstep⟩ := hadmits
  obtain ⟨f, awaited⟩ := p
  cases awaited with
  | body => exact ⟨f, [], by rw [step, stepBody, if_neg (by simp [ht])]⟩
  | expr outer => exact ⟨f, outer, rfl⟩
  | nameEnd name outer =>
    cases outer with
    | nil =>
      refine ⟨{ f with body := f.body ++ [.ref name] }, [], ?_⟩
      rw [step, if_neg (by simp [ht]), stepAfterExpr, stepBody, if_neg (by simp [ht])]
    | cons inner outer => simp [step, stepAfterExpr, stepArgEnd, require, hu] at hstep
  | firstArg callee outer => exact ⟨f, ⟨callee, []⟩ :: outer, by rw [step, if_neg (by simp [ht])]⟩
  | nothing => exact absurd rfl (hfinish f)
  | _ => simp [step, stepArgEnd, require, hu] at hstep

theorem Definition.parse_of_read?_eq_none {o : Options} {pre : List Token} {t u : Token}
    (hu : u.kind = .integer) (hviable : Viable o (pre ++ [u])) (hpre : ∀ f, parse o pre ≠ .ok f)
    (ht : t.kind = .integer) (hvalue : Decimal.read? t.lexeme = none) (post : List Token) :
    parse o (pre ++ t :: post) = .error (.integerTooLarge t) := by
  obtain ⟨more, g, hparse⟩ := hviable
  rw [parse_eq_run, List.append_assoc, Progress.run_append, bind_eq_ok_iff] at hparse
  obtain ⟨p, hp, hrun⟩ := hparse
  rw [List.singleton_append, Progress.run, bind_eq_ok_iff] at hrun
  obtain ⟨q, hstep, -⟩ := hrun
  have hfinish : ∀ f, p.finish ≠ .ok f := fun f hf => hpre f ((parse_of_advance hp).trans hf)
  obtain ⟨f, outer, hexpr⟩ := Progress.step_integer_of_admits ⟨u, q, hu, hstep⟩ hfinish ht
  rw [parse_eq_run, Progress.run_append, hp, ok_bind, Progress.run, hexpr, Progress.stepExpr]
  simp only [ht, hvalue, error_bind]

namespace Expr

/-- An integer token is read as a literal exactly when it spells an integer of 64 bits. If it does
not it is blamed, and the parse fails with it wherever an integer could stand in the definition. The
rendering of a literal is read back. -/
theorem readIn_integer_exact (t : Token) (ht : t.kind = .integer) :
    (∀ v : Int, (∃ value : Int64, value.toInt = v ∧
        ∀ outer ts, readIn outer (t :: ts) = resume (.literal value) outer ts) ↔
      Decimal.Spells t.lexeme.toList v ∧ Decimal.Fits v) ∧
    ((¬ ∃ v, Decimal.Spells t.lexeme.toList v ∧ Decimal.Fits v) →
      (∀ outer ts, readIn outer (t :: ts) = .error (.integerTooLarge t)) ∧
      ∀ (o : Options) (pre post : List Token) (u : Token), u.kind = .integer →
        Definition.Viable o (pre ++ [u]) → (∀ f, Definition.parse o pre ≠ .ok f) →
        Definition.parse o (pre ++ t :: post) = .error (.integerTooLarge t)) ∧
    ∀ value : Int64, t.lexeme = (Expr.literal value).render →
      ∀ outer ts, readIn outer (t :: ts) = resume (.literal value) outer ts := by
  refine ⟨fun v => ⟨?_, ?_⟩, fun hnone => ⟨?_, ?_⟩, ?_⟩
  · rintro ⟨value, rfl, hread⟩
    -- Without open calls the literal itself is the result, so its value can be told.
    have hfirst := hread [] []
    rw [readIn_integer ht, resume] at hfirst
    cases hvalue : Decimal.read? t.lexeme with
    | none =>
      rw [hvalue] at hfirst
      cases hfirst
    | some value' =>
      rw [hvalue] at hfirst
      simp only [resume] at hfirst
      cases hfirst
      exact Decimal.spells_of_read? hvalue
  · rintro ⟨hspells, hfits⟩
    refine ⟨Int64.ofInt v, hfits.toInt_ofInt, fun outer ts => ?_⟩
    rw [readIn_integer ht, hspells.read?_eq, if_pos hfits]
  · intro outer ts
    rw [readIn_integer ht, Decimal.read?_eq_none hnone]
  · intro o pre post u hu hviable hpre
    exact Definition.parse_of_read?_eq_none hu hviable hpre ht (Decimal.read?_eq_none hnone) post
  · intro value hlexeme outer ts
    rw [readIn_integer ht, hlexeme, render, Decimal.read?_write]

theorem readIn_integer_exact_limits :
    (∃ value : Int64, value.toInt = -9223372036854775808 ∧
      ∀ outer ts, readIn outer (⟨.integer, "-09223372036854775808", 10⟩ :: ts) =
        resume (.literal value) outer ts) ∧
    Definition.parse ⟨.worded, false⟩
        (Definition.unclosedCall.take 6 ++ [⟨.integer, "+9223372036854775808", 10⟩]) =
      .error (.integerTooLarge ⟨.integer, "+9223372036854775808", 10⟩) ∧
    (∀ outer ts, readIn outer (⟨.integer, "-", 10⟩ :: ts) =
      .error (.integerTooLarge ⟨.integer, "-", 10⟩)) ∧
    ∀ outer ts, readIn outer (⟨.integer, "-9223372036854775808", 10⟩ :: ts) =
      resume (.literal Int64.minValue) outer ts := by
  refine ⟨?_, ?_, ?_, ?_⟩
  · have hspells : Decimal.Spells "-09223372036854775808".toList (-9223372036854775808) :=
      Decimal.spells_of_integer? (by decide)
    exact ((readIn_integer_exact ⟨.integer, "-09223372036854775808", 10⟩ rfl).1 _).2
      ⟨hspells, by decide⟩
  · have hnone : ¬ ∃ v, Decimal.Spells "+9223372036854775808".toList v ∧ Decimal.Fits v := by
      rintro ⟨v, hspells, hfits⟩
      have hvalue : Decimal.integer? "+9223372036854775808".toList = some 9223372036854775808 := by
        decide
      cases hvalue.symm.trans hspells.integer?_eq
      exact absurd hfits (by decide)
    have hviable : Definition.Viable ⟨.worded, false⟩
        (Definition.unclosedCall.take 6 ++ [⟨.integer, "0", 10⟩]) :=
      Definition.viable_of_advance rfl
    have hopen : Definition.parse ⟨.worded, false⟩ (Definition.unclosedCall.take 6) =
        .error (.endOfInput .closeParen) := by
      rw [Definition.parse_eq_run]
      rfl
    exact ((readIn_integer_exact ⟨.integer, "+9223372036854775808", 10⟩ rfl).2.1 hnone).2
      _ _ [] _ rfl hviable (by simp [hopen])
  · refine ((readIn_integer_exact ⟨.integer, "-", 10⟩ rfl).2.1 ?_).1
    rintro ⟨v, hspells, -⟩
    cases hspells.integer?_eq
  · exact (readIn_integer_exact ⟨.integer, "-9223372036854775808", 10⟩ rfl).2.2 _ (by decide)

end Expr

end DefLang
