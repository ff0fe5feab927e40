import DefLang.Definition

/-!
# Spelling of integers

A string of digits is read as its value, and what is written for an integer is read back. Integers
that are not negative are written with digits alone, and digits that are read and then written lose
the zeros at their front.
-/

namespace DefLang.Decimal

theorem natural?_of_digits {cs : List Char} (hne : cs ≠ []) (hall : ∀ c ∈ cs, c.isDigit = true) :
    natural? cs = some (Nat.ofDigitChars 10 cs 0) := by
  have hdigits : cs.all Char.isDigit = true := List.all_eq_true.2 hall
  simp [natural?, hne, hdigits]

theorem integer?_of_digits {cs : List Char} (hne : cs ≠ []) (hall : ∀ c ∈ cs, c.isDigit = true) :
    integer? cs = some (Nat.ofDigitChars 10 cs 0 : Int) := by
  have hnatural := natural?_of_digits hne hall
  unfold integer?
  split
  · exact absurd (hall '+' List.mem_cons_self) (by decide)
  · exact absurd (hall '-' List.mem_cons_self) (by decide)
  · rw [hnatural]
    rfl

theorem read?_of_integer? {text : String} {value : Int} (h : integer? text.toList = some value) :
    read? text =
      if Int64.minValue.toInt ≤ value ∧ value ≤ Int64.maxValue.toInt then some (Int64.ofInt value)
      else none := by
  rw [read?, h]
  rfl

theorem toInt_of_read?_digits {text : String} {value : Int64} (hne : text.toList ≠ [])
    (hall : ∀ c ∈ text.toList, c.isDigit = true) (h : read? text = some value) :
    value.toInt = Nat.ofDigitChars 10 text.toList 0 := by
  rw [read?_of_integer? (integer?_of_digits hne hall), Option.ite_none_right_eq_some] at h
  obtain ⟨⟨hmin, hmax⟩, hvalue⟩ := h
  cases hvalue
  rw [Int64.toInt_minValue] at hmin
  rw [Int64.toInt_maxValue] at hmax
  exact Int64.toInt_ofInt_of_le hmin (by omega)

theorem nonneg_of_read?_digits {text : String} {value : Int64} (hne : text.toList ≠ [])
    (hall : ∀ c ∈ text.toList, c.isDigit = true) (h : read? text = some value) :
    0 ≤ value.toInt := by
  rw [toInt_of_read?_digits hne hall h]
  exact Int.natCast_nonneg _

theorem two_pow_le_of_read?_digits {text : String} (hne : text.toList ≠ [])
    (hall : ∀ c ∈ text.toList, c.isDigit = true) (h : read? text = none) :
    Nat.pow 2 63 ≤ Nat.ofDigitChars 10 text.toList 0 := by
  rw [read?_of_integer? (integer?_of_digits hne hall), ite_eq_right_iff] at h
  by_cases hmax : (Nat.ofDigitChars 10 text.toList 0 : Int) ≤ Int64.maxValue.toInt
  · have hmin : Int64.minValue.toInt ≤ (Nat.ofDigitChars 10 text.toList 0 : Int) :=
      Int.le_trans (by decide) (Int.natCast_nonneg _)
    cases h ⟨hmin, hmax⟩
  · have hpow : Nat.pow 2 63 = 9223372036854775808 := rfl
    rw [Int64.toInt_maxValue] at hmax
    omega

theorem toList_write_of_nonneg {value : Int64} (h : 0 ≤ value.toInt) :
    (write value).toList = Nat.toDigits 10 value.toInt.toNat := by
  obtain ⟨n, hn⟩ := Int.eq_ofNat_of_zero_le h
  rw [write, hn]
  exact Nat.toList_repr

theorem toList_write (value : Int64) :
    (∃ n : Nat, value.toInt = n ∧ (write value).toList = Nat.toDigits 10 n) ∨
      ∃ n : Nat, value.toInt = -n ∧ (write value).toList = '-' :: Nat.toDigits 10 n := by
  rw [write]
  cases value.toInt with
  | ofNat n => exact .inl ⟨n, rfl, Nat.toList_repr⟩
  | negSucc n =>
    refine .inr ⟨n.succ, rfl, ?_⟩
    rw [Int.repr, String.toList_append, Nat.toList_repr]
    rfl

theorem integer?_write (value : Int64) : integer? (write value).toList = some value.toInt := by
  have hdigits (n : Nat) : ∀ c ∈ Nat.toDigits 10 n, c.isDigit = true :=
    fun c hc => Nat.isDigit_of_mem_toDigits (by decide) (by decide) hc
  rcases toList_write value with ⟨n, hvalue, htext⟩ | ⟨n, hvalue, htext⟩
  · rw [htext, hvalue, integer?_of_digits Nat.toDigits_ne_nil (hdigits n),
      Nat.ofDigitChars_ten_toDigits]
  · rw [htext, hvalue, integer?, natural?_of_digits Nat.toDigits_ne_nil (hdigits n),
      Nat.ofDigitChars_ten_toDigits]
    rfl

theorem read?_write (value : Int64) : read? (write value) = some value := by
  rw [read?_of_integer? (integer?_write value), if_pos ⟨value.minValue_le_toInt, value.toInt_le⟩,
    Int64.ofInt_toInt]

/-- A string of digits without the zeros at its front; the last digit stays. -/
def trimZeros : List Char → List Char
  | '0' :: c :: cs => trimZeros (c :: cs)
  | cs => cs

theorem exists_digitChar {c : Char} (h : c.isDigit = true) : ∃ k < 10, c = Nat.digitChar k := by
  have hmin : 48 ≤ c.toNat := (Char.isDigit_iff_toNat.1 h).1
  have hmax : c.toNat ≤ 57 := (Char.isDigit_iff_toNat.1 h).2
  have hlt : c.toNat - 48 < 10 := by omega
  refine ⟨c.toNat - 48, hlt, Char.toNat_inj.1 ?_⟩
  rw [Nat.toNat_digitChar_of_lt_ten hlt]
  omega

theorem toDigits_append_digits {n : Nat} {cs : List Char} (hall : ∀ c ∈ cs, c.isDigit = true)
    (hn : 0 < n ∨ cs = []) :
    Nat.toDigits 10 n ++ cs = Nat.toDigits 10 (Nat.ofDigitChars 10 cs n) := by
  induction cs generalizing n with
  | nil => simp
  | cons c cs ih =>
    obtain ⟨k, hk, rfl⟩ := exists_digitChar (hall c List.mem_cons_self)
    have hpos : 0 < n := hn.resolve_right (by simp)
    rw [Nat.ofDigitChars_cons_digitChar_of_lt_ten hk,
      ← ih (fun c hc => hall c (List.mem_cons_of_mem _ hc)) (by omega),
      ← Nat.toDigits_append_toDigits (by decide) hpos hk, Nat.toDigits_of_lt_base hk,
      List.append_assoc, List.singleton_append]

theorem trimZeros_eq {cs : List Char} (hne : cs ≠ []) (hall : ∀ c ∈ cs, c.isDigit = true) :
    trimZeros cs = Nat.toDigits 10 (Nat.ofDigitChars 10 cs 0) := by
  fun_induction trimZeros cs with
  | case1 c cs ih =>
    rw [ih (by simp) fun c' hc' => hall c' (List.mem_cons_of_mem _ hc'),
      Nat.ofDigitChars_cons (c := '0')]
    rfl
  | case2 cs hlast =>
    obtain ⟨c, cs, rfl⟩ := List.exists_cons_of_ne_nil hne
    obtain ⟨k, hk, rfl⟩ := exists_digitChar (hall c List.mem_cons_self)
    have hpos : 0 < k ∨ cs = [] := by
      cases cs with
      | nil => exact .inr rfl
      | cons c cs =>
        refine .inl (Nat.pos_of_ne_zero ?_)
        rintro rfl
        exact hlast c cs rfl
    have hdigits := toDigits_append_digits (fun c hc => hall c (List.mem_cons_of_mem _ hc)) hpos
    rw [Nat.ofDigitChars_cons_digitChar_of_lt_ten hk, Nat.mul_zero, Nat.zero_add, ← hdigits,
      Nat.toDigits_of_lt_base hk, List.singleton_append]

/-- Digits that are read and written again lose the zeros at their front. -/
theorem toList_write_of_read?_digits {text : String} {value : Int64} (hne : text.toList ≠ [])
    (hall : ∀ c ∈ text.toList, c.isDigit = true) (h : read? text = some value) :
    (write value).toList = trimZeros text.toList := by
  rw [toList_write_of_nonneg (nonneg_of_read?_digits hne hall h), toInt_of_read?_digits hne hall h,
    Int.toNat_natCast, trimZeros_eq hne hall]

end DefLang.Decimal
