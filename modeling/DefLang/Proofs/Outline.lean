import DefLang.Definition.Render
import DefLang.Proofs.Decimal
import DefLang.Proofs.Report
import Mathlib.Tactic.SplitIfs

/-!
# Reading an outline

`UniqueFront text a` says that the text of `a` is known where it begins: what it stands in front of
does not matter, and no other text of the family begins the same whole. A quoted text ends at the
first quotation mark that is not escaped, a number or a label in front of the comma behind it. The
items of a list go on for as long as lines are indented by one more level, so a list ends where the
indentation falls back.

By induction on the expression, the outline of an expression has a unique front at each depth. So an
outline determines the definition.
-/

namespace DefLang

/-- The text of `a` at the front of a whole is not mistaken for another, whatever follows it. -/
def UniqueFront {α : Type} (text : α → String) (a : α) : Prop :=
  ∀ b rest rest', (text a).toList ++ rest = (text b).toList ++ rest' → a = b ∧ rest = rest'

namespace UniqueFront

variable {α : Type} {text : α → String} {a : α}

theorem ended (h : UniqueFront text a) (mark : String) :
    UniqueFront (fun a => text a ++ mark) a := by
  intro b rest rest' heq
  simp only [String.toList_append, List.append_assoc] at heq
  obtain ⟨rfl, hrest⟩ := h b _ _ heq
  exact ⟨rfl, List.append_cancel_left hrest⟩

theorem of_not_mem (c : Char) {mark : String} (hmark : mark.toList.head? = some c)
    (hc : ∀ a, c ∉ (text a).toList) (hinj : Function.Injective text) (a : α) :
    UniqueFront (fun a => text a ++ mark) a := by
  obtain ⟨cs, hcs⟩ := List.head?_eq_some_iff.1 hmark
  have hfront (a : α) (rest : List Char) :
      ((text a).toList ++ c :: rest).takeWhile (· != c) = (text a).toList := by
    have hall : ∀ x ∈ (text a).toList, (x != c) = true := by
      intro x hx
      exact bne_iff_ne.2 fun heq => hc a (heq ▸ hx)
    rw [List.takeWhile_append_of_pos hall]
    simp
  intro b rest rest' heq
  simp only [String.toList_append, hcs, List.append_assoc, List.cons_append] at heq
  have htext : text a = text b := by
    rw [← String.toList_inj, ← hfront a (cs ++ rest), heq, hfront]
  obtain rfl := hinj htext
  exact ⟨rfl, by simpa using heq⟩

end UniqueFront

theorem toDigits_inj {b m n : Nat} (hb : 1 < b) (hb' : b ≤ 16)
    (h : Nat.toDigits b m = Nat.toDigits b n) : m = n := by
  have hdigit : ∀ i < 16, ∀ j < 16, Nat.digitChar i = Nat.digitChar j → i = j := by decide
  induction m using Nat.strongRecOn generalizing n with
  | ind m ih =>
    have hm : m % b < b := Nat.mod_lt m (by omega)
    have hn : n % b < b := Nat.mod_lt n (by omega)
    rw [Nat.toDigits_eq_if hb, Nat.toDigits_eq_if hb (n := n)] at h
    split_ifs at h with hlt hlt' hlt'
    · exact hdigit m (by omega) n (by omega) (List.singleton_inj.1 h)
    · simpa using congrArg List.length h
    · simpa using congrArg List.length h
    · obtain ⟨hinit, hlast⟩ := List.append_inj' h rfl
      have hdiv : m / b = n / b := ih (m / b) (Nat.div_lt_self (by omega) hb) hinit
      have hmod : m % b = n % b := hdigit _ (by omega) _ (by omega) (List.singleton_inj.1 hlast)
      rw [← Nat.div_add_mod m b, hdiv, hmod, Nat.div_add_mod]

namespace Quoted

def escapes : List (Char × Char) :=
  [('\x00', '0'), ('\t', 't'), ('\n', 'n'), ('\r', 'r'), ('"', '"'), ('\\', '\\')]

theorem mem_escapes_of_shortEscape? {c letter : Char} (h : shortEscape? c = some letter) :
    (c, letter) ∈ escapes := by
  unfold shortEscape? at h
  split at h <;> cases h <;> decide

theorem encodeChar_cases (c : Char) :
    (∃ letter, (c, letter) ∈ escapes ∧ encodeChar c = ['\\', letter]) ∨
      encodeChar c = ['\\', 'u', '\x7b'] ++ (Nat.toDigits 16 c.toNat ++ ['\x7d']) ∨
      c ≠ '"' ∧ c ≠ '\\' ∧ encodeChar c = [c] := by
  rw [encodeChar]
  cases hshort : shortEscape? c with
  | some letter => exact .inl ⟨letter, mem_escapes_of_shortEscape? hshort, rfl⟩
  | none =>
    by_cases hhidden : isHidden c = true
    · exact .inr (.inl (by simp [hhidden]))
    · refine .inr (.inr ⟨?_, ?_, by simp [hhidden]⟩)
      · rintro rfl
        cases hshort
      · rintro rfl
        cases hshort

theorem encodeChar_uniqueFront (c : Char) :
    UniqueFront (fun c => String.ofList (encodeChar c)) c := by
  have hletters : ∀ p ∈ escapes, p.2 ≠ 'u' ∧ ∀ q ∈ escapes, p.2 = q.2 → p.1 = q.1 := by decide
  have hhex :
      UniqueFront (fun c : Char => String.ofList (Nat.toDigits 16 c.toNat) ++ "\x7d") c := by
    apply UniqueFront.of_not_mem '\x7d' rfl
    · intro a hmem
      rw [String.toList_ofList] at hmem
      obtain ⟨k, hk⟩ := mem_toDigits (by decide) hmem
      simp at hk
    · intro a b heq
      exact Char.toNat_inj.1 (toDigits_inj (by decide) (by decide) (String.ofList_injective heq))
  intro c' rest rest' heq
  -- The first character tells a plain one from an escape, the second one the two kinds of escape.
  rcases encodeChar_cases c with ⟨letter, hletter, hc⟩ | hc | ⟨-, hslash, hc⟩ <;>
    rcases encodeChar_cases c' with ⟨letter', hletter', hc'⟩ | hc' | ⟨-, hslash', hc'⟩ <;>
    simp only [String.toList_ofList, hc, hc', List.cons_append, List.nil_append, List.append_assoc,
      List.cons.injEq] at heq
  · exact ⟨(hletters _ hletter).2 _ hletter' heq.2.1, heq.2.2⟩
  · exact absurd heq.2.1 (hletters _ hletter).1
  · exact absurd heq.1.symm hslash'
  · exact absurd heq.2.1.symm (hletters _ hletter').1
  · exact hhex c' rest rest' (by simpa using heq)
  · exact absurd heq.1.symm hslash'
  · exact absurd heq.1 hslash
  · exact absurd heq.1 hslash
  · exact heq

theorem flatMap_encodeChar_append_inj {cs cs' rest rest' : List Char}
    (h : cs.flatMap encodeChar ++ '"' :: rest = cs'.flatMap encodeChar ++ '"' :: rest') :
    cs = cs' ∧ rest = rest' := by
  -- Of the quotation marks only the one at the end is not escaped.
  have hquote (c : Char) (more rest : List Char) : '"' :: rest ≠ encodeChar c ++ more := by
    intro heq
    rcases encodeChar_cases c with ⟨letter, -, hc⟩ | hc | ⟨hne, -, hc⟩ <;>
      simp only [hc, List.cons_append, List.cons.injEq] at heq
    · exact absurd heq.1 (by decide)
    · exact absurd heq.1 (by decide)
    · exact hne heq.1.symm
  induction cs generalizing cs' with
  | nil =>
    cases cs' with
    | nil => simpa using h
    | cons c' cs' =>
      rw [List.flatMap_nil, List.nil_append, List.flatMap_cons, List.append_assoc] at h
      exact absurd h (hquote c' _ _)
  | cons c cs ih =>
    rw [List.flatMap_cons, List.append_assoc] at h
    cases cs' with
    | nil => exact absurd h.symm (hquote c _ _)
    | cons c' cs' =>
      rw [List.flatMap_cons, List.append_assoc] at h
      obtain ⟨rfl, htail⟩ := encodeChar_uniqueFront c c' _ _ (by simpa using h)
      obtain ⟨rfl, hrest⟩ := ih htail
      exact ⟨rfl, hrest⟩

end Quoted

theorem quote_uniqueFront (text : String) : UniqueFront quote text := by
  intro text' rest rest' heq
  simp only [quote, Quoted.encode, String.toList_ofList, List.cons_append, List.append_assoc,
    List.cons.injEq, true_and, List.nil_append] at heq
  obtain ⟨htext, hrest⟩ := Quoted.flatMap_encodeChar_append_inj heq
  exact ⟨String.toList_inj.1 htext, hrest⟩

theorem comma_not_mem_write (value : Int64) : ',' ∉ (Decimal.write value).toList := by
  have hdigits (n : Nat) : ',' ∉ Nat.toDigits 10 n := by
    intro hmem
    obtain ⟨k, hk⟩ := mem_toDigits (by decide) hmem
    simp at hk
  rcases Decimal.toList_write value with ⟨n, -, htext⟩ | ⟨n, -, htext⟩
  · rw [htext]
    exact hdigits n
  · simpa [htext] using hdigits n

theorem write_uniqueFront (value : Int64) : UniqueFront (Decimal.write · ++ ",\n") value := by
  apply UniqueFront.of_not_mem ',' rfl comma_not_mem_write
  intro a b heq
  exact Option.some.inj (by rw [← Decimal.read?_write a, ← Decimal.read?_write b, heq])

theorem label_uniqueFront (op : Operator) : UniqueFront (Operator.label · ++ ",\n") op := by
  apply UniqueFront.of_not_mem ',' rfl
  · intro a
    cases a <;> decide
  · intro a b
    cases a <;> cases b <;> decide

namespace Outline

def line (depth : Nat) (item : String) : List Char :=
  (indent (depth + 1)).toList ++ (item ++ ",\n").toList

theorem toList_indent_succ (depth : Nat) :
    (indent (depth + 1)).toList = (indent depth).toList ++ [' ', ' ', ' ', ' '] := by
  have hspaces : [' ', ' ', ' ', ' '] = List.replicate 4 ' ' := rfl
  rw [indent, indent, String.toList_ofList, String.toList_ofList, hspaces,
    List.replicate_append_replicate, Nat.mul_succ]

theorem toList_block {depth : Nat} {opening closing : String} {items : List String}
    (hne : items ≠ []) :
    (block depth opening items closing).toList =
      opening.toList ++ '\n' :: (items.flatMap (line depth) ++
        ((indent depth).toList ++ closing.toList)) := by
  have hline : line depth = fun item => (indent (depth + 1) ++ item ++ ",\n").toList := by
    funext item
    simp [line]
  simp [block, hne, hline, List.flatMap_map]

theorem toList_list_nil (depth : Nat) : (list depth []).toList = ['[', ']'] := by
  simp [list, block]

theorem toList_list_cons (depth : Nat) (item : String) (items : List String) :
    (list depth (item :: items)).toList = '[' :: '\n' ::
      ((item :: items).flatMap (line depth) ++ ((indent depth).toList ++ [']'])) := by
  rw [list, toList_block (List.cons_ne_nil item items)]
  rfl

theorem toList_record_append {depth : Nat} {name : String} {fields : List String}
    (hne : fields ≠ []) (rest : List Char) :
    (record depth name fields).toList ++ rest =
      name.toList ++ ([' ', '\x7b', '\n'] ++ (fields.flatMap (line depth) ++
        ((indent depth).toList ++ '\x7d' :: rest))) := by
  simp [record, toList_block hne]

variable {α : Type} {text : α → String}

/-- The items of a list are read off line by line, until the indentation falls back. -/
theorem lines_append_inj {depth : Nat} {xs ys : List α} {rest rest' : List Char}
    (hxs : ∀ x ∈ xs, UniqueFront (text · ++ ",\n") x)
    (h : (xs.map text).flatMap (line depth) ++ ((indent depth).toList ++ ']' :: rest) =
      (ys.map text).flatMap (line depth) ++ ((indent depth).toList ++ ']' :: rest')) :
    xs = ys ∧ rest = rest' := by
  -- The end of the list has its bracket where an item is indented further.
  have hclosing (item : String) (more rest : List Char) :
      (indent depth).toList ++ ']' :: rest ≠ line depth item ++ more := by
    simp [line, toList_indent_succ]
  induction xs generalizing ys with
  | nil =>
    cases ys with
    | nil => simpa using h
    | cons y ys =>
      rw [List.map_cons, List.flatMap_cons, List.append_assoc] at h
      exact absurd h (hclosing (text y) _ _)
  | cons x xs ih =>
    rw [List.map_cons, List.flatMap_cons, List.append_assoc] at h
    cases ys with
    | nil => exact absurd h.symm (hclosing (text x) _ _)
    | cons y ys =>
      rw [List.map_cons, List.flatMap_cons, List.append_assoc, line, line, List.append_assoc,
        List.append_assoc, List.append_cancel_left_eq] at h
      obtain ⟨rfl, htail⟩ := hxs x List.mem_cons_self y _ _ h
      obtain ⟨rfl, hrest⟩ := ih (fun z hz => hxs z (List.mem_cons_of_mem x hz)) htail
      exact ⟨rfl, hrest⟩

theorem list_uniqueFront (depth : Nat) {xs : List α}
    (hxs : ∀ x ∈ xs, UniqueFront (text · ++ ",\n") x) :
    UniqueFront (fun xs => list depth (xs.map text)) xs := by
  intro ys rest rest' heq
  cases xs with
  | nil =>
    cases ys with
    | nil => exact ⟨rfl, List.append_cancel_left heq⟩
    | cons y ys => simp [toList_list_nil, toList_list_cons] at heq
  | cons x xs =>
    cases ys with
    | nil => simp [toList_list_nil, toList_list_cons] at heq
    | cons y ys =>
      apply lines_append_inj hxs
      simpa [toList_list_cons] using heq

theorem record_uniqueFront {a : α} (h : UniqueFront (text · ++ ",\n") a) (depth : Nat)
    (name label : String) : UniqueFront (fun a => record depth name [label ++ text a]) a := by
  intro b rest rest' heq
  simp only [toList_record_append (List.cons_ne_nil _ _), List.append_cancel_left_eq,
    List.flatMap_cons, List.flatMap_nil, line, String.toList_append, List.append_assoc,
    List.nil_append] at heq
  obtain ⟨rfl, hrest⟩ := h b _ _ (by simpa using heq)
  exact ⟨rfl, by simpa using hrest⟩

end Outline

open Outline (list_uniqueFront record_uniqueFront toList_record_append)

namespace Expr

variable {depth : Nat}

theorem outline_literal_uniqueFront (value : Int64) :
    UniqueFront (outline depth) (.literal value) := by
  intro e rest rest' heq
  cases e with
  | literal value' =>
    rw [outline, outline] at heq
    obtain ⟨rfl, hrest⟩ := record_uniqueFront (write_uniqueFront value) depth _ _ _ _ _ heq
    exact ⟨rfl, hrest⟩
  | _ => simp [outline, toList_record_append] at heq

theorem outline_ref_uniqueFront (name : String) : UniqueFront (outline depth) (.ref name) := by
  intro e rest rest' heq
  cases e with
  | ref name' =>
    rw [outline, outline] at heq
    obtain ⟨rfl, hrest⟩ :=
      record_uniqueFront ((quote_uniqueFront name).ended _) depth _ _ _ _ _ heq
    exact ⟨rfl, hrest⟩
  | _ => simp [outline, toList_record_append] at heq

theorem outline_operator_uniqueFront (op : Operator) :
    UniqueFront (outline depth) (.operator op) := by
  intro e rest rest' heq
  cases e with
  | operator op' =>
    rw [outline, outline] at heq
    obtain ⟨rfl, hrest⟩ := record_uniqueFront (label_uniqueFront op) depth _ _ _ _ _ heq
    exact ⟨rfl, hrest⟩
  | _ => simp [outline, toList_record_append] at heq

theorem outline_call_uniqueFront (callee : String) {args : List Expr}
    (hargs : ∀ e ∈ args, UniqueFront (outline (depth + 2)) e) :
    UniqueFront (outline depth) (.call callee args) := by
  intro e rest rest' heq
  cases e with
  | call callee' args' =>
    simp only [outline, outlineAll_eq_map, toList_record_append (List.cons_ne_nil _ _),
      List.append_cancel_left_eq, List.flatMap_cons, List.flatMap_nil, Outline.line,
      String.toList_append, List.append_assoc, List.nil_append] at heq
    obtain ⟨rfl, hfield⟩ := quote_uniqueFront callee _ _ _ heq
    simp only [List.append_cancel_left_eq] at hfield
    obtain ⟨rfl, hrest⟩ :=
      list_uniqueFront (depth + 1) (fun e he => (hargs e he).ended _) _ _ _ hfield
    exact ⟨rfl, by simpa using hrest⟩
  | _ => simp [outline, toList_record_append] at heq

theorem outline_uniqueFront (depth : Nat) : ∀ e : Expr, UniqueFront (outline depth) e
  | .literal value => outline_literal_uniqueFront value
  | .ref name => outline_ref_uniqueFront name
  | .call callee _ =>
    outline_call_uniqueFront callee fun e _ => outline_uniqueFront (depth + 2) e
  | .operator op => outline_operator_uniqueFront op

end Expr

/-- Two definitions with one outline are one definition. -/
theorem Definition.outline_injective : Function.Injective Definition.outline := by
  intro f g heq
  have hparams : UniqueFront (fun params => Outline.list 1 (params.map quote)) f.params :=
    list_uniqueFront 1 fun p _ => (quote_uniqueFront p).ended _
  have hbody : UniqueFront (fun body => Outline.list 1 (body.map (Expr.outline 2))) f.body :=
    list_uniqueFront 1 fun e _ => (e.outline_uniqueFront 2).ended _
  have htext : f.outline.toList ++ [] = g.outline.toList ++ [] := by rw [heq]
  simp only [outline, toList_record_append (List.cons_ne_nil _ _), List.append_cancel_left_eq,
    List.flatMap_cons, List.flatMap_nil, Outline.line, String.toList_append, List.append_assoc,
    List.nil_append] at htext
  obtain ⟨hname, htext⟩ := quote_uniqueFront f.name _ _ _ htext
  simp only [List.append_cancel_left_eq] at htext
  obtain ⟨hparams, htext⟩ := hparams _ _ _ htext
  simp only [List.append_cancel_left_eq] at htext
  obtain ⟨hbody, -⟩ := hbody _ _ _ htext
  obtain ⟨name, params, body⟩ := f
  obtain ⟨name', params', body'⟩ := g
  cases hname
  cases hparams
  cases hbody
  rfl

end DefLang
