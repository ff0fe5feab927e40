/-!
# Offsets and places in a text

Offsets into a text count the bytes of its UTF-8 encoding. `splitAtByte?` cuts a text at an offset
and fails where the offset is past the end or inside a character.

A place is an offset seen by a reader: the number of its line, and that line cut in two at the
offset. Lines end at line feeds, and are counted from one.
-/

namespace DefLang

/-- The number of bytes that encode the characters `cs`. -/
def byteLength (cs : List Char) : Nat :=
  cs.foldr (fun c n => c.utf8Size + n) 0

@[simp] theorem byteLength_nil : byteLength [] = 0 := rfl

@[simp] theorem byteLength_cons (c : Char) (cs : List Char) :
    byteLength (c :: cs) = c.utf8Size + byteLength cs := rfl

@[simp] theorem byteLength_append (as bs : List Char) :
    byteLength (as ++ bs) = byteLength as + byteLength bs := by
  induction as with
  | nil => simp
  | cons a as ih => simp [ih, Nat.add_assoc]

/-- The characters in front of byte `n` and those from it on. -/
def splitAtByte? : Nat → List Char → Option (List Char × List Char)
  | 0, cs => some ([], cs)
  | _ + 1, [] => none
  | n + 1, c :: cs =>
    if c.utf8Size ≤ n + 1 then
      (splitAtByte? (n + 1 - c.utf8Size) cs).map fun (before, after) => (c :: before, after)
    else
      none

theorem splitAtByte?_eq_some_iff {n : Nat} {cs before after : List Char} :
    splitAtByte? n cs = some (before, after) ↔ cs = before ++ after ∧ byteLength before = n := by
  induction cs generalizing n before with
  | nil => cases n <;> cases before <;> simp [splitAtByte?, eq_comm]
  | cons c cs ih =>
    have hc := c.utf8Size_pos
    cases n with
    | zero =>
      cases before with
      | nil => simp [splitAtByte?, eq_comm]
      | cons b before =>
        have hb := b.utf8Size_pos
        simp [splitAtByte?]
        omega
    | succ n =>
      cases before with
      | nil => simp [splitAtByte?]
      | cons b before =>
        simp only [splitAtByte?, List.cons_append, List.cons.injEq, byteLength_cons]
        split
        · rename_i h
          simp only [Option.map_eq_some_iff, Prod.exists, Prod.mk.injEq, List.cons.injEq]
          constructor
          · rintro ⟨as, bs, hs, ⟨rfl, rfl⟩, rfl⟩
            obtain ⟨rfl, hn⟩ := ih.1 hs
            exact ⟨⟨rfl, rfl⟩, by omega⟩
          · rintro ⟨⟨rfl, rfl⟩, hn⟩
            exact ⟨before, after, ih.2 ⟨rfl, by omega⟩, ⟨rfl, rfl⟩, rfl⟩
        · rename_i h
          simp only [reduceCtorEq, false_iff, not_and, and_imp]
          rintro rfl - hn
          omega

structure Place where
  line : Nat
  /-- The characters of the line in front of the place. -/
  before : List Char
  /-- The characters of the line from the place on. -/
  after : List Char
deriving DecidableEq

namespace Place

/-- The place at byte `offset`, unless this is past the end or inside a character. -/
def find? (cs : List Char) (offset : Nat) : Option Place :=
  (splitAtByte? offset cs).map fun (before, after) =>
    { line := before.count '\n' + 1
      before := (before.reverse.takeWhile (· != '\n')).reverse
      after := after.takeWhile (· != '\n') }

def column (p : Place) : Nat :=
  p.before.length + 1

/-- The line of a place, without the carriage returns at its end. -/
def shownLine (p : Place) : List Char :=
  ((p.before ++ p.after).reverse.dropWhile (· == '\r')).reverse

end Place

end DefLang
