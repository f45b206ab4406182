/-!
# Text

A text is a list of characters.  Source files, names and doc comments are all
texts, so every function on them is a structural recursion.  Positions are
counted in *bytes* of the UTF-8 form.  A byte position is a *boundary* of a
text when it is the size of one of its initial segments, and `cut?` splits a
text at a boundary and at nothing else.

Case never carries meaning outside ASCII.  `lower` folds the ASCII letters and
`Same` compares two texts up to that folding.
-/

namespace NativeHints

/-- A text, character by character. -/
abbrev Text := List Char

namespace Text

/-! ## Size and boundaries -/

/-- The number of bytes of the UTF-8 form. -/
def size : Text → Nat
  | [] => 0
  | c :: t => c.utf8Size + size t

/-- The search for a boundary, with the characters already passed, last first. -/
def cutFrom (passed : Text) : Text → Nat → Option (Text × Text)
  | t, 0 => some (passed.reverse, t)
  | [], _ + 1 => none
  | c :: t, n + 1 =>
      if c.utf8Size ≤ n + 1 then cutFrom (c :: passed) t (n + 1 - c.utf8Size) else none

/-- The two parts of a text around a byte position.  There are none when the
position lies beyond the end or inside a character. -/
def cut? (t : Text) (position : Nat) : Option (Text × Text) := cutFrom [] t position

/-- Whether a byte position lies between two characters, or at an end. -/
def isBoundary (t : Text) (position : Nat) : Bool := (t.cut? position).isSome

@[simp] theorem size_nil : size [] = 0 := rfl

@[simp] theorem size_cons (c : Char) (t : Text) : size (c :: t) = c.utf8Size + size t := rfl

@[simp] theorem size_append (a b : Text) : size (a ++ b) = size a + size b := by
  induction a with
  | nil => simp
  | cons c t ih => simp [ih, Nat.add_assoc]

theorem cutFrom_eq_some_iff {passed t a b : Text} {n : Nat} :
    cutFrom passed t n = some (a, b) ↔
      ∃ m, a = passed.reverse ++ m ∧ t = m ++ b ∧ size m = n := by
  fun_induction cutFrom passed t n generalizing a b with
  | case1 passed t =>
      simp only [Option.some.injEq, Prod.mk.injEq]
      constructor
      · rintro ⟨rfl, rfl⟩
        exact ⟨[], by simp⟩
      · rintro ⟨m, rfl, rfl, h⟩
        cases m with
        | nil => simp
        | cons c m => have := c.utf8Size_pos; simp at h; omega
  | case2 passed n =>
      simp only [reduceCtorEq, false_iff, not_exists, not_and]
      intro m _ h
      simp_all
  | case3 passed c t n hle ih =>
      rw [ih]
      constructor
      · rintro ⟨m, rfl, rfl, h⟩
        exact ⟨c :: m, by simp, by simp, by simp; omega⟩
      · rintro ⟨m, rfl, h, hs⟩
        cases m with
        | nil => simp at hs
        | cons d m =>
            obtain ⟨rfl, rfl⟩ : c = d ∧ t = m ++ b := by simpa using h
            exact ⟨m, by simp, rfl, by simp at hs; omega⟩
  | case4 passed c t n hle =>
      simp only [reduceCtorEq, false_iff, not_exists, not_and]
      rintro m _ h hs
      cases m with
      | nil => simp at hs
      | cons d m =>
          obtain ⟨rfl, rfl⟩ : c = d ∧ t = m ++ b := by simpa using h
          simp at hs
          omega

/-- Cutting at a position gives the one split whose first part has that size. -/
theorem cut?_eq_some_iff {t a b : Text} {n : Nat} :
    t.cut? n = some (a, b) ↔ t = a ++ b ∧ size a = n := by
  simp [cut?, cutFrom_eq_some_iff]

/-! ## ASCII case -/

/-- The text with its ASCII letters in lower case. -/
def lower (t : Text) : Text := t.map Char.toLower

/-- Equality up to ASCII case. -/
def Same (a b : Text) : Prop := lower a = lower b

instance (a b : Text) : Decidable (Same a b) := inferInstanceAs (Decidable (_ = _))

theorem Same.refl (a : Text) : Same a a := rfl

theorem Same.symm {a b : Text} (h : Same a b) : Same b a := Eq.symm h

theorem Same.trans {a b c : Text} (h : Same a b) (k : Same b c) : Same a c := Eq.trans h k

/-- Whether a text is one of the given words, up to ASCII case. -/
def isOneOf (t : Text) (words : List Text) : Bool := words.any fun w => decide (Same t w)

/-! ## Searching and splitting -/

/-- The text without the given beginning, if it has it. -/
def strip? : Text → Text → Option Text
  | [], t => some t
  | _ :: _, [] => none
  | c :: p, d :: t => if c = d then strip? p t else none

/-- Whether a text begins with another. -/
def startsWith (t start : Text) : Bool := (strip? start t).isSome

/-- Whether a text occurs inside another. -/
def occursIn (part : Text) : Text → Bool
  | [] => part.isEmpty
  | c :: t => startsWith (c :: t) part || occursIn part t

/-- The parts between the occurrences of a character.  There is always one. -/
def splitOn (mark : Char) : Text → List Text
  | [] => [[]]
  | c :: t =>
      if c = mark then [] :: splitOn mark t
      else match splitOn mark t with
        | [] => [[c]]
        | part :: parts => (c :: part) :: parts

/-- The parts before and after the first occurrence of a character. -/
def splitAtFirst? (mark : Char) (t : Text) : Option (Text × Text) :=
  match t.dropWhile (· ≠ mark) with
  | [] => none
  | _ :: after => some (t.takeWhile (· ≠ mark), after)

/-- The part after the last occurrence of a character, or everything. -/
def afterLast (mark : Char) (t : Text) : Text :=
  (t.reverse.takeWhile (· ≠ mark)).reverse

/-- The text without its leading occurrences of a character. -/
def dropLeading (mark : Char) (t : Text) : Text := t.dropWhile (· = mark)

/-- The text without its trailing occurrences of a character. -/
def dropTrailing (mark : Char) (t : Text) : Text :=
  (t.reverse.dropWhile (· = mark)).reverse

/-- The decimal digits of a number. -/
def ofNat (n : Nat) : Text := Nat.toDigits 10 n

end Text

end NativeHints
