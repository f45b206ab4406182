import NativeHints.Options.Config
import NativeHints.Proofs.Text

/-!
# The text of a version

What may be written for a version is said without a reader.  A number is a row of decimal
digits, perhaps behind a plus sign (`Numeral`).  A version has one or two numbers of 32 bits
with a point between them, and after a second point anything may follow
(`Version.Numbers`).  White space may stand around all of it.

Each step of reading is the only way to take a text apart as described: trimming, splitting
at points and reading a number.  So reading accepts exactly the texts of versions, and the
text that a version is printed as is one of them.
-/

namespace NativeHints

namespace Text

/-! ## Numbers -/

/-- Decimal digits, at least one, and the number that they denote. -/
structure Decimal (t : Text) (n : Nat) : Prop where
  ne_nil : t ≠ []
  digits : ∀ c ∈ t, c.isDigit = true
  value : Nat.ofDigitChars 10 t 0 = n

/-- A number as it may be written. -/
inductive Numeral : Text → Nat → Prop where
  | plain {t : Text} {n : Nat} : Decimal t n → Numeral t n
  | signed {t : Text} {n : Nat} : Decimal t n → Numeral ('+' :: t) n

theorem isDigit_iff {c : Char} : c.isDigit = true ↔ 48 ≤ c.toNat ∧ c.toNat ≤ 57 := by
  rw [Char.isDigit, Bool.and_eq_true_iff, decide_eq_true_iff, decide_eq_true_iff]
  rfl

/-- Digits are read behind any number for those in front of them. -/
theorem digits?_eq_some_iff {value n : Nat} {t : Text} :
    digits? value t = some n ↔
      (∀ c ∈ t, c.isDigit = true) ∧ Nat.ofDigitChars 10 t value = n := by
  induction t generalizing value with
  | nil => simp [digits?]
  | cons c t ih =>
      rw [digits?, digit?, Nat.ofDigitChars_cons, List.forall_mem_cons]
      by_cases hc : c.isDigit = true
      · simp [hc, ih]
      · simp [hc]

theorem not_decimal_plus (t : Text) (n : Nat) : ¬ Decimal ('+' :: t) n := by
  intro h
  have hplus : ('+').isDigit = true := h.digits '+' (List.mem_cons_self ..)
  cases hplus

theorem numeral_iff {t : Text} {n : Nat} : Numeral t n ↔ Decimal (dropPlus t) n := by
  constructor
  · rintro (h | h)
    · rw [dropPlus]
      · exact h
      · rintro rest rfl
        exact not_decimal_plus rest n h
    · exact h
  · intro h
    unfold dropPlus at h
    split at h
    · exact .signed h
    · exact .plain h

/-- Reading a number accepts what may be written for one below the bound. -/
theorem number?_eq_some_iff {bound n : Nat} {t : Text} :
    number? bound t = some n ↔ Numeral t n ∧ n < bound := by
  rw [numeral_iff, number?]
  split
  · next hnil => simpa using fun h : Decimal (dropPlus t) n => absurd hnil h.ne_nil
  · next hne =>
      rw [Option.filter_eq_some_iff, digits?_eq_some_iff]
      constructor
      · rintro ⟨⟨hdigits, hvalue⟩, hbound⟩
        exact ⟨⟨hne, hdigits, hvalue⟩, of_decide_eq_true hbound⟩
      · rintro ⟨h, hbound⟩
        exact ⟨⟨h.digits, h.value⟩, decide_eq_true hbound⟩

theorem decimal_ofNat (n : Nat) : Decimal (ofNat n) n :=
  ⟨Nat.toDigits_ne_nil, fun _ hc => isDigit_of_mem_ofNat hc, Nat.ofDigitChars_ten_toDigits⟩

theorem not_mem_ofNat {c : Char} (hc : c.isDigit = false) (n : Nat) : c ∉ ofNat n := by
  intro h
  cases hc.symm.trans (isDigit_of_mem_ofNat h)

theorem isBlank_of_isDigit {c : Char} (h : c.isDigit = true) : isBlank c = false := by
  obtain ⟨hge, hle⟩ := isDigit_iff.mp h
  simp [isBlank]
  omega

end Text

namespace Version

open Text (Trims Parts Numeral)

/-! ## Versions -/

/-- A number of 32 bits, so below 2³², as it may be written. -/
def Part (t : Text) (n : Nat) : Prop := Numeral t n ∧ n < UInt32.size

/-- The version that the parts between points give.  Only the first two count. -/
inductive Numbers : List Text → Version → Prop where
  | major {first : Text} {m : Nat} : Part first m → Numbers [first] ⟨m, 0⟩
  | minor {first second : Text} {m n : Nat} (rest : List Text) :
      Part first m → Part second n → Numbers (first :: second :: rest) ⟨m, n⟩

/-- A text that denotes a version, with white space around it perhaps. -/
def Denotes (t : Text) (v : Version) : Prop :=
  ∃ core parts, Trims t core ∧ Parts '.' core parts ∧ Numbers parts v

theorem part?_eq_some_iff {t : Text} {n : Nat} : part? t = some n ↔ Part t n :=
  Text.number?_eq_some_iff

/-- Reading is the three steps: trimming, splitting and reading the numbers. -/
theorem ofText?_eq_some_iff {t : Text} {v : Version} : ofText? t = some v ↔ Denotes t v := by
  constructor
  · intro h
    refine ⟨_, _, Text.trims_trim t, Text.parts_splitOn '.' t.trim, ?_⟩
    rw [ofText?] at h
    split at h
    · cases h
    · next major hparts =>
        obtain ⟨m, hm, rfl⟩ := Option.map_eq_some_iff.mp h
        rw [hparts]
        exact .major (part?_eq_some_iff.mp hm)
    · next major minor rest hparts =>
        obtain ⟨m, hm, h⟩ := Option.bind_eq_some_iff.mp h
        obtain ⟨n, hn, rfl⟩ := Option.map_eq_some_iff.mp h
        rw [hparts]
        exact .minor rest (part?_eq_some_iff.mp hm) (part?_eq_some_iff.mp hn)
  · rintro ⟨core, parts, hcore, hparts, h⟩
    rw [ofText?, hcore.trim_eq, hparts.splitOn_eq]
    cases h with
    | major hm => simp [part?_eq_some_iff.mpr hm]
    | minor rest hm hn => simp [part?_eq_some_iff.mpr hm, part?_eq_some_iff.mpr hn]

theorem read_eq_ok_iff {t : Text} {v : Version} : read t = .ok v ↔ Denotes t v := by
  rw [← ofText?_eq_some_iff, read]
  cases ofText? t <;> simp

/-- What a version is printed as denotes it. -/
theorem denotes_toText {v : Version} (hmajor : v.major < UInt32.size)
    (hminor : v.minor < UInt32.size) : Denotes v.toText v := by
  have hblank : ∀ c ∈ v.toText, Text.isBlank c = false := by
    intro c hc
    rcases List.mem_append.mp hc with hc | hc
    · exact Text.isBlank_of_isDigit (Text.isDigit_of_mem_ofNat hc)
    · rcases List.mem_cons.mp hc with rfl | hc
      · decide
      · exact Text.isBlank_of_isDigit (Text.isDigit_of_mem_ofNat hc)
  refine ⟨v.toText, [Text.ofNat v.major, Text.ofNat v.minor], ?_, ?_, ?_⟩
  · exact Text.trim_eq_iff.mp (Text.trim_eq_self hblank)
  · refine ⟨by simp, ?_, ?_⟩
    · rw [Text.intercalate_cons _ _ (by simp), toText]
      simp
    · have hpoint : ('.').isDigit = false := by decide
      simp [Text.not_mem_ofNat hpoint]
  · exact .minor [] ⟨.plain (Text.decimal_ofNat _), hmajor⟩ ⟨.plain (Text.decimal_ofNat _), hminor⟩

/-- The text of a version is read back, for all numbers of 32 bits.  And reading a text gives
a version exactly if the text denotes it: without the white space around it and split at
points, its first part and its second, if there is one, are digits behind a plus sign perhaps
and denote the two numbers, which are below 2³².  Without a second part the minor number is
zero.  What follows a second point does not count. -/
theorem text_read_exactly :
    (∀ major minor : UInt32,
      read (toText ⟨major.toNat, minor.toNat⟩) = .ok ⟨major.toNat, minor.toNat⟩) ∧
    ∀ (t : Text) (v : Version), read t = .ok v ↔ Denotes t v := by
  refine ⟨fun major minor => ?_, fun t v => read_eq_ok_iff⟩
  exact read_eq_ok_iff.mpr (denotes_toText major.toNat_lt_size minor.toNat_lt_size)

example : ofText? " +07.4294967295. x\n".toList = some ⟨7, 4294967295⟩ := by decide +kernel

example : ofText? "7.4294967296".toList = none ∧ ofText? "7 .4".toList = none := by decide +kernel

end Version

end NativeHints
