import NativeHints.Text.Basic

/-!
# Byte order

Texts are compared by the code points of their characters, and names on a disk by their
bytes.  The two orders are the same (`bytes_lt_iff`).  For single characters this is a property
of UTF-8: there is always a byte that tells two characters apart, and at the first one the
greater code point has the greater byte (`Encodes.lt`).
-/

namespace NativeHints.Text

/-- The bytes of the UTF-8 form. -/
def bytes (t : Text) : List UInt8 := t.flatMap String.utf8EncodeChar

@[simp] theorem bytes_nil : bytes [] = [] := rfl

@[simp] theorem bytes_cons (c : Char) (t : Text) :
    bytes (c :: t) = String.utf8EncodeChar c ++ bytes t :=
  List.flatMap_cons

/-! ## Single characters -/

/-- The bytes of a code point.  The first one tells how many there are, and the others have six
bits each. -/
inductive Encodes : Nat → List UInt8 → Prop where
  | one {v : Nat} : v < 0x80 → Encodes v [.ofNat v]
  | two {v : Nat} : 0x80 ≤ v → v < 0x800 → Encodes v [.ofNat (v / 64 + 192), .ofNat (v % 64 + 128)]
  | three {v : Nat} : 0x800 ≤ v → v < 0x10000 →
      Encodes v [.ofNat (v / 4096 + 224), .ofNat (v / 64 % 64 + 128), .ofNat (v % 64 + 128)]
  | four {v : Nat} : 0x10000 ≤ v → v < 0x110000 →
      Encodes v [.ofNat (v / 262144 + 240), .ofNat (v / 4096 % 64 + 128),
        .ofNat (v / 64 % 64 + 128), .ofNat (v % 64 + 128)]

theorem encodes_utf8EncodeChar (c : Char) : Encodes c.val.toNat (String.utf8EncodeChar c) := by
  have hvalid : c.val.toNat < 0x110000 := by
    rcases c.valid with hc | hc
    · exact Nat.lt_trans hc (by decide)
    · exact hc.2
  unfold String.utf8EncodeChar
  generalize c.val.toNat = v at hvalid
  dsimp only
  split
  · exact .one (by omega)
  · split
    · rw [Nat.mod_eq_of_lt (show v / 64 < 32 by omega)]
      exact .two (by omega) (by omega)
    · split
      · rw [Nat.mod_eq_of_lt (show v / 4096 < 16 by omega)]
        exact .three (by omega) (by omega)
      · rw [Nat.mod_eq_of_lt (show v / 262144 < 8 by omega)]
        exact .four (by omega) hvalid

/-- Bytes given as numbers are compared as numbers. -/
theorem ofNat_cons_lt {a b : Nat} {s t : List UInt8} (hb : b < 256)
    (h : a < b ∨ a = b ∧ s < t) : UInt8.ofNat a :: s < UInt8.ofNat b :: t := by
  rw [List.cons_lt_cons_iff, UInt8.lt_iff_toNat_lt, UInt8.toNat_ofNat', UInt8.toNat_ofNat']
  rcases h with h | ⟨rfl, h⟩
  · left
    omega
  · exact .inr ⟨rfl, h⟩

/-- A greater code point has greater bytes, whatever follows. -/
theorem Encodes.lt {v w : Nat} {a b : List UInt8} (ha : Encodes v a) (hb : Encodes w b)
    (h : v < w) (s t : List UInt8) : a ++ s < b ++ t := by
  -- with different numbers of bytes the first ones differ
  cases ha with
  | one => cases hb <;> exact ofNat_cons_lt (by omega) (.inl (by omega))
  | two =>
      cases hb with
      | one => omega
      | two =>
          refine ofNat_cons_lt (by omega) ?_
          by_cases hfirst : v / 64 < w / 64
          · exact .inl (by omega)
          · exact .inr ⟨by omega, ofNat_cons_lt (by omega) (.inl (by omega))⟩
      | three | four => exact ofNat_cons_lt (by omega) (.inl (by omega))
  | three =>
      cases hb with
      | one | two => omega
      | three =>
          refine ofNat_cons_lt (by omega) ?_
          by_cases hfirst : v / 4096 < w / 4096
          · exact .inl (by omega)
          · refine .inr ⟨by omega, ofNat_cons_lt (by omega) ?_⟩
            by_cases hsecond : v / 64 < w / 64
            · exact .inl (by omega)
            · exact .inr ⟨by omega, ofNat_cons_lt (by omega) (.inl (by omega))⟩
      | four => exact ofNat_cons_lt (by omega) (.inl (by omega))
  | four =>
      cases hb with
      | one | two | three => omega
      | four =>
          refine ofNat_cons_lt (by omega) ?_
          by_cases hfirst : v / 262144 < w / 262144
          · exact .inl (by omega)
          · refine .inr ⟨by omega, ofNat_cons_lt (by omega) ?_⟩
            by_cases hsecond : v / 4096 < w / 4096
            · exact .inl (by omega)
            · refine .inr ⟨by omega, ofNat_cons_lt (by omega) ?_⟩
              by_cases hthird : v / 64 < w / 64
              · exact .inl (by omega)
              · exact .inr ⟨by omega, ofNat_cons_lt (by omega) (.inl (by omega))⟩

/-! ## Texts -/

theorem bytes_lt_of_lt {a b : Text} (h : a < b) : a.bytes < b.bytes := by
  induction h with
  | @nil c b =>
      have hencodes := encodes_utf8EncodeChar c
      rw [bytes_nil, bytes_cons]
      generalize String.utf8EncodeChar c = encoded at hencodes
      cases hencodes <;> exact List.nil_lt_cons _ _
  | @rel c a d b hcd =>
      rw [bytes_cons, bytes_cons]
      exact (encodes_utf8EncodeChar c).lt (encodes_utf8EncodeChar d) hcd _ _
  | @cons c a b _ ih =>
      rw [bytes_cons, bytes_cons]
      exact List.append_left_lt ih

/-- Texts are in the order of their bytes. -/
theorem bytes_lt_iff {a b : Text} : a.bytes < b.bytes ↔ a < b := by
  refine ⟨fun h => ?_, bytes_lt_of_lt⟩
  by_cases hab : a < b
  · exact hab
  · rcases List.le_iff_lt_or_eq.mp (List.not_lt.mp hab) with hba | rfl
    · exact absurd (bytes_lt_of_lt hba) (List.lt_asymm h)
    · exact absurd h (List.lt_irrefl _)

end NativeHints.Text
