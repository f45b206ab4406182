import NativeHints.Glob.Reader
import NativeHints.Proofs.Text

/-!
# What patterns match

Each piece of a pattern stands for certain texts (`Piece.Covers`), and a pattern matches a
text that is made up of such texts in the order of the pieces (`Matches`).  Only for whole
directories does it matter what follows: they end with a slash unless they end the text.

How a pattern is written is a grammar (`Written`).  The reader counts its steps, but they
never run out: it accepts exactly what the grammar derives (`read_eq_ok_iff`).
-/

namespace NativeHints.Glob

/-! ## Matching -/

/-- Whether a piece stands for a text with another one behind it. -/
def Piece.Covers : Piece → Text → Text → Prop
  | char c, covered, _ => covered = [c]
  | any, covered, _ => ∃ c, covered = [c]
  | within ranges, covered, _ =>
      ∃ c, covered = [c] ∧ ∃ r ∈ ranges, r.first ≤ c ∧ c ≤ r.last
  | outside ranges, covered, _ =>
      ∃ c, covered = [c] ∧ ¬ ∃ r ∈ ranges, r.first ≤ c ∧ c ≤ r.last
  | star, _, _ => True
  | directories, covered, rest => covered = [] ∨ covered.getLast? = some '/' ∨ rest = []

/-- A pattern matches the texts that its pieces stand for one after the other. -/
inductive Matches : Pattern → Text → Prop where
  | nil : Matches [] []
  | cons {p : Piece} {ps : Pattern} {covered rest : Text} :
      p.Covers covered rest → Matches ps rest → Matches (p :: ps) (covered ++ rest)

theorem matches_cons_iff {p : Piece} {ps : Pattern} {t : Text} :
    Matches (p :: ps) t ↔
      ∃ covered rest, t = covered ++ rest ∧ p.Covers covered rest ∧ Matches ps rest := by
  constructor
  · rintro (_ | ⟨hp, hps⟩)
    exact ⟨_, _, rfl, hp, hps⟩
  · rintro ⟨covered, rest, rfl, hp, hps⟩
    exact .cons hp hps

theorem mem_ends_iff {s t : Text} : s ∈ ends t ↔ ∃ front, t = front ++ s := by
  induction t with
  | nil => simp [ends]
  | cons c t ih =>
      rw [ends, List.mem_cons, ih]
      constructor
      · rintro (rfl | ⟨front, rfl⟩)
        · exact ⟨[], rfl⟩
        · exact ⟨c :: front, rfl⟩
      · rintro ⟨front, h⟩
        cases front with
        | nil => exact .inl h.symm
        | cons d front => exact .inr ⟨front, (List.cons.inj h).2⟩

theorem mem_endsAfterSlash_iff {s t : Text} :
    s ∈ endsAfterSlash t ↔ ∃ front, t = front ++ '/' :: s := by
  induction t with
  | nil => simp [endsAfterSlash]
  | cons c t ih =>
      have hlater : s ∈ endsAfterSlash t ↔ ∃ d front, c :: t = (d :: front) ++ '/' :: s := by
        simp [ih]
      have hsplit : (∃ front, c :: t = front ++ '/' :: s) ↔
          (c = '/' ∧ t = s) ∨ ∃ d front, c :: t = (d :: front) ++ '/' :: s := by
        constructor
        · rintro ⟨front, h⟩
          cases front with
          | nil => exact .inl (List.cons.inj h)
          | cons d front => exact .inr ⟨d, front, h⟩
        · rintro (⟨rfl, rfl⟩ | ⟨d, front, h⟩)
          · exact ⟨[], rfl⟩
          · exact ⟨d :: front, h⟩
      rw [endsAfterSlash, hsplit, ← hlater]
      split
      · next hc => simp [hc, eq_comm]
      · next hc => simp [hc]

section Single

variable {p : Piece} (hstar : p ≠ .star) (hdirectories : p ≠ .directories)

include hstar hdirectories

theorem covers_iff_of_single {covered rest : Text} :
    p.Covers covered rest ↔ ∃ c, covered = [c] ∧ p.accepts c = true := by
  cases p with
  | char c => simp [Piece.Covers, Piece.accepts]
  | any => simp [Piece.Covers, Piece.accepts]
  | within ranges => simp [Piece.Covers, Piece.accepts, anyHas]
  | outside ranges => simp [Piece.Covers, Piece.accepts, anyHas]
  | star => exact absurd rfl hstar
  | directories => exact absurd rfl hdirectories

theorem isMatch_iff_of_single {ps : Pattern} {t : Text} :
    Pattern.isMatch (p :: ps) t = true ↔
      ∃ c rest, t = c :: rest ∧ p.accepts c = true ∧ Pattern.isMatch ps rest = true := by
  cases t with
  | nil => cases p <;> simp_all [Pattern.isMatch]
  | cons c t =>
      have hstep : Pattern.isMatch (p :: ps) (c :: t) = (p.accepts c && Pattern.isMatch ps t) := by
        cases p <;> simp_all [Pattern.isMatch]
      rw [hstep, Bool.and_eq_true]
      constructor
      · intro h
        exact ⟨c, t, rfl, h⟩
      · rintro ⟨_, _, heq, h⟩
        cases heq
        exact h

end Single

/-- The search for a way to match finds one if there is one. -/
theorem isMatch_iff {p : Pattern} {t : Text} : p.isMatch t = true ↔ Matches p t := by
  induction p generalizing t with
  | nil =>
      rw [Pattern.isMatch, List.isEmpty_iff]
      constructor
      · rintro rfl
        exact .nil
      · rintro ⟨⟩
        rfl
  | cons piece ps ih =>
      rw [matches_cons_iff]
      by_cases hstar : piece = .star
      · subst hstar
        simp only [Pattern.isMatch, List.any_eq_true, mem_ends_iff, ih, Piece.Covers, true_and]
        constructor
        · rintro ⟨rest, ⟨front, rfl⟩, hrest⟩
          exact ⟨front, rest, rfl, hrest⟩
        · rintro ⟨front, rest, rfl, hrest⟩
          exact ⟨rest, ⟨front, rfl⟩, hrest⟩
      · by_cases hdirectories : piece = .directories
        · subst hdirectories
          simp only [Pattern.isMatch, Bool.or_eq_true, List.any_eq_true, mem_endsAfterSlash_iff, ih,
            Piece.Covers]
          constructor
          · rintro ((h | ⟨rest, ⟨front, rfl⟩, h⟩) | h)
            · exact ⟨[], t, rfl, .inl rfl, h⟩
            · exact ⟨front ++ ['/'], rest, by simp, .inr (.inl (by simp)), h⟩
            · exact ⟨t, [], by simp, .inr (.inr rfl), h⟩
          · rintro ⟨covered, rest, rfl, rfl | hlast | rfl, h⟩
            · exact .inl (.inl h)
            · obtain ⟨front, rfl⟩ := List.getLast?_eq_some_iff.mp hlast
              exact .inl (.inr ⟨rest, ⟨front, by simp⟩, h⟩)
            · exact .inr h
        · simp only [isMatch_iff_of_single hstar hdirectories, ih,
            covers_iff_of_single hstar hdirectories]
          constructor
          · rintro ⟨c, rest, rfl, hc, hrest⟩
            exact ⟨[c], rest, rfl, ⟨c, rfl, hc⟩, hrest⟩
          · rintro ⟨covered, rest, rfl, ⟨c, rfl, hc⟩, hrest⟩
            exact ⟨c, rest, rfl, hc, hrest⟩

/-! ## Reading -/

/-- What may stand between brackets.  A closing bracket may only come first. -/
def Enclosed (inner : Text) : Prop := ∃ c others, inner = c :: others ∧ ']' ∉ others

/-- How patterns are written from a character on.  The flag says that a directory may begin
there, as it does at the start and behind a slash. -/
inductive Written : Bool → Text → Pattern → Prop where
  | nil (free : Bool) : Written free [] []
  | everything : Written true ['*', '*'] [.directories]
  | directories {t : Text} {ps : Pattern} :
      Written true t ps → Written true ('*' :: '*' :: '/' :: t) (.directories :: ps)
  | star (free : Bool) {t : Text} {ps : Pattern} :
      t.head? ≠ some '*' → Written false t ps → Written free ('*' :: t) (.star :: ps)
  | any (free : Bool) {t : Text} {ps : Pattern} :
      Written false t ps → Written free ('?' :: t) (.any :: ps)
  | within (free : Bool) {inner t : Text} {ps : Pattern} :
      Enclosed inner → inner.head? ≠ some '!' → Written false t ps →
      Written free ('[' :: (inner ++ ']' :: t)) (.within (ranges inner) :: ps)
  | outside (free : Bool) {inner t : Text} {ps : Pattern} :
      Enclosed inner → Written false t ps →
      Written free ('[' :: '!' :: (inner ++ ']' :: t)) (.outside (ranges inner) :: ps)
  | char (free : Bool) {c : Char} {t : Text} {ps : Pattern} :
      c ≠ '*' → c ≠ '?' → c ≠ '[' → Written (c = '/') t ps → Written free (c :: t) (.char c :: ps)

theorem bracketed?_eq_some_iff {t inner rest : Text} :
    bracketed? t = some (inner, rest) ↔ Enclosed inner ∧ t = inner ++ ']' :: rest := by
  cases t with
  | nil => simp [bracketed?]
  | cons c t =>
      simp only [bracketed?, Option.map_eq_some_iff, Prod.exists, Text.splitAtFirst?_eq_some_iff]
      constructor
      · rintro ⟨others, rest', ⟨rfl, hothers⟩, heq⟩
        cases heq
        exact ⟨⟨c, others, rfl, hothers⟩, rfl⟩
      · rintro ⟨⟨d, others, rfl, hothers⟩, heq⟩
        cases heq
        exact ⟨others, rest, ⟨rfl, hothers⟩, rfl⟩

theorem brackets?_eq_some_iff {t rest : Text} {piece : Piece} :
    brackets? t = some (piece, rest) ↔
      (∃ inner, Enclosed inner ∧ t = '!' :: (inner ++ ']' :: rest) ∧
        piece = .outside (ranges inner)) ∨
      ∃ inner, Enclosed inner ∧ inner.head? ≠ some '!' ∧ t = inner ++ ']' :: rest ∧
        piece = .within (ranges inner) := by
  constructor
  · intro h
    unfold brackets? at h
    split at h
    · obtain ⟨⟨inner, rest'⟩, hinner, heq⟩ := Option.map_eq_some_iff.mp h
      cases heq
      obtain ⟨henclosed, rfl⟩ := bracketed?_eq_some_iff.mp hinner
      exact .inl ⟨inner, henclosed, rfl, rfl⟩
    · next hno =>
        obtain ⟨⟨inner, rest'⟩, hinner, heq⟩ := Option.map_eq_some_iff.mp h
        cases heq
        obtain ⟨henclosed, rfl⟩ := bracketed?_eq_some_iff.mp hinner
        refine .inr ⟨inner, henclosed, fun hhead => ?_, rfl, rfl⟩
        obtain ⟨c, others, rfl, -⟩ := henclosed
        cases hhead
        exact hno _ rfl
  · rintro (⟨inner, henclosed, rfl, rfl⟩ | ⟨inner, henclosed, hhead, rfl, rfl⟩)
    · rw [brackets?, bracketed?_eq_some_iff.mpr ⟨henclosed, rfl⟩]
      rfl
    · rw [brackets?, bracketed?_eq_some_iff.mpr ⟨henclosed, rfl⟩]
      · rfl
      · intro t' ht'
        obtain ⟨c, others, rfl, -⟩ := henclosed
        cases ht'
        exact hhead rfl

theorem map_eq_ok {α β ε : Type} {x : Except ε α} {f : α → β} {b : β} (h : x.map f = .ok b) :
    ∃ a, x = .ok a ∧ f a = b := by
  cases x with
  | error e => cases h
  | ok a => exact ⟨a, rfl, Except.ok.inj h⟩

/-- What is read is written as the grammar says. -/
theorem written_of_readFrom {n position : Nat} {free : Bool} {t : Text} {p : Pattern}
    (h : readFrom n position free t = .ok p) : Written free t p := by
  fun_induction readFrom n position free t generalizing p with
  | case1 n position free => cases h; exact .nil free
  | case2 | case3 | case4 | case7 | case10 => cases h
  | case5 n position t ih =>
      obtain ⟨ps, hps, rfl⟩ := map_eq_ok h
      exact .directories (ih hps)
  | case6 => cases h; exact .everything
  | case8 n position free t hthree hbound hslash hend hother ih =>
      obtain ⟨ps, hps, rfl⟩ := map_eq_ok h
      refine .star free (fun hhead => ?_) (ih hps)
      -- two stars are a piece of their own
      obtain ⟨rest, rfl⟩ : ∃ rest, t = '*' :: rest := by
        cases t with
        | nil => cases hhead
        | cons c rest => cases hhead; exact ⟨rest, rfl⟩
      cases free with
      | false => exact hbound rest rfl rfl
      | true =>
          cases rest with
          | nil => exact hend rfl rfl
          | cons c rest => exact hother c rest rfl rfl
  | case9 n position free t ih =>
      obtain ⟨ps, hps, rfl⟩ := map_eq_ok h
      exact .any free (ih hps)
  | case11 n position free t piece rest hbrackets ih =>
      obtain ⟨ps, hps, rfl⟩ := map_eq_ok h
      rcases brackets?_eq_some_iff.mp hbrackets with
        ⟨inner, hinner, rfl, rfl⟩ | ⟨inner, hinner, hhead, rfl, rfl⟩
      · exact .outside free hinner (ih hps)
      · exact .within free hinner hhead (ih hps)
  | case12 n position free c t _ _ _ _ _ hstar hany hbracket ih =>
      obtain ⟨ps, hps, rfl⟩ := map_eq_ok h
      exact .char free hstar hany hbracket (ih hps)

theorem exists_step {c : Char} {t : Text} {n : Nat} (h : (c :: t).length ≤ n) :
    ∃ m, n = m + 1 ∧ t.length ≤ m := by
  rw [List.length_cons] at h
  exact ⟨n - 1, by omega, by omega⟩

/-- What the grammar derives is read, if there are as many steps as characters. -/
theorem Written.readFrom_eq {free : Bool} {t : Text} {p : Pattern} (h : Written free t p) {n : Nat}
    (hn : t.length ≤ n) (position : Nat) : readFrom n position free t = .ok p := by
  induction h generalizing n position with
  | nil free => rw [readFrom]
  | everything =>
      obtain ⟨n, rfl, -⟩ := exists_step hn
      rw [readFrom]
  | directories _ ih =>
      obtain ⟨n, rfl, hrest⟩ := exists_step hn
      rw [readFrom, ih (by simp at hrest; omega)]
      rfl
  | @star free t ps hhead _ ih =>
      obtain ⟨n, rfl, hrest⟩ := exists_step hn
      have hno : ∀ rest, t = '*' :: rest → False := by
        rintro rest rfl
        exact hhead rfl
      rw [readFrom, ih hrest]
      · rfl
      · exact fun _ => hno _
      · exact fun _ _ => hno _
      · exact fun _ _ => hno _
      · exact fun _ => hno _
      · exact fun _ _ _ => hno _
  | any free _ ih =>
      obtain ⟨n, rfl, hrest⟩ := exists_step hn
      rw [readFrom, ih hrest]
      rfl
  | @within free inner t ps hinner hhead _ ih =>
      obtain ⟨n, rfl, hrest⟩ := exists_step hn
      have hbrackets : brackets? (inner ++ ']' :: t) = some (.within (ranges inner), t) :=
        brackets?_eq_some_iff.mpr (.inr ⟨inner, hinner, hhead, rfl, rfl⟩)
      rw [readFrom, hbrackets]
      dsimp only
      rw [ih (by simp at hrest; omega)]
      rfl
  | @outside free inner t ps hinner _ ih =>
      obtain ⟨n, rfl, hrest⟩ := exists_step hn
      have hbrackets : brackets? ('!' :: (inner ++ ']' :: t)) = some (.outside (ranges inner), t) :=
        brackets?_eq_some_iff.mpr (.inl ⟨inner, hinner, rfl, rfl⟩)
      rw [readFrom, hbrackets]
      dsimp only
      rw [ih (by simp at hrest; omega)]
      rfl
  | @char free c t ps hstar hany hbracket _ ih =>
      obtain ⟨n, rfl, hrest⟩ := exists_step hn
      rw [readFrom, ih hrest]
      · rfl
      all_goals simp_all

/-- Reading accepts what the grammar derives, and nothing else. -/
theorem read_eq_ok_iff {t : Text} {p : Pattern} : read t = .ok p ↔ Written true t p :=
  ⟨written_of_readFrom, fun h => h.readFrom_eq (Nat.le_refl _) 0⟩

end NativeHints.Glob
