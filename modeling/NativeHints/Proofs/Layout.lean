import NativeHints.Proofs.Text
import NativeHints.Php.Forest

/-!
# The layout of tokens

Cutting a file into lexemes loses nothing: their texts, put together, are the
file.  So the pieces of a file *lie* in it one behind the other, each where its
own text stands, and every position a piece gives is a boundary of the file.

`Laid source lo ps hi` says this of the pieces between two positions.  It passes
to the parts of a list, so a forest whose tokens lie in the file lies there
between two positions, and so do its nodes, from left to right.
-/

namespace NativeHints

namespace Php

/-! ## Lexemes -/

section Lexemes

variable {stack : List Frame} {t : Text} {c : Cut}

theorem kind_of_map {k : LexemeKind} {n : Option Nat} (h : n.map (⟨k, ·, stack⟩) = some c) :
    c.kind = k := by
  obtain ⟨n, -, rfl⟩ := Option.map_eq_some_iff.mp h
  rfl

theorem kind_cutBlank? (h : cutBlank? stack t = some c) : c.kind = .blank := by
  unfold cutBlank? at h
  split at h <;> cases h
  rfl

theorem kind_cutMark? (h : cutMark? stack t = some c) : c.kind = .mark := by
  obtain ⟨n, -, rfl⟩ := Option.map_eq_some_iff.mp h
  split <;> rfl

theorem kind_cutTemplate? (h : cutTemplate? stack t = some c) : c.kind = .templateOpen := by
  unfold cutTemplate? at h
  split at h <;> cases h <;> rfl

theorem kind_cutDocument? (h : cutDocument? stack t = some c) :
    c.kind = .templateOpen ∨ c.kind = .string := by
  obtain ⟨d, -, h⟩ := Option.bind_eq_some_iff.mp h
  split at h
  · cases h
    exact .inl rfl
  · exact .inr (kind_of_map h)

theorem kind_cutTemplatePart? {closer : Closer} {below : List Frame}
    (h : cutTemplatePart? closer stack below t = some c) : c.kind ≠ .word := by
  unfold cutTemplatePart? at h
  split at h
  · cases h
    simp
  · split at h <;> cases h <;> simp

theorem wordLength?_pos {n : Nat} (h : wordLength? t = some n) : 0 < n := by
  unfold wordLength? at h
  split at h
  · simp at h
  · split at h
    · cases h
      omega
    · simp at h

/-- A word is not empty. -/
theorem cut?_word (h : cut? stack t = some c) (hkind : c.kind = .word) : 0 < c.length := by
  unfold cut? at h
  split at h
  · exact absurd hkind (kind_cutTemplatePart? h)
  · simp only [cutCode?, Option.orElse_eq_orElse, Option.orElse_eq_or, Option.or_eq_some_iff] at h
    rcases h with h | ⟨-, h | ⟨-, h | ⟨-, h | ⟨-, h | ⟨-, h | ⟨-, h | ⟨-, h | ⟨-, h⟩⟩⟩⟩⟩⟩⟩⟩
    · simp [kind_cutBlank? h] at hkind
    · simp [kind_of_map h] at hkind
    · simp [kind_of_map h] at hkind
    · simp [kind_of_map h] at hkind
    · simp [kind_cutTemplate? h] at hkind
    · rcases kind_cutDocument? h with hk | hk <;> simp [hk] at hkind
    · obtain ⟨n, hn, rfl⟩ := Option.map_eq_some_iff.mp h
      exact wordLength?_pos hn
    · simp [kind_of_map h] at hkind
    · simp [kind_cutMark? h] at hkind

theorem text_lexCode? {n : Nat} {ls : List Lexeme}
    (h : lexCode? n stack t = some ls) : ls.flatMap Lexeme.text = t := by
  fun_induction lexCode? n stack t generalizing ls with
  | case1 => simp at h
  | case2 =>
      cases h
      rfl
  | case3 => simp at h
  | case4 => simp at h
  | case5 n stack t _ c _ ih =>
      obtain ⟨rest, hrest, rfl⟩ := Option.map_eq_some_iff.mp h
      simp [ih hrest, List.take_append_drop]

theorem text_lex? {source : Text} {ls : List Lexeme} (h : lex? source = some ls) :
    ls.flatMap Lexeme.text = source := by
  obtain ⟨code, hcode, rfl⟩ := Option.map_eq_some_iff.mp h
  simp only [List.flatMap_append, text_lexCode? hcode]
  have hfirst (k : LexemeKind) (n : Nat) (t : Text) :
      (if n = 0 then [] else [(⟨k, t.take n⟩ : Lexeme)]).flatMap Lexeme.text = t.take n := by
    split <;> simp [*]
  rw [hfirst, hfirst, List.append_assoc, List.take_append_drop, List.take_append_drop]

/-- A lexeme that is not an empty word. -/
def Lexeme.Proper (l : Lexeme) : Prop := l.kind = .word → l.text ≠ []

theorem proper_lexCode? {n : Nat} {ls : List Lexeme}
    (h : lexCode? n stack t = some ls) : ∀ l ∈ ls, l.Proper := by
  fun_induction lexCode? n stack t generalizing ls with
  | case1 => simp at h
  | case2 =>
      cases h
      simp
  | case3 => simp at h
  | case4 => simp at h
  | case5 n stack t hne c hc ih =>
      obtain ⟨rest, hrest, rfl⟩ := Option.map_eq_some_iff.mp h
      intro l hl
      rcases List.mem_cons.mp hl with rfl | hl
      · intro hkind
        have hlen := cut?_word hc hkind
        simp only [ne_eq, List.take_eq_nil_iff]
        grind
      · exact ih hrest l hl

theorem proper_lex? {source : Text} {ls : List Lexeme} (h : lex? source = some ls) :
    ∀ l ∈ ls, l.Proper := by
  obtain ⟨code, hcode, rfl⟩ := Option.map_eq_some_iff.mp h
  intro l hl
  rcases List.mem_append.mp hl with hl | hl
  · intro hkind
    rcases List.mem_append.mp hl with hl | hl <;> split at hl <;> simp at hl <;> simp [hl] at hkind
  · exact proper_lexCode? hcode l hl

end Lexemes

/-! ## Pieces -/

/-- A piece stands in a text where it says. -/
def Piece.Stands (source : Text) (p : Piece) : Prop :=
  ∃ a b, source = a ++ (p.text ++ b) ∧ a.size = p.start

/-- Pieces that stand in a text one behind the other between two positions. -/
inductive Laid (source : Text) : Nat → List Piece → Nat → Prop where
  | nil {here : Nat} : source.isBoundary here = true → Laid source here [] here
  | cons {p : Piece} {ps : List Piece} {hi : Nat} :
      p.Stands source → Laid source p.stop ps hi → Laid source p.start (p :: ps) hi

theorem laid_place (a b : Text) (ls : List Lexeme) :
    Laid (a ++ (ls.flatMap Lexeme.text ++ b)) a.size (place a.size ls)
      (a.size + Text.size (ls.flatMap Lexeme.text)) := by
  induction ls generalizing a with
  | nil => exact .nil (Text.isBoundary_iff.mpr ⟨a, b, by simp, rfl⟩)
  | cons l ls ih =>
      have hrest := ih (a ++ l.text)
      simp only [List.flatMap_cons, Text.size_append, List.append_assoc, Nat.add_assoc] at hrest ⊢
      exact .cons (p := ⟨l.kind, l.text, a.size⟩) ⟨a, _, rfl, rfl⟩ hrest

/-- A piece that is not an empty word. -/
def Piece.Proper (p : Piece) : Prop := p.kind = .word → p.text ≠ []

theorem proper_place (start : Nat) {ls : List Lexeme} (h : ∀ l ∈ ls, l.Proper) :
    ∀ p ∈ place start ls, p.Proper := by
  induction ls generalizing start with
  | nil => simp [place]
  | cons l ls ih =>
      obtain ⟨hfirst, hrest⟩ := List.forall_mem_cons.mp h
      exact List.forall_mem_cons.mpr ⟨hfirst, ih _ hrest⟩

namespace Piece.Stands

variable {source : Text} {p : Piece}

theorem isBoundary_start (h : p.Stands source) : source.isBoundary p.start = true := by
  obtain ⟨a, b, hsource, hsize⟩ := h
  exact Text.isBoundary_iff.mpr ⟨a, p.text ++ b, hsource, hsize⟩

theorem isBoundary_stop (h : p.Stands source) : source.isBoundary p.stop = true := by
  obtain ⟨a, b, hsource, hsize⟩ := h
  exact Text.isBoundary_iff.mpr ⟨a ++ p.text, b, by simp [hsource], by simp [hsize, stop]⟩

end Piece.Stands

namespace Laid

variable {source : Text} {lo hi : Nat} {ps qs : List Piece}

theorem stands (h : Laid source lo ps hi) : ∀ p ∈ ps, p.Stands source := by
  induction h with
  | nil => simp
  | cons hp _ ih => exact List.forall_mem_cons.mpr ⟨hp, ih⟩

theorem isBoundary_left (h : Laid source lo ps hi) : source.isBoundary lo = true := by
  cases h with
  | nil h => exact h
  | cons hp _ => exact hp.isBoundary_start

theorem eq_of_nil (h : Laid source lo [] hi) : lo = hi := by
  cases h
  rfl

theorem le (h : Laid source lo ps hi) : lo ≤ hi := by
  induction h with
  | nil => exact Nat.le_refl _
  | cons _ _ ih => exact Nat.le_trans (Nat.le_add_right _ _) ih

theorem bounds (h : Laid source lo ps hi) : ∀ p ∈ ps, lo ≤ p.start ∧ p.stop ≤ hi := by
  induction h with
  | nil => simp
  | @cons p ps hi _ hrest ih =>
      intro q hq
      rcases List.mem_cons.mp hq with rfl | hq
      · exact ⟨Nat.le_refl _, hrest.le⟩
      · exact ⟨Nat.le_trans (Nat.le_add_right _ _) (ih q hq).1, (ih q hq).2⟩

theorem of_append (h : Laid source lo (ps ++ qs) hi) :
    ∃ mid, Laid source lo ps mid ∧ Laid source mid qs hi := by
  induction ps generalizing lo with
  | nil => exact ⟨lo, .nil h.isBoundary_left, h⟩
  | cons p ps ih =>
      cases h with
      | cons hp hrest =>
          obtain ⟨mid, hleft, hright⟩ := ih hrest
          exact ⟨mid, .cons hp hleft, hright⟩

/-- Pieces that lie one behind the other are a piece of the text themselves. -/
theorem slice (h : Laid source lo ps hi) :
    ∃ a b, source = a ++ (ps.flatMap Piece.text ++ b) ∧ a.size = lo ∧
      (a ++ ps.flatMap Piece.text).size = hi := by
  induction h with
  | nil h =>
      obtain ⟨a, b, hsource, hsize⟩ := Text.isBoundary_iff.mp h
      exact ⟨a, b, by simpa using hsource, hsize, by simpa using hsize⟩
  | @cons p ps hi hp _ ih =>
      obtain ⟨a, b, hsource, hsize⟩ := hp
      obtain ⟨a', b', hsource', hsize', hhi⟩ := ih
      -- Both splits cut the text where the first piece ends.
      have hfirst : source.cut? p.stop = some (a ++ p.text, b) :=
        Text.cut?_eq_some_iff.mpr ⟨by simp [hsource], by simp [hsize, Piece.stop]⟩
      have hsecond := Text.cut?_eq_some_iff.mpr ⟨hsource', hsize'⟩
      obtain ⟨rfl, rfl⟩ : a ++ p.text = a' ∧ b = ps.flatMap Piece.text ++ b' := by
        simpa [hfirst] using hsecond
      exact ⟨a, b', by simp [hsource], hsize, by simpa using hhi⟩

end Laid

/-! ## Tokens -/

/-- The pieces of a token, trivia first. -/
def Token.pieces (t : Token) : List Piece := t.lead ++ [t.piece]

theorem Token.fullText_eq : fullText = fun t => t.pieces.flatMap Piece.text := by
  funext t
  simp [fullText, pieces, text]

theorem pieces_tokensFrom (lead : List Piece) (brackets : List Bracket) (ps : List Piece)
    {last : Piece} (hlast : last.isTrivia = false) :
    (tokensFrom lead brackets (ps ++ [last])).flatMap Token.pieces =
      lead.reverse ++ (ps ++ [last]) := by
  induction ps generalizing lead brackets with
  | nil => simp [tokensFrom, hlast, Token.pieces]
  | cons p ps ih =>
      simp only [List.cons_append, tokensFrom]
      split
      · simp [ih]
      · simp [ih, Token.pieces]

theorem place_append (start : Nat) (ls ms : List Lexeme) :
    place start (ls ++ ms) =
      place start ls ++ place (start + Text.size (ls.flatMap Lexeme.text)) ms := by
  induction ls generalizing start with
  | nil => rfl
  | cons l ls ih => simp [place, ih, Nat.add_assoc]

/-- The pieces of the tokens of a file are all of its lexemes in their places. -/
theorem pieces_tokens? {source : Text} {ts : List Token} (h : tokens? source = some ts) :
    ∃ ls, lex? source = some ls ∧
      ts.flatMap Token.pieces = place 0 (ls ++ [⟨.ending, []⟩]) := by
  obtain ⟨ls, hls, rfl⟩ := Option.map_eq_some_iff.mp h
  refine ⟨ls, hls, ?_⟩
  rw [place_append, place, place, pieces_tokensFrom _ _ _ rfl]
  rfl

/-- The tokens of a file lie in it, from its beginning to its end. -/
theorem laid_tokens? {source : Text} {ts : List Token} (h : tokens? source = some ts) :
    Laid source 0 (ts.flatMap Token.pieces) source.size := by
  obtain ⟨ls, hls, hpieces⟩ := pieces_tokens? h
  have htext : (ls ++ [(⟨.ending, []⟩ : Lexeme)]).flatMap Lexeme.text = source := by
    rw [List.flatMap_append, text_lex? hls]
    simp
  have hlaid := laid_place [] [] (ls ++ [⟨.ending, []⟩])
  rw [htext] at hlaid
  rw [hpieces]
  simpa using hlaid

/-- No token of a file is an empty word. -/
theorem proper_tokens? {source : Text} {ts : List Token} (h : tokens? source = some ts) :
    ∀ t ∈ ts, t.piece.Proper := by
  obtain ⟨ls, hls, hpieces⟩ := pieces_tokens? h
  have hproper : ∀ l ∈ ls ++ [⟨.ending, []⟩], l.Proper := by
    refine List.forall_mem_append.mpr ⟨proper_lex? hls, ?_⟩
    simp [Lexeme.Proper]
  intro t ht
  refine proper_place 0 hproper t.piece ?_
  rw [← hpieces]
  exact List.mem_flatMap.mpr ⟨t, ht, by simp [Token.pieces]⟩

namespace Token

variable {source : Text} {lo hi : Nat} {t : Token}

theorem stop_eq (h : Laid source lo t.pieces hi) : t.stop = hi := by
  obtain ⟨mid, -, hpiece⟩ := h.of_append
  cases hpiece with
  | cons _ hnil => exact hnil.eq_of_nil

/-- The pieces in front of a token end where it begins. -/
theorem laid_lead (h : Laid source lo t.pieces hi) : Laid source lo t.lead t.start := by
  obtain ⟨mid, hlead, hpiece⟩ := h.of_append
  cases hpiece with
  | cons => exact hlead

theorem stands_piece (h : Laid source lo t.pieces hi) : t.piece.Stands source :=
  h.stands _ (by simp [pieces])

theorem start_le_stop (t : Token) : t.start ≤ t.stop := Nat.le_add_right _ _

theorem outerStart_bounds (h : Laid source lo t.pieces hi) :
    lo ≤ t.outerStart ∧ t.outerStart ≤ t.start ∧ source.isBoundary t.outerStart = true := by
  unfold outerStart
  split
  · next p hp =>
      have hmem := List.mem_of_find?_eq_some hp
      have hbounds := (laid_lead h).bounds p hmem
      have hstop : p.start ≤ p.stop := Nat.le_add_right _ _
      exact ⟨hbounds.1, by omega, ((laid_lead h).stands p hmem).isBoundary_start⟩
  · exact ⟨(laid_lead h).le, Nat.le_refl _, (stands_piece h).isBoundary_start⟩

end Token

/-! ## Forests -/

namespace Forest

theorem first?_eq (f : Forest) : f.first? = f.tokens.head? := by
  induction f with
  | nil => rfl
  | leaf t rest => rfl
  | node k children rest ihc ihr =>
      simp only [first?, tokens, List.head?_append, ihc, ihr]
      cases children.tokens.head? <;> rfl

theorem last?_eq (f : Forest) : f.last? = f.tokens.getLast? := by
  induction f with
  | nil => rfl
  | leaf t rest ih =>
      simp only [last?, tokens, List.getLast?_cons, ih]
      cases rest.tokens.getLast? <;> rfl
  | node k children rest ihc ihr =>
      simp only [last?, tokens, List.getLast?_append, ihc, ihr]
      cases rest.tokens.getLast? <;> rfl

theorem tokens_ne_nil {f : Forest} (h : f.text ≠ []) : f.tokens ≠ [] := by
  intro hnil
  exact h (by rw [text, hnil, textOf])

/-- A forest with a token that is not empty has a text. -/
theorem text_ne_nil {f : Forest} {t : Token} (ht : t ∈ f.tokens) (htext : t.text ≠ []) :
    f.text ≠ [] := by
  rw [text]
  cases hts : f.tokens with
  | nil => rw [hts] at ht; cases ht
  | cons first rest =>
      rw [hts] at ht
      rcases List.mem_cons.mp ht with rfl | ht
      · simp [textOf, htext]
      · have hfull : t.fullText ≠ [] := by simp [Token.fullText, htext]
        intro hnil
        exact hfull (List.flatMap_eq_nil_iff.mp (List.append_eq_nil_iff.mp hnil).2 t ht)

/-- A forest whose tokens lie in a text between two positions. -/
def Lies (source : Text) (lo : Nat) (f : Forest) (hi : Nat) : Prop :=
  Laid source lo (f.tokens.flatMap Token.pieces) hi

namespace Lies

variable {source : Text} {lo hi : Nat} {f g : Forest}

theorem nil (h : Lies source lo .nil hi) : lo = hi := h.eq_of_nil

theorem leaf {t : Token} (h : Lies source lo (.leaf t f) hi) :
    Laid source lo t.pieces t.stop ∧ Lies source t.stop f hi := by
  obtain ⟨mid, ht, hf⟩ := h.of_append
  obtain rfl := Token.stop_eq ht
  exact ⟨ht, hf⟩

theorem append (h : Lies source lo (f ++ g) hi) :
    ∃ mid, Lies source lo f mid ∧ Lies source mid g hi := by
  unfold Lies at h
  rw [tokens_append, List.flatMap_append] at h
  exact h.of_append

theorem node {k : NodeKind} (h : Lies source lo (.node k f g) hi) :
    ∃ mid, Lies source lo f mid ∧ Lies source mid g hi := by
  unfold Lies at h
  rw [tokens, List.flatMap_append] at h
  exact h.of_append

theorem le (h : Lies source lo f hi) : lo ≤ hi := Laid.le h

/-- Every token of a forest lies between its ends. -/
theorem token (h : Lies source lo f hi) {t : Token} (ht : t ∈ f.tokens) :
    ∃ before, lo ≤ before ∧ Laid source before t.pieces t.stop ∧ t.stop ≤ hi := by
  obtain ⟨left, right, hsplit⟩ := List.append_of_mem ht
  unfold Lies at h
  rw [hsplit, List.flatMap_append] at h
  obtain ⟨before, hleft, hright⟩ := h.of_append
  obtain ⟨after, htoken, hafter⟩ := hright.of_append
  obtain rfl := Token.stop_eq htoken
  exact ⟨before, hleft.le, htoken, hafter.le⟩

theorem stop_eq (h : Lies source lo f hi) (hne : f.tokens ≠ []) : f.stop = hi := by
  obtain ⟨left, t, hsplit⟩ : ∃ left t, f.tokens = left ++ [t] :=
    ⟨_, _, (List.dropLast_concat_getLast hne).symm⟩
  unfold Lies at h
  rw [hsplit, List.flatMap_append] at h
  obtain ⟨before, -, hright⟩ := h.of_append
  simp only [List.flatMap_cons, List.flatMap_nil, List.append_nil] at hright
  simpa [stop, last?_eq, hsplit] using Token.stop_eq hright

/-- The tokens of a forest, from the text of the first on. -/
theorem of_start (h : Lies source lo f hi) {t : Token} {ts : List Token} (hts : f.tokens = t :: ts) :
    lo ≤ f.start ∧ Laid source f.start (t.piece :: ts.flatMap Token.pieces) hi := by
  have hstart : f.start = t.start := by simp [start, first?_eq, hts]
  unfold Lies at h
  rw [hts, List.flatMap_cons, Token.pieces, List.append_assoc] at h
  obtain ⟨mid, hlead, hrest⟩ := h.of_append
  have hmid : mid = t.start := by
    cases hrest
    rfl
  rw [hstart, ← hmid]
  exact ⟨hlead.le, hrest⟩

theorem start_bounds (h : Lies source lo f hi) (hne : f.tokens ≠ []) :
    lo ≤ f.start ∧ f.start ≤ f.stop := by
  obtain ⟨t, ts, hts⟩ := List.exists_cons_of_ne_nil hne
  rw [h.stop_eq hne]
  exact ⟨(h.of_start hts).1, (h.of_start hts).2.le⟩

/-- The text of a forest is what stands in the file from its start to its end. -/
theorem slice (h : Lies source lo f hi) :
    ∃ a b, source = a ++ (f.text ++ b) ∧ a.size = f.start ∧ (a ++ f.text).size = f.stop := by
  cases hts : f.tokens with
  | nil => exact ⟨[], source, by simp [text, hts, textOf], by simp [start, first?_eq, hts],
      by simp [text, textOf, stop, last?_eq, hts]⟩
  | cons t ts =>
      obtain ⟨a, b, hsource, hsize, hhi⟩ := (h.of_start hts).2.slice
      have htext : f.text = (t.piece :: ts.flatMap Token.pieces).flatMap Piece.text := by
        simp [text, textOf, hts, Token.text, Token.fullText_eq, List.flatMap_assoc]
      rw [← htext] at hsource hhi
      rw [h.stop_eq (by simp [hts])]
      exact ⟨a, b, hsource, hsize, hhi⟩

theorem start_lt_stop (h : Lies source lo f hi) (htext : f.text ≠ []) : f.start < f.stop := by
  obtain ⟨a, b, -, hstart, hstop⟩ := h.slice
  have hsize := Text.size_pos htext
  rw [Text.size_append] at hstop
  omega

end Lies

end Forest

end Php

end NativeHints
