import NativeHints.Proofs.Removals

/-!
# Files that parse can be rewritten

The outline of a file keeps a contract with the text of the file.  Its positions
are boundaries of the text, its hints stand where it says, every function-like
has an end of its parameters, and what removing hints deletes are ranges that
are not empty and do not overlap.

The contract does not depend on the grammar.  It holds for the outline of every
forest whose tokens stand in the file one behind the other and whose nodes have
their shapes (`Forest.Fits`), and the forest of a file that parses is one of
them.

No error of an edit is left under this contract, so removing hints and adding
them both succeed, whatever the options and the hierarchy are.
-/

namespace NativeHints

/-- The contract between an outline and the text of its file. -/
structure FileOutline.Sound (source : Text) (f : FileOutline) : Prop where
  openTag : ∀ s ∈ f.openTag, s.Sound source
  shebangEnd : ∀ position ∈ f.shebangEnd, source.isBoundary position = true
  decls : f.decls.Sound source
  start_lt_stop : ∀ s ∈ f.decls.ranges, s.start < s.stop
  disjoint : f.decls.ranges.Pairwise fun s t => s.stop ≤ t.start

/-! ## Places -/

section Places

variable {source : Text}

theorem Param.Sound.isBoundary_place? {p : Param} (hp : p.Sound source) {place : Place}
    (hplace : p.place? = some place) : source.isBoundary place.position = true := by
  unfold Param.place? at hplace
  split at hplace
  · cases hplace
    exact hp.hintAt
  · cases hplace

theorem FunctionHead.Sound.isBoundary_places {f : FunctionHead} (hf : f.Sound source) :
    ∀ p ∈ f.places, source.isBoundary p.position = true := by
  intro place hplace
  rcases List.mem_append.mp hplace with hplace | hplace
  · obtain ⟨p, hp, hplace⟩ := List.mem_filterMap.mp hplace
    exact (hf.params p hp).isBoundary_place? hplace
  · obtain ⟨position, hend, hposition⟩ := hf.signatureEnd
    unfold resultPlace? at hplace
    rw [hend] at hplace
    split at hplace
    · simp only [Option.map_some, Option.toList_some, List.mem_singleton] at hplace
      rw [hplace]
      exact hposition
    · simp at hplace

theorem Property.Sound.isBoundary_place? {p : Property} (hp : p.Sound source) {place : Place}
    (hplace : p.place? = some place) : source.isBoundary place.position = true := by
  unfold Property.place? at hplace
  split at hplace
  · next element _ helements =>
      cases hplace
      exact hp.elements element (by simp [helements])
  · cases hplace

theorem Outline.Sound.isBoundary_places (options : Options) {o : Outline} (ho : o.Sound source) :
    ∀ p ∈ o.places options, source.isBoundary p.position = true := by
  induction o with
  | empty => simp [places]
  | namespaceLine name rest ih => exact ih ho
  | namespaceBlock name body rest ihb ihr =>
      exact List.forall_mem_append.mpr ⟨ihb ho.1, ihr ho.2⟩
  | imports clauses rest ih => exact ih ho
  | classLike head members rest ihm ihr =>
      exact List.forall_mem_append.mpr ⟨ihm ho.2.1, ihr ho.2.2⟩
  | functionLike head body rest ihb ihr =>
      exact List.forall_mem_append.mpr
        ⟨ho.1.isBoundary_places, List.forall_mem_append.mpr ⟨ihb ho.2.1, ihr ho.2.2⟩⟩
  | property decl rest ih =>
      refine List.forall_mem_append.mpr ⟨fun p hp => ?_, ih ho.2⟩
      split at hp
      · exact ho.1.isBoundary_place? (Option.mem_toList.mp hp)
      · simp at hp
  | traitUse names rest ih => exact ih ho

theorem FileOutline.Sound.isBoundary_places (options : Options) {f : FileOutline}
    (hf : f.Sound source) : ∀ p ∈ f.places options, source.isBoundary p.position = true := by
  refine List.forall_mem_append.mpr ⟨fun p hp => ?_, hf.decls.isBoundary_places options⟩
  split at hp
  · obtain ⟨position, hat, rfl⟩ := Option.map_eq_some_iff.mp (Option.mem_toList.mp hp)
    show source.isBoundary position = true
    unfold strictTypesAt at hat
    split at hat
    · cases hat
    · next tag htag =>
        split at hat
        · cases hat
          exact (hf.openTag tag htag).stop
        · cases hat
  · simp at hp

theorem Outline.Sound.functions {o : Outline} (ho : o.Sound source) :
    ∀ head ∈ o.functions, head.Sound source := by
  induction o with
  | empty => simp [Outline.functions]
  | namespaceLine name rest ih => exact ih ho
  | namespaceBlock name body rest ihb ihr =>
      exact List.forall_mem_append.mpr ⟨ihb ho.1, ihr ho.2⟩
  | imports clauses rest ih => exact ih ho
  | classLike head members rest ihm ihr =>
      exact List.forall_mem_append.mpr ⟨ihm ho.2.1, ihr ho.2.2⟩
  | functionLike head body rest ihb ihr =>
      exact List.forall_mem_cons.mpr
        ⟨ho.1, List.forall_mem_append.mpr ⟨ihb ho.2.1, ihr ho.2.2⟩⟩
  | property decl rest ih => exact ih ho.2
  | traitUse names rest ih => exact ih ho

/-- Hints can be added under the contract. -/
theorem exists_addHints (c : Insertion.Context) {f : FileOutline} (hf : f.Sound source) :
    ∃ out, addHints c source f = .ok out := by
  have hends : ∀ head ∈ f.decls.functions, head.signatureEnd.isSome = true := by
    intro head hhead
    obtain ⟨position, hend, -⟩ := (hf.decls.functions head hhead).signatureEnd
    simp [hend]
  obtain ⟨is, hplan⟩ := Insertion.planFile_ok c hends
  obtain ⟨out, hout⟩ := Insertion.exists_applyAll_of_plan hplan
    (hf.isBoundary_places c.options)
  exact ⟨out, addHints_eq_ok_iff.mpr ⟨is, hplan, hout⟩⟩

end Places

/-! ## Parsed files -/

namespace Php

variable {source : Text}

theorem isBoundary_shebangEnd? : ∀ position ∈ shebangEnd? source,
    source.isBoundary position = true := by
  intro position hposition
  unfold shebangEnd? at hposition
  split at hposition
  · obtain ⟨⟨line, rest⟩, hsplit, rfl⟩ := Option.map_eq_some_iff.mp hposition
    exact Text.isBoundary_iff.mpr ⟨line ++ ['\n'], rest,
      by simp [(Text.splitAtFirst?_eq_some_iff.mp hsplit).1], by rw [Text.size_append]; rfl⟩
  · cases hposition

theorem Forest.Lies.sound_openTag? {lo hi : Nat} {f : Forest} (h : f.Lies source lo hi) :
    ∀ s ∈ f.openTag?, s.Sound source := by
  intro s hs
  unfold Forest.openTag? at hs
  split at hs
  · next t ht =>
      split at hs
      · cases hs
        rw [Forest.first?_eq] at ht
        obtain ⟨before, -, hlaid, -⟩ := h.token (List.mem_of_head? ht)
        have hstands := Token.stands_piece hlaid
        exact ⟨hstands.isBoundary_start, hstands.isBoundary_stop⟩
      · cases hs
  · cases hs

/-- A forest fits a file: its tokens stand in the file one behind the other, and its
nodes have their shapes.  Nothing is said about the grammar that the forest comes
from. -/
structure Forest.Fits (source : Text) (f : Forest) : Prop where
  lies : ∃ lo hi, f.Lies source lo hi
  shaped : f.Shaped

theorem Forest.Fits.sound_fileOutline {f : Forest} (h : f.Fits source) :
    (f.fileOutline source).Sound source := by
  obtain ⟨lo, hi, hlies⟩ := h.lies
  have hrow := hlies.inRow_outline h.shaped true .everywhere
  exact ⟨hlies.sound_openTag?, isBoundary_shebangEnd?,
    hlies.sound_outline h.shaped true .everywhere, hrow.start_lt_stop, hrow.pairwise⟩

/-- A forest of tokens from the beginning of a file lies in the file. -/
theorem Forest.lies_of_tokens? {f : Forest} {rest : List Token}
    (h : tokens? source = some (f.tokens ++ rest)) : ∃ lo hi, f.Lies source lo hi := by
  have hlaid := laid_tokens? h
  rw [List.flatMap_append] at hlaid
  obtain ⟨hi, hlies, -⟩ := hlaid.of_append
  exact ⟨0, hi, hlies⟩

/-- The forest that the grammar derives fits the file. -/
theorem fits_forest? {f : Forest} (h : forest? source = some f) : f.Fits source := by
  obtain ⟨ts, hts, hread⟩ := Option.bind_eq_some_iff.mp h
  obtain ⟨⟨g, rest⟩, hg, heq⟩ := Option.bind_eq_some_iff.mp hread
  cases heq
  obtain ⟨hderives, rfl⟩ := obeys_readSymbol grammar _ _ _ _ _ hg
  have hproper := List.forall_mem_append.mp (proper_tokens? hts)
  exact ⟨f.lies_of_tokens? hts, hderives.shaped isBody_grammar shaped_grammar rfl hproper.1⟩

theorem sound_outline? {f : FileOutline} (h : outline? source = some f) : f.Sound source := by
  obtain ⟨forest, hforest, rfl⟩ := Option.map_eq_some_iff.mp h
  exact (fits_forest? hforest).sound_fileOutline

end Php

/-- An outline that keeps the contract, and with which both removing and adding hints
succeed. -/
structure FileOutline.Rewritable (source : Text) (f : FileOutline) : Prop where
  sound : f.Sound source
  strips : ∀ path, ∃ out, stripHints path source f = .ok out
  adds : ∀ c, ∃ out, addHints c source f = .ok out

theorem FileOutline.Sound.rewritable {source : Text} {f : FileOutline} (h : f.Sound source) :
    f.Rewritable source where
  sound := h
  strips path := exists_stripHints path h.decls h.start_lt_stop h.disjoint
  adds c := exists_addHints c h

/-- Every forest that fits a file has an outline that can be rewritten.  In particular
every file that parses can be rewritten. -/
theorem fitting_forest_rewrites (source : Text) :
    (∀ forest : Php.Forest, forest.Fits source →
      (forest.fileOutline source).Rewritable source) ∧
    ∀ f, Php.outline? source = some f → f.Rewritable source :=
  ⟨fun _ h => h.sound_fileOutline.rewritable, fun _ h => (Php.sound_outline? h).rewritable⟩

/-- A function with a closure in it that captures a variable, and a comment inside a
parameter. -/
def capturingSource : Text :=
  ("<?php function f(?int $a = null, string /*é*/ ...$b): int " ++
    "\x7b return function (A $x) use ($a): B \x7b\x7d; \x7d").toList

/-- The outline of `capturingSource`. -/
def capturingOutline : FileOutline :=
  ⟨some ⟨0, 5⟩, none, false,
    .functionLike
      ⟨.function, some "f".toList, 6, none,
        [⟨"a".toList, ⟨17, 31⟩, 22, some ⟨⟨17, 21⟩, "?int".toList, 22⟩, true⟩,
          ⟨"b".toList, ⟨33, 52⟩, 47, some ⟨⟨33, 39⟩, "string".toList, 40⟩, false⟩],
        some 53, some ⟨⟨55, 58⟩, "int".toList, 59⟩⟩
      (.functionLike
        ⟨.closure, none, 68, none,
          [⟨"x".toList, ⟨78, 82⟩, 80, some ⟨⟨78, 79⟩, "A".toList, 80⟩, false⟩],
          some 92, some ⟨⟨94, 95⟩, "B".toList, 96⟩⟩
        .empty .empty)
      .empty⟩

/-- An arrow function with an operator that the grammar does not know. -/
def pipingSource : Text := "<?php fn(A $a): B => $a |> g;".toList

/-- A forest of `pipingSource`, as a grammar with the operator would give it. -/
def pipingForest : Php.Forest :=
  .leaf ⟨[], ⟨.openTag, "<?php".toList, 0⟩, false⟩ <|
  .node .arrow
    (.leaf ⟨[⟨.blank, [' '], 5⟩], ⟨.word, "fn".toList, 6⟩, false⟩ <|
      .node .params
        (.leaf ⟨[], ⟨.mark, ['('], 8⟩, false⟩ <|
          .node .param
            (.node .hint (.leaf ⟨[], ⟨.word, ['A'], 9⟩, false⟩ .nil) <|
              .node .variable
                (.leaf ⟨[⟨.blank, [' '], 10⟩], ⟨.mark, ['$'], 11⟩, false⟩ <|
                  .leaf ⟨[], ⟨.word, ['a'], 12⟩, false⟩ .nil)
                .nil) <|
          .leaf ⟨[], ⟨.mark, [')'], 13⟩, false⟩ .nil) <|
      .leaf ⟨[], ⟨.mark, [':'], 14⟩, false⟩ <|
      .node .hint (.leaf ⟨[⟨.blank, [' '], 15⟩], ⟨.word, ['B'], 16⟩, false⟩ .nil) <|
      .leaf ⟨[⟨.blank, [' '], 17⟩], ⟨.mark, "=>".toList, 18⟩, false⟩ <|
      .node .plain
        (.leaf ⟨[⟨.blank, [' '], 20⟩], ⟨.mark, ['$'], 21⟩, false⟩ <|
          .leaf ⟨[], ⟨.word, ['a'], 22⟩, false⟩ <|
          .leaf ⟨[⟨.blank, [' '], 23⟩], ⟨.mark, ['|'], 24⟩, false⟩ <|
          .leaf ⟨[], ⟨.mark, ['>'], 25⟩, false⟩ <|
          .leaf ⟨[⟨.blank, [' '], 26⟩], ⟨.word, ['g'], 27⟩, false⟩ .nil)
        .nil) <|
  .leaf ⟨[], ⟨.mark, [';'], 28⟩, false⟩ .nil

theorem fits_pipingForest : pipingForest.Fits pipingSource where
  lies := by
    have htokens : Php.tokens? pipingSource =
        some (pipingForest.tokens ++ [⟨[], ⟨.ending, [], 29⟩, false⟩]) := by decide +kernel
    exact Php.Forest.lies_of_tokens? htokens
  shaped := by
    refine ⟨@Php.Forest.Signature.mk (.leaf _ .nil) _ _ _ _ ⟨?_, trivial⟩ .absent
      (.present _ _ ?_) ?_, ?_, trivial⟩
    · simp [Php.Forest.NoArrow, Php.Token.text]
    · simp [Php.Forest.NoArrow, Php.Token.text]
    · simp [Php.Forest.Tops, Php.Forest.isBodyKind]
    · simp [Php.Forest.Shaped, Php.Forest.NodeShape, Php.Forest.tokens, Php.Forest.text,
        Php.Forest.textOf, Php.Token.text]

/-- Both parts of the theorem apply: to a file that parses, and to one that does not, with
a forest from elsewhere. -/
theorem fitting_forest_rewrites_piping :
    (Php.outline? capturingSource = some capturingOutline ∧
      capturingOutline.Rewritable capturingSource) ∧
    Php.outline? pipingSource = none ∧ pipingForest.Fits pipingSource ∧
      (pipingForest.fileOutline pipingSource).Rewritable pipingSource := by
  have h : Php.outline? capturingSource = some capturingOutline := by decide +kernel
  have hnone : Php.outline? pipingSource = none := by decide +kernel
  exact ⟨⟨h, (fitting_forest_rewrites capturingSource).2 _ h⟩, hnone, fits_pipingForest,
    (fitting_forest_rewrites pipingSource).1 _ fits_pipingForest⟩

end NativeHints
