import Mathlib.Data.List.Forall2
import NativeHints.Proofs.Ranges
import NativeHints.Proofs.Undo

/-!
# Removals can be made

Edits that replace ranges apart from each other can be made in whatever order
they are given (`Edit.exists_applyAll_of_apart`).  Every removal lies within the
range of the hint it is about.  So where these ranges are apart and the positions
of the outline are boundaries, all hints can be removed.
-/

namespace NativeHints

namespace Edit

/-! ## Edits that are apart -/

/-- One of the ranges ends before the other begins. -/
def Apart (e f : Edit) : Prop := e.stop ≤ f.position ∨ f.stop ≤ e.position

theorem Apart.symm {e f : Edit} (h : e.Apart f) : f.Apart e := Or.symm h

/-- Edits of ranges that are not empty and apart can be made. -/
theorem exists_applyAll_of_apart {source : Text} {es : List Edit} (hpos : ∀ e ∈ es, 0 < e.length)
    (hapart : es.Pairwise Apart)
    (hcut : ∀ e ∈ es, source.isBoundary e.position = true ∧ source.isBoundary e.stop = true) :
    ∃ out, applyAll source es = .ok out := by
  have hsorted : (sort es).Pairwise Apart :=
    ((sort_perm es).pairwise_iff fun h => h.symm).mpr hapart
  -- In order, a range that is not empty cannot end where the one in front of it begins.
  refine exists_applyAll_of_row ?_ hcut
  refine (hsorted.and (sort_inOrder es)).imp_of_mem fun _ hf h => ?_
  have hlength := hpos _ ((sort_perm es).mem_iff.mp hf)
  have horder := h.2
  rcases h.1 with hle | hle
  · exact hle
  · simp only [stop] at hle
    omega

/-- An edit that takes something away within a range of a text. -/
structure Within (source : Text) (e : Edit) (s : Span) : Prop where
  start : s.start ≤ e.position
  stop : e.stop ≤ s.stop
  pos : 0 < e.length
  left : source.isBoundary e.position = true
  right : source.isBoundary e.stop = true

/-- Edits that take something away, each within a range of its own. -/
def Fit (source : Text) (es : List Edit) (ss : List Span) : Prop :=
  ∃ fs rs, fs.Perm es ∧ rs.Sublist ss ∧ List.Forall₂ (Within source) fs rs

namespace Fit

variable {source : Text} {es fs : List Edit} {ss rs : List Span}

theorem nil : Fit source [] ss := ⟨[], [], .refl _, List.nil_sublist _, .nil⟩

theorem singleton {e : Edit} {s : Span} (h : e.Within source s) : Fit source [e] [s] :=
  ⟨[e], [s], .refl _, .refl _, .cons h .nil⟩

theorem append (he : Fit source es ss) (hf : Fit source fs rs) :
    Fit source (es ++ fs) (ss ++ rs) := by
  obtain ⟨es', ss', hes, hss, hfit⟩ := he
  obtain ⟨fs', rs', hfs, hrs, hfit'⟩ := hf
  exact ⟨es' ++ fs', ss' ++ rs', hes.append hfs, hss.append hrs, List.rel_append hfit hfit'⟩

theorem swap (h : Fit source (es ++ fs) ss) : Fit source (fs ++ es) ss := by
  obtain ⟨es', ss', hes, hss, hfit⟩ := h
  exact ⟨es', ss', hes.trans List.perm_append_comm, hss, hfit⟩

theorem exists_within (h : List.Forall₂ (Within source) es ss) :
    ∀ e ∈ es, ∃ s ∈ ss, e.Within source s := by
  induction h with
  | nil => simp
  | cons hfirst _ ih =>
      intro e he
      rcases List.mem_cons.mp he with rfl | he
      · exact ⟨_, List.mem_cons_self, hfirst⟩
      · obtain ⟨s, hs, hwithin⟩ := ih e he
        exact ⟨s, List.mem_cons_of_mem _ hs, hwithin⟩

theorem pairwise_apart (h : List.Forall₂ (Within source) es ss)
    (hrow : ss.Pairwise fun s t => s.stop ≤ t.start) : es.Pairwise Apart := by
  induction h with
  | nil => exact .nil
  | @cons e s es ss hfirst hlater ih =>
      obtain ⟨hfront, hrest⟩ := List.pairwise_cons.mp hrow
      refine .cons (fun f hf => .inl ?_) (ih hrest)
      obtain ⟨t, ht, hwithin⟩ := exists_within hlater f hf
      calc e.stop ≤ s.stop := hfirst.stop
        _ ≤ t.start := hfront t ht
        _ ≤ f.position := hwithin.start

/-- Edits within ranges that stand in a row can be made. -/
theorem exists_applyAll (h : Fit source es ss) (hrow : ss.Pairwise fun s t => s.stop ≤ t.start) :
    ∃ out, applyAll source es = .ok out := by
  obtain ⟨fs, rs, hperm, hsub, hfit⟩ := h
  have hwithin : ∀ e ∈ es, ∃ s ∈ rs, e.Within source s := fun e he =>
    exists_within hfit e (hperm.mem_iff.mpr he)
  refine exists_applyAll_of_apart (fun e he => ?_)
    ((hperm.pairwise_iff fun h => h.symm).mp (pairwise_apart hfit (hrow.sublist hsub)))
    fun e he => ?_
  · obtain ⟨s, -, hs⟩ := hwithin e he
    exact hs.pos
  · obtain ⟨s, -, hs⟩ := hwithin e he
    exact ⟨hs.left, hs.right⟩

end Fit

end Edit

namespace Removal

open Edit

variable {source : Text}

/-! ## Removals from a sound outline -/

theorem within_deleteRange {s : Span} (hlt : s.start < s.stop) (hs : s.Sound source) :
    (Edit.deleteRange s.start s.stop).Within source s := by
  have hstop : (Edit.deleteRange s.start s.stop).stop = s.stop :=
    stop_deleteRange (Nat.le_of_lt hlt)
  exact ⟨Nat.le_refl _, Nat.le_of_eq hstop, length_deleteRange_pos hlt, hs.start,
    by rw [hstop]; exact hs.stop⟩

theorem fit_ofParam {p : Param} (hp : p.Sound source)
    (hpos : ∀ s ∈ p.range?.toList, s.start < s.stop) :
    Fit source (ofParam p) p.range?.toList := by
  unfold ofParam Param.range? at *
  cases hhint : p.hint with
  | none => exact .nil
  | some h =>
      have hsound := hp.hint h hhint
      have hlt : h.span.start < h.next := hpos ⟨h.span.start, h.next⟩ (by simp [hhint])
      show Fit source (if h.isScalar then _ else _) [⟨h.span.start, h.next⟩]
      split
      · exact .singleton (within_deleteRange (s := ⟨h.span.start, h.next⟩) hlt
          ⟨hsound.span.start, hsound.next⟩)
      · split
        · next hnull =>
            rw [Bool.and_eq_true_iff] at hnull
            obtain ⟨rest, hrest⟩ := Text.startsWith_iff.mp hnull.1
            obtain ⟨a, b, hsource, hsize, -⟩ := hsound.slice
            refine .singleton ⟨Nat.le_refl _, hlt, Nat.one_pos, hsound.span.start, ?_⟩
            -- A question mark is one byte long.
            refine Text.isBoundary_iff.mpr ⟨a ++ ['?'], rest ++ b, by simp [hsource, hrest], ?_⟩
            rw [Text.size_append, hsize]
            rfl
        · exact .nil

theorem fit_ofParams {ps : List Param} (hps : ∀ p ∈ ps, p.Sound source)
    (hpos : ∀ s ∈ ps.flatMap (fun p => p.range?.toList), s.start < s.stop) :
    Fit source (ps.flatMap ofParam) (ps.flatMap fun p => p.range?.toList) := by
  induction ps with
  | nil => exact .nil
  | cons p ps ih =>
      simp only [List.flatMap_cons, List.forall_mem_append, List.forall_mem_cons] at hps hpos ⊢
      exact .append (fit_ofParam hps.1 hpos.1) (ih hps.2 hpos.2)

theorem fit_ofFunction (path : Text) {f : FunctionHead} (hf : f.Sound source)
    (hpos : ∀ s ∈ f.ranges, s.start < s.stop) :
    ∃ es, ofFunction path f = .ok es ∧ Fit source es f.ranges := by
  obtain ⟨start, hend, hstart⟩ := hf.signatureEnd
  rw [FunctionHead.ranges, List.filterMap_eq_flatMap_toList] at *
  obtain ⟨hposParams, hposResult⟩ := List.forall_mem_append.mp hpos
  have hparams := fit_ofParams hf.params hposParams
  unfold ofFunction ofResult
  rw [FunctionHead.resultRange?, hend, Option.bind_some] at *
  cases hresult : f.result with
  | none => exact ⟨_, rfl, .swap (.append hparams .nil)⟩
  | some h =>
      have hlt : start < h.span.stop := hposResult ⟨start, h.span.stop⟩ (by simp [hresult])
      have hwithin := within_deleteRange (s := ⟨start, h.span.stop⟩) hlt
        ⟨hstart, (hf.result h hresult).span.stop⟩
      exact ⟨_, rfl, .swap (.append hparams (.singleton hwithin))⟩

/-- The removals from a sound outline lie within the ranges of its hints. -/
theorem fit_plan (path : Text) {o : Outline} (ho : o.Sound source)
    (hpos : ∀ s ∈ o.ranges, s.start < s.stop) :
    ∃ es, plan path o = .ok es ∧ Fit source es o.ranges := by
  unfold Outline.ranges at *
  induction o with
  | empty => exact ⟨[], rfl, .nil⟩
  | namespaceLine name rest ih => exact ih ho hpos
  | namespaceBlock name body rest ihb ihr =>
      simp only [Outline.functions, List.flatMap_append, List.forall_mem_append] at hpos ⊢
      obtain ⟨inner, hinner, hfit⟩ := ihb ho.1 hpos.1
      obtain ⟨outer, houter, hfit'⟩ := ihr ho.2 hpos.2
      exact ⟨_, by rw [plan, hinner, houter]; rfl, hfit.append hfit'⟩
  | imports clauses rest ih => exact ih ho hpos
  | classLike head members rest ihm ihr =>
      simp only [Outline.functions, List.flatMap_append, List.forall_mem_append] at hpos ⊢
      obtain ⟨inner, hinner, hfit⟩ := ihm ho.2.1 hpos.1
      obtain ⟨outer, houter, hfit'⟩ := ihr ho.2.2 hpos.2
      exact ⟨_, by rw [plan, hinner, houter]; rfl, hfit.append hfit'⟩
  | functionLike head body rest ihb ihr =>
      simp only [Outline.functions, List.flatMap_cons, List.flatMap_append,
        List.forall_mem_append] at hpos ⊢
      obtain ⟨own, hown, hfit⟩ := fit_ofFunction path ho.1 hpos.1
      obtain ⟨inner, hinner, hfit'⟩ := ihb ho.2.1 hpos.2.1
      obtain ⟨outer, houter, hfit''⟩ := ihr ho.2.2 hpos.2.2
      refine ⟨own ++ (inner ++ outer), ?_, hfit.append (hfit'.append hfit'')⟩
      rw [plan, hown, hinner, houter, ← List.append_assoc]
      rfl
  | property decl rest ih => exact ih ho.2 hpos
  | traitUse names rest ih => exact ih ho hpos

end Removal

/-- Hints can be removed where the outline is sound and their ranges stand in a row. -/
theorem exists_stripHints (path : Text) {source : Text} {f : FileOutline}
    (hsound : f.decls.Sound source) (hpos : ∀ s ∈ f.decls.ranges, s.start < s.stop)
    (hrow : f.decls.ranges.Pairwise fun s t => s.stop ≤ t.start) :
    ∃ out, stripHints path source f = .ok out := by
  obtain ⟨es, hplan, hfit⟩ := Removal.fit_plan path hsound hpos
  obtain ⟨out, hout⟩ := hfit.exists_applyAll hrow
  exact ⟨out, stripHints_eq_ok hplan hout⟩

end NativeHints
