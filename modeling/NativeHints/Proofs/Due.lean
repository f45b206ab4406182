import NativeHints.Insertion.Plan

/-!
# What is due

At most one hint is *due* at each place of a declaration.  None is if one stands
there.  Otherwise it is what the features leave of the type.  Planning for a
declaration is inserting what is due, and only a result that has no place fails.
-/

namespace NativeHints

namespace Insertion

/-- The hint that is due where this one may stand already. -/
def due (hint : Option WrittenHint) (type : Option HintType)
    (allowed : HintType → Option HintType) : Option HintType :=
  match hint with
  | some _ => none
  | none => type.bind allowed

theorem due_of_isSome {hint : Option WrittenHint} (h : hint.isSome = true)
    (type : Option HintType) (allowed : HintType → Option HintType) :
    due hint type allowed = none := by
  cases hint with
  | none => cases h
  | some hint => rfl

theorem due_eq_some_iff {hint : Option WrittenHint} {type : Option HintType}
    {allowed : HintType → Option HintType} {t : HintType} :
    due hint type allowed = some t ↔ hint = none ∧ ∃ u, type = some u ∧ allowed u = some t := by
  cases hint with
  | none => simp [due, Option.bind_eq_some_iff]
  | some hint => simp [due]

/-- If less is allowed, what was due and is allowed still is due. -/
theorem due_filter {allowed allowed' : HintType → Option HintType} {p : HintType → Bool}
    (h : ∀ t, allowed t = (allowed' t).filter p) (hint : Option WrittenHint)
    (type : Option HintType) : due hint type allowed = (due hint type allowed').filter p := by
  cases hint with
  | some hint => rfl
  | none =>
      cases type with
      | none => rfl
      | some t => exact h t

/-! ## Parameters -/

theorem ofParam?_eq (options : Options) (inClass : Bool) (s : Scope) (p : Param)
    (type : Option HintType) :
    ofParam? options inClass s p type =
      (due p.hint type (parameterType? options inClass p)).map
        fun t => .parameter p.hintAt t (s.display t) := by
  cases hhint : p.hint with
  | some hint => simp only [ofParam?, hhint, due, Option.map_none]
  | none =>
      cases type with
      | none => simp only [ofParam?, hhint, due, Option.bind_none, Option.map_none]
      | some t => simp only [ofParam?, hhint, due, Option.bind_some]

/-! ## Results -/

section Result

variable (c : Context) (s : Scope) (classes : List Text)

theorem ofResult_eq (f : FunctionHead) (type : Option HintType) :
    ofResult c s classes f type =
      match due f.result type (resultType? c.options (!classes.isEmpty)), f.signatureEnd with
      | none, _ => .ok []
      | some t, some position => .ok [.result position t (s.display t)]
      | some _, none => .error (.missingDelimiter c.path f.start) := by
  cases hhint : f.result with
  | some hint => simp only [ofResult, hhint, due]
  | none =>
      cases type with
      | none => simp only [ofResult, hhint, due, Option.bind_none]
      | some t =>
          cases ht : resultType? c.options (!classes.isEmpty) t with
          | none => simp only [ofResult, hhint, ht, due, Option.bind_some]
          | some u =>
              cases hend : f.signatureEnd <;>
                simp only [ofResult, hhint, ht, hend, due, Option.bind_some]

variable {f : FunctionHead}

theorem ofResult_of_end {e : Nat} (hend : f.signatureEnd = some e) (type : Option HintType) :
    ofResult c s classes f type =
      .ok ((due f.result type (resultType? c.options (!classes.isEmpty))).map
        fun t => .result e t (s.display t)).toList := by
  rw [ofResult_eq, hend]
  cases due f.result type (resultType? c.options (!classes.isEmpty)) <;> rfl

theorem ofResult_of_no_end (hend : f.signatureEnd = none) (type : Option HintType) :
    ofResult c s classes f type =
      if (due f.result type (resultType? c.options (!classes.isEmpty))).isSome then
        .error (.missingDelimiter c.path f.start)
      else .ok [] := by
  rw [ofResult_eq, hend]
  cases due f.result type (resultType? c.options (!classes.isEmpty)) <;> rfl

end Result

/-! ## Function-likes -/

theorem ofFunction_of_signature {c : Context} {s : Scope} {classes : List Text} {f : FunctionHead}
    {signature : Signature} (h : signatureFor c s classes f = some signature) :
    ofFunction c s classes f = (ofResult c s classes f signature.result).map
      (ofParams c.options (!classes.isEmpty) s f.params signature.params ++ ·) := by
  rw [ofFunction, h]
  rfl

theorem ofFunction_of_none {c : Context} {s : Scope} {classes : List Text} {f : FunctionHead}
    (h : signatureFor c s classes f = none) : ofFunction c s classes f = .ok [] := by
  rw [ofFunction, h]

/-- The insertions for a function-like are those of its parameters and of its result, if it
has a signature. -/
theorem ofFunction_eq_ok_iff {c : Context} {s : Scope} {classes : List Text} {f : FunctionHead}
    {is : List Insertion} :
    ofFunction c s classes f = .ok is ↔
      (signatureFor c s classes f = none ∧ is = []) ∨
        ∃ signature result, signatureFor c s classes f = some signature ∧
          ofResult c s classes f signature.result = .ok result ∧
          is = ofParams c.options (!classes.isEmpty) s f.params signature.params ++ result := by
  cases hsignature : signatureFor c s classes f with
  | none =>
      rw [ofFunction_of_none hsignature]
      simp [eq_comm]
  | some signature =>
      rw [ofFunction_of_signature hsignature]
      cases hresult : ofResult c s classes f signature.result with
      | error e => simp [Except.map, hresult]
      | ok result =>
          constructor
          · intro h
            exact .inr ⟨signature, result, rfl, hresult, (Except.ok.inj h).symm⟩
          · rintro (⟨h, -⟩ | ⟨signature', result', h, hresult', rfl⟩)
            · cases h
            · cases h
              cases hresult.symm.trans hresult'
              rfl

/-- Only a result that is due and has no place fails. -/
theorem ofFunction_error {c : Context} {s : Scope} {classes : List Text} {f : FunctionHead}
    {e : Error} (h : ofFunction c s classes f = .error e) :
    f.signatureEnd = none ∧ e = .missingDelimiter c.path f.start := by
  cases hsignature : signatureFor c s classes f with
  | none => rw [ofFunction_of_none hsignature] at h; cases h
  | some signature =>
      rw [ofFunction_of_signature hsignature] at h
      cases hend : f.signatureEnd with
      | some position => rw [ofResult_of_end c s classes hend] at h; cases h
      | none =>
          rw [ofResult_of_no_end c s classes hend] at h
          split at h
          · cases h; exact ⟨rfl, rfl⟩
          · cases h

/-! ## Properties -/

theorem ofProperty_of_single (c : Context) (s : Scope) (around : Text) (outer : List Text)
    {p : Property} {e : PropertyElement} (helements : p.elements = [e]) :
    ofProperty c s (around :: outer) p =
      ((due p.hint (c.graph.property? around e.name) (propertyType? c.options true)).map
        fun t => .property e.start t (s.display t)).toList := by
  cases hhint : p.hint with
  | some hint => simp only [ofProperty, hhint, due]; rfl
  | none =>
      simp only [ofProperty, hhint, helements, due]
      cases (c.graph.property? around e.name).bind (propertyType? c.options true) <;> rfl

/-- A property gets a hint only if it stands alone in a class. -/
theorem ofProperty_cases (c : Context) (s : Scope) (classes : List Text) (p : Property) :
    ofProperty c s classes p = [] ∨
      ∃ e around outer, p.elements = [e] ∧ classes = around :: outer := by
  rw [ofProperty.eq_def]
  split
  · next e around outer hhint helements => exact .inr ⟨e, around, outer, helements, rfl⟩
  · exact .inl rfl

end Insertion

end NativeHints
