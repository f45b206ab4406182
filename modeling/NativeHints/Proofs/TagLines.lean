import NativeHints.Proofs.Text
import NativeHints.Doc.Signature

/-!
# Tags are read back

A doc comment is searched as one text, and white space between the parts of a tag may be
the end of a line.  So it is not clear beforehand that a tag ends in the line it
begins in.  It does if nothing but the tags has an `@` in it.

The search is given by what it does at each character (`Finds`), without a number of
steps.  A *part* of a text is read (`Reads`) if the search finds certain tags in it whatever
follows.  Parts are put together one after the other, so it is enough to read one line
of each kind: a line with a parameter, in which only parameter tags find anything, and
the line with the result.
-/

namespace NativeHints

namespace Doc

/-! ## The search, character by character -/

section Search

variable {α : Type} {read : Text → Option (α × Text)}

/-- What a reader finds in a text, from left to right. -/
inductive Finds (read : Text → Option (α × Text)) : Text → List α → Prop
  /-- Nothing is left. -/
  | done : Finds read [] []
  /-- Something stands here, and the search goes on behind it. -/
  | here {c : Char} {front rest : Text} {found : α} {more : List α} :
      read (c :: front ++ rest) = some (found, rest) → Finds read rest more →
      Finds read (c :: front ++ rest) (found :: more)
  /-- Nothing stands here. -/
  | skip {c : Char} {t : Text} {more : List α} :
      read (c :: t) = none → Finds read t more → Finds read (c :: t) more

/-- As many steps as there are characters are enough. -/
theorem Finds.scan_eq {t : Text} {found : List α} (h : Finds read t found) {n : Nat}
    (hn : t.length ≤ n) : scan read n t = found := by
  induction h generalizing n with
  | done => cases n <;> rfl
  | here hread _ ih =>
      simp only [List.cons_append, List.length_cons, List.length_append] at hn
      obtain ⟨n, rfl⟩ := Nat.exists_eq_add_of_le' (Nat.le_of_add_left_le hn)
      rw [List.cons_append] at hread ⊢
      simp only [scan, hread, List.cons.injEq, true_and]
      exact ih (by omega)
  | skip hread _ ih =>
      simp only [List.length_cons] at hn
      obtain ⟨n, rfl⟩ := Nat.exists_eq_add_of_le' (Nat.le_of_add_left_le hn)
      simp only [scan, hread]
      exact ih (by omega)

/-- A reader finds certain things in a part of a text, whatever follows. -/
def Reads (read : Text → Option (α × Text)) (part : Text) (found : List α) : Prop :=
  ∀ ⦃rest : Text⦄ ⦃more : List α⦄, Finds read rest more →
    Finds read (part ++ rest) (found ++ more)

theorem Reads.findAll_eq {t : Text} {found : List α} (h : Reads read t found) :
    findAll read t = found := by
  have hfinds : Finds read t found := by simpa using h .done
  exact hfinds.scan_eq (Nat.le_refl _)

theorem Reads.nil : Reads read [] [] := fun _ _ h => h

theorem Reads.append {a b : Text} {xs ys : List α} (ha : Reads read a xs)
    (hb : Reads read b ys) : Reads read (a ++ b) (xs ++ ys) := by
  intro rest more hrest
  rw [List.append_assoc, List.append_assoc]
  exact ha (hb hrest)

theorem Reads.flatMap {β : Type} {text : β → Text} {found : β → List α} (lines : List β)
    (h : ∀ line, Reads read (text line) (found line)) :
    Reads read (lines.flatMap text) (lines.flatMap found) := by
  induction lines with
  | nil => exact Reads.nil
  | cons line lines ih =>
      simp only [List.flatMap_cons]
      exact Reads.append (h line) ih

/-- A reader of tags: it finds nothing at any other character than `@`. -/
def AtMark (read : Text → Option (α × Text)) : Prop :=
  ∀ (c : Char) (t : Text), c ≠ '@' → read (c :: t) = none

namespace AtMark

variable (hread : AtMark read) {part : Text}

include hread

/-- There is no tag without an `@`. -/
theorem reads_plain (h : '@' ∉ part) : Reads read part [] := by
  intro rest more hrest
  induction part with
  | nil => exact hrest
  | cons c part ih =>
      simp only [List.mem_cons, not_or] at h
      exact .skip (hread c _ (Ne.symm h.1)) (ih h.2)

/-- A tag of another kind is passed over. -/
theorem reads_other (hother : ∀ rest, read ('@' :: part ++ rest) = none) (h : '@' ∉ part) :
    Reads read ('@' :: part) [] := by
  intro rest more hrest
  exact .skip (hother rest) (hread.reads_plain h hrest)

/-- A tag that ends with the line is found. -/
theorem reads_line {found : α}
    (hfound : ∀ rest, read ('@' :: part ++ '\n' :: rest) = some (found, '\n' :: rest)) :
    Reads read ('@' :: part ++ ['\n']) [found] := by
  intro rest more hrest
  rw [List.append_assoc, List.singleton_append]
  exact .here (hfound rest) (.skip (hread _ _ (by decide)) hrest)

end AtMark

end Search

/-! ## The readers -/

/-- A run ends where the class of its characters does. -/
theorem run?_append {p : Char → Bool} {part : Text} {c : Char} (hne : part ≠ [])
    (hpart : ∀ d ∈ part, p d = true) (hc : p c = false) (rest : Text) :
    run? p (part ++ c :: rest) = some (part, c :: rest) := by
  rw [run?, List.takeWhile_append_of_pos hpart, List.dropWhile_append_of_pos hpart,
    List.takeWhile_cons_of_neg (by simp [hc]), List.dropWhile_cons_of_neg (by simp [hc]),
    List.append_nil]
  cases part with
  | nil => exact absurd rfl hne
  | cons d part => rfl

theorem afterBlanks?_space {t : Text} (hne : t ≠ []) (h : ∀ c ∈ t.head?, Text.isBlank c = false)
    (rest : Text) : afterBlanks? (' ' :: (t ++ rest)) = some (t ++ rest) := by
  cases t with
  | nil => exact absurd rfl hne
  | cons c t =>
      have hblank : Text.isBlank ' ' = true := by decide
      have hc : Text.isBlank c = false := h c rfl
      simp [afterBlanks?, hblank, hc]

/-- The three parts of a parameter tag. -/
theorem paramTag?_eq_some {t afterType atName rest type name : Text}
    (htype : valueTag? "@param".toList t = some (type, afterType))
    (hblanks : afterBlanks? afterType = some atName)
    (hname : dollarName? (skipDots (skipReference atName)) = some (name, rest)) :
    paramTag? t = some (⟨type, name⟩, rest) := by
  rw [paramTag?, htype]
  show (afterBlanks? afterType).bind _ = _
  rw [hblanks]
  show (dollarName? (skipDots (skipReference atName))).bind _ = _
  rw [hname]
  rfl

theorem atMark_valueTag? (word : Text) : AtMark (valueTag? ('@' :: word)) := by
  intro c t hc
  simp [valueTag?, Text.strip?, Ne.symm hc]

theorem atMark_paramTag? : AtMark paramTag? := by
  intro c t hc
  rw [paramTag?, show valueTag? "@param".toList (c :: t) = none from atMark_valueTag? _ c t hc]
  rfl

/-! ## Lines -/

/-- A written type that a tag may give. -/
structure TypeWord where
  /-- The type. -/
  text : Text
  nonempty : text ≠ []
  unbroken : text.all (!Text.isBlank ·) = true
  unmarked : '@' ∉ text

/-- A parameter tag that stands in a line of its own. -/
structure ParamLine where
  /-- The type. -/
  type : TypeWord
  /-- Whether an `&` stands before the variable. -/
  reference : Bool
  /-- Whether dots stand before the variable. -/
  variadic : Bool
  /-- The name of the variable. -/
  name : Text
  nonempty : name ≠ []
  word : name.all Text.isWordChar = true

namespace TypeWord

variable (type : TypeWord)

/-- The tag that gives the type to a result, behind its `@`. -/
def resultTag : Text := "return ".toList ++ type.text

theorem mark_not_mem_resultTag : '@' ∉ type.resultTag := by
  unfold resultTag
  simp [type.unmarked]

theorem isBlank_of_mem {c : Char} (h : c ∈ type.text) : Text.isBlank c = false := by
  simpa using List.all_eq_true.mp type.unbroken c h

/-- A type is read up to the white space behind it. -/
theorem valueTag?_append (word : Text) {c : Char} (hc : Text.isBlank c = true) (rest : Text) :
    valueTag? word (word ++ ' ' :: (type.text ++ c :: rest)) = some (type.text, c :: rest) := by
  have hstrip : Text.strip? word (word ++ ' ' :: (type.text ++ c :: rest)) =
      some (' ' :: (type.text ++ c :: rest)) := Text.strip?_eq_some_iff.mpr rfl
  have hblanks : afterBlanks? (' ' :: (type.text ++ c :: rest)) = some (type.text ++ c :: rest) :=
    afterBlanks?_space type.nonempty
      (fun d hd => type.isBlank_of_mem (List.mem_of_mem_head? hd)) _
  have hrun : typeRun? (type.text ++ c :: rest) = some (type.text, c :: rest) :=
    run?_append type.nonempty (List.all_eq_true.mp type.unbroken) (by simp [hc]) rest
  simp [valueTag?, hstrip, hblanks, hrun]

theorem valueTag?_resultTag (rest : Text) :
    valueTag? "@return".toList ('@' :: type.resultTag ++ '\n' :: rest) =
      some (type.text, '\n' :: rest) :=
  type.valueTag?_append "@return".toList (by decide) rest

end TypeWord

namespace ParamLine

variable (line : ParamLine)

/-- What stands before the dollar sign of the variable. -/
def marks : Text :=
  (if line.reference then ['&'] else []) ++ (if line.variadic then "...".toList else [])

/-- The tag, behind its `@`. -/
def tagText : Text := "param ".toList ++ line.type.text ++ ' ' :: (line.marks ++ '$' :: line.name)

/-- What there is to be read in the line. -/
def tag : ParamTag := ⟨line.type.text, line.name⟩

theorem mark_not_mem_tagText : '@' ∉ line.tagText := by
  have hname : '@' ∉ line.name := by
    intro h
    have hmark : Text.isWordChar '@' = false := by decide +kernel
    rw [List.all_eq_true.mp line.word '@' h] at hmark
    cases hmark
  have hmarks : '@' ∉ line.marks := by
    rw [marks]
    cases line.reference <;> cases line.variadic <;> decide
  unfold tagText
  simp [hname, hmarks, line.type.unmarked]

/-- Behind its marks the reader comes to the variable. -/
theorem skip_marks (t : Text) :
    skipDots (skipReference (line.marks ++ '$' :: t)) = '$' :: t := by
  rw [marks]
  cases line.reference <;> cases line.variadic <;> rfl

/-- The reader of parameter tags takes the line up to its end. -/
theorem paramTag?_tagText (rest : Text) :
    paramTag? ('@' :: line.tagText ++ '\n' :: rest) = some (line.tag, '\n' :: rest) := by
  have htag : '@' :: line.tagText ++ '\n' :: rest = "@param".toList ++ ' ' :: (line.type.text ++
      ' ' :: (line.marks ++ ['$'] ++ (line.name ++ '\n' :: rest))) := by
    unfold tagText
    simp
  have hend : Text.isWordChar '\n' = false := by decide +kernel
  rw [htag]
  refine paramTag?_eq_some (line.type.valueTag?_append _ (by decide) _)
    (afterBlanks?_space (by simp) ?_ _) ?_
  · rw [marks]
    cases line.reference <;> cases line.variadic <;> simp <;> decide
  · rw [List.append_assoc, List.singleton_append, line.skip_marks]
    exact run?_append line.nonempty (List.all_eq_true.mp line.word) hend rest

end ParamLine

/-! ## Doc comments -/

/-- A tag in a line of its own. -/
def inLine (tag : Text) : Text := " * ".toList ++ '@' :: tag ++ ['\n']

/-- A doc comment with tags for parameters and for the result, each in its line. -/
def tagComment (lines : List ParamLine) (result : TypeWord) : Text :=
  "/**\n".toList ++ lines.flatMap (fun line => inLine line.tagText) ++ inLine result.resultTag ++
    " */".toList

/-- What a reader finds in the lines is what it finds in the comment. -/
theorem AtMark.findAll_tagComment {α : Type} {read : Text → Option (α × Text)}
    (hread : AtMark read) {ofParam : ParamLine → List α} {ofResult : List α}
    (lines : List ParamLine) (result : TypeWord)
    (hparam : ∀ line : ParamLine, Reads read ('@' :: line.tagText ++ ['\n']) (ofParam line))
    (hresult : Reads read ('@' :: result.resultTag ++ ['\n']) ofResult) :
    findAll read (tagComment lines result) = lines.flatMap ofParam ++ ofResult := by
  have hline : ∀ {tag : Text} {found : List α}, Reads read ('@' :: tag ++ ['\n']) found →
      Reads read (inLine tag) found := by
    intro tag found h
    have hfront : Reads read " * ".toList [] := hread.reads_plain (by decide)
    unfold inLine
    simpa using hfront.append h
  have hopen : Reads read "/**\n".toList [] := hread.reads_plain (by decide)
  have hclose : Reads read " */".toList [] := hread.reads_plain (by decide)
  have hcomment : Reads read (tagComment lines result)
      ([] ++ lines.flatMap ofParam ++ ofResult ++ []) :=
    ((hopen.append (Reads.flatMap lines fun line => hline (hparam line))).append
      (hline hresult)).append hclose
  simpa using hcomment.findAll_eq

/-- The parameter tags of the comment are those of its lines. -/
theorem paramTags_tagComment (lines : List ParamLine) (result : TypeWord) :
    paramTags (tagComment lines result) = lines.map ParamLine.tag := by
  have hparam : ∀ line : ParamLine, Reads paramTag? ('@' :: line.tagText ++ ['\n']) [line.tag] :=
    fun line => atMark_paramTag?.reads_line line.paramTag?_tagText
  have hresult : Reads paramTag? ('@' :: result.resultTag ++ ['\n']) [] := by
    refine atMark_paramTag?.reads_other (fun rest => ?_) ?_
    · unfold TypeWord.resultTag
      simp [paramTag?, valueTag?, Text.strip?]
    · simp [result.mark_not_mem_resultTag]
  rw [paramTags, atMark_paramTag?.findAll_tagComment lines result hparam hresult,
    List.append_nil, List.map_eq_flatMap]

/-- The result tag of the comment is the one of its last line. -/
theorem valueTags_tagComment (lines : List ParamLine) (result : TypeWord) :
    valueTags "@return".toList (tagComment lines result) = [result.text] := by
  have hread : AtMark (valueTag? "@return".toList) := atMark_valueTag? _
  have hparam : ∀ line : ParamLine,
      Reads (valueTag? "@return".toList) ('@' :: line.tagText ++ ['\n']) [] := by
    intro line
    refine hread.reads_other (fun rest => ?_) ?_
    · unfold ParamLine.tagText
      simp [valueTag?, Text.strip?]
    · simp [line.mark_not_mem_tagText]
  have hresult : Reads (valueTag? "@return".toList) ('@' :: result.resultTag ++ ['\n'])
      [result.text] := hread.reads_line result.valueTag?_resultTag
  rw [valueTags, hread.findAll_tagComment lines result hparam hresult]
  simp

/-! ## Signatures -/

section Signatures

variable (s : Scope) (enclosing : Option Enclosing)

/-- The type that the lines give to a variable: the first one that has a hint. -/
def typeIn (lines : List ParamLine) (name : Text) : Option HintType :=
  lines.findSome? fun line =>
    if line.name = name then readType? s enclosing line.type.text else none

/-- Looking up a key among pairs is looking for the first value that has it. -/
theorem lookup_filterMap {α β : Type} (key : α → Text) (value : α → Option β) (l : List α)
    (name : Text) :
    (l.filterMap fun x => (value x).map fun y => (key x, y)).lookup name =
      l.findSome? fun x => if key x = name then value x else none := by
  induction l with
  | nil => rfl
  | cons x l ih =>
      cases hvalue : value x with
      | none => simp [hvalue, ih]
      | some y =>
          by_cases hname : key x = name
          · simp [hvalue, hname]
          · have hkey : (name == key x) = false := by simpa using Ne.symm hname
            simp [hvalue, hname, hkey, List.lookup_cons, ih]

theorem signature_tagComment (params : List Text) (lines : List ParamLine) (result : TypeWord) :
    signature s enclosing params (tagComment lines result) =
      ⟨params.map (typeIn s enclosing lines), readType? s enclosing result.text⟩ := by
  have htyped : typedParams s enclosing (tagComment lines result) =
      lines.filterMap fun line =>
        (readType? s enclosing line.type.text).map fun type => (line.name, type) := by
    rw [typedParams, paramTags_tagComment, List.filterMap_map]
    rfl
  have hparam : ∀ name, (typedParams s enclosing (tagComment lines result)).lookup name =
      typeIn s enclosing lines name := by
    intro name
    rw [htyped, lookup_filterMap, typeIn]
  have hresult : resultType? s enclosing (tagComment lines result) =
      readType? s enclosing result.text := by
    rw [resultType?, valueTags_tagComment]
    rfl
  simp [signature, hparam, hresult]

/-- Lines for different variables may change places. -/
theorem typeIn_swap {a b : ParamLine} (h : a.name ≠ b.name) (front back : List ParamLine)
    (name : Text) :
    typeIn s enclosing (front ++ a :: b :: back) name =
      typeIn s enclosing (front ++ b :: a :: back) name := by
  simp only [typeIn, List.findSome?_append, List.findSome?_cons]
  by_cases ha : a.name = name
  · have hb : b.name ≠ name := fun hb => h (ha.trans hb.symm)
    simp [ha, hb]
  · simp [ha]

/-- From a comment with one tag in a line the tags are read back.  Each parameter of a function gets
the first type that the lines give to its variable and that has a hint, if there is one.  The
result gets the type of the last tag.  So the order of lines for different variables
has no meaning. -/
theorem tags_read_back (params : List Text) (result : TypeWord) :
    (∀ lines, signature s enclosing params (tagComment lines result) =
      ⟨params.map (typeIn s enclosing lines), readType? s enclosing result.text⟩) ∧
    ∀ (front : List ParamLine) (a b : ParamLine) (back : List ParamLine), a.name ≠ b.name →
      signature s enclosing params (tagComment (front ++ a :: b :: back) result) =
        signature s enclosing params (tagComment (front ++ b :: a :: back) result) := by
  refine ⟨fun lines => signature_tagComment s enclosing params lines result, ?_⟩
  intro front a b back hname
  have htypes : typeIn s enclosing (front ++ a :: b :: back) =
      typeIn s enclosing (front ++ b :: a :: back) :=
    funext (typeIn_swap s enclosing hname front back)
  rw [signature_tagComment, signature_tagComment, htypes]

end Signatures

/-- `@param string &$items` -/
def itemsLine : ParamLine :=
  ⟨⟨"string".toList, by decide, by decide, by decide⟩, true, false,
    "items".toList, by decide, by decide⟩

/-- `@param mixed $limit` -/
def anyLimitLine : ParamLine :=
  ⟨⟨"mixed".toList, by decide, by decide, by decide⟩, false, false,
    "limit".toList, by decide, by decide⟩

/-- `@param int ...$limit` -/
def limitLine : ParamLine :=
  ⟨⟨"int".toList, by decide, by decide, by decide⟩, false, true,
    "limit".toList, by decide, by decide⟩

/-- `@return Item[]` -/
def itemsResult : TypeWord := ⟨"Item[]".toList, by decide, by decide, by decide⟩

/-- The parameters come in another order than the lines, and there is no hint for `mixed`. -/
theorem tags_read_back_items :
    tagComment [itemsLine, anyLimitLine, limitLine] itemsResult =
        "/**\n * @param string &$items\n * @param mixed $limit\n".toList ++
          " * @param int ...$limit\n * @return Item[]\n */".toList ∧
      signature .start none ["limit".toList, "other".toList, "items".toList]
          (tagComment [itemsLine, anyLimitLine, limitLine] itemsResult) =
        ⟨[some (.named "int".toList false), none, some (.named "string".toList false)],
          some (.named "array".toList false)⟩ ∧
      itemsLine.name ≠ anyLimitLine.name ∧
      signature .start none ["limit".toList, "other".toList, "items".toList]
          (tagComment [itemsLine, anyLimitLine, limitLine] itemsResult) =
        signature .start none ["limit".toList, "other".toList, "items".toList]
          (tagComment [anyLimitLine, itemsLine, limitLine] itemsResult) := by
  obtain ⟨hread, hswap⟩ := tags_read_back .start none
    ["limit".toList, "other".toList, "items".toList] itemsResult
  have hname : itemsLine.name ≠ anyLimitLine.name := by decide
  refine ⟨by decide, ?_, hname, hswap [] _ _ _ hname⟩
  rw [hread]
  decide

end Doc

end NativeHints
