import NativeHints.Files.Discovery
import NativeHints.Proofs.ByteOrder
import NativeHints.Proofs.Stored

/-!
# Directories in order

Sorting a directory changes the order of its entries and nothing else (`at?_sorted`).  In a sorted
directory a walk meets each file once, and meets all that there are (`mem_files_iff`).  It meets
them in the order of their locations, compared name by name and each name by its bytes
(`pairwise_files`).  A directory and a file never have the same name, so what is below a
directory stays together.
-/

namespace NativeHints.Files

/-- Locations are compared name by name, and names by their bytes. -/
def Location.Before : Location → Location → Prop := List.Lex fun a b => a.bytes < b.bytes

namespace Entry

/-- An entry with its directories sorted. -/
def sorted : Entry → Entry
  | file content => file content
  | directory inside => directory inside.sorted

theorem sorted_eq_file_iff {e : Entry} {content : Content} :
    e.sorted = file content ↔ e = file content := by
  cases e <;> simp [sorted]

end Entry

namespace Tree

/-! ## Sorting -/

/-- All names in a directory are greater than a name. -/
def Above (name : Text) : Tree → Prop
  | empty => True
  | file n _ rest => name < n ∧ rest.Above name
  | directory n _ rest => name < n ∧ rest.Above name

/-- Names increase in a directory, and in all directories below it. -/
def Ordered : Tree → Prop
  | empty => True
  | file n _ rest => rest.Above n ∧ rest.Ordered
  | directory n inside rest => rest.Above n ∧ inside.Ordered ∧ rest.Ordered

/-- The same of an entry. -/
def OrderedEntry : Entry → Prop
  | .file _ => True
  | .directory inside => inside.Ordered

@[simp] theorem above_push {name n : Text} {e : Entry} {rest : Tree} :
    (push n e rest).Above name ↔ name < n ∧ rest.Above name := by
  cases e <;> rfl

@[simp] theorem ordered_push {n : Text} {e : Entry} {rest : Tree} :
    (push n e rest).Ordered ↔ rest.Above n ∧ OrderedEntry e ∧ rest.Ordered := by
  cases e <;> simp [push, Ordered, OrderedEntry]

theorem put_push (name n : Text) (e old : Entry) (rest : Tree) :
    put name e (push n old rest) =
      if name = n then push name e rest
      else if name < n then push name e (push n old rest)
      else push n old (put name e rest) := by
  cases old <;> rfl

/-- A tree is empty or has a first entry.  What is proved for its rest may be used. -/
theorem push_induction {motive : Tree → Prop} (hempty : motive empty)
    (hpush : ∀ n e rest, motive rest → motive (push n e rest)) (t : Tree) : motive t := by
  induction t with
  | empty => exact hempty
  | file n content rest ih => exact hpush n (.file content) rest ih
  | directory n inside rest _ ih => exact hpush n (.directory inside) rest ih

theorem Above.trans {name n : Text} {t : Tree} (h : t.Above n) (hlt : name < n) : t.Above name := by
  induction t using push_induction with
  | hempty => trivial
  | hpush m e rest ih =>
      rw [above_push] at h ⊢
      exact ⟨List.lt_trans hlt h.1, ih h.2⟩

theorem Above.put {name n : Text} {t : Tree} (h : t.Above name) (hlt : name < n) (e : Entry) :
    (t.put n e).Above name := by
  induction t using push_induction with
  | hempty => exact above_push.mpr ⟨hlt, trivial⟩
  | hpush m old rest ih =>
      rw [above_push] at h
      rw [put_push]
      split
      · exact above_push.mpr ⟨hlt, h.2⟩
      · split
        · exact above_push.mpr ⟨hlt, above_push.mpr h⟩
        · exact above_push.mpr ⟨h.1, ih h.2⟩

/-- Putting an entry keeps the order. -/
theorem Ordered.put {t : Tree} (h : t.Ordered) (name : Text) {e : Entry} (he : OrderedEntry e) :
    (t.put name e).Ordered := by
  induction t using push_induction with
  | hempty => exact ordered_push.mpr ⟨trivial, he, trivial⟩
  | hpush n old rest ih =>
      obtain ⟨habove, hold, hrest⟩ := ordered_push.mp h
      rw [put_push]
      split
      · next heq => exact ordered_push.mpr ⟨heq ▸ habove, he, hrest⟩
      · next hne =>
          split
          · next hlt =>
              exact ordered_push.mpr ⟨above_push.mpr ⟨hlt, habove.trans hlt⟩, he, h⟩
          · next hle =>
              have hlt : n < name := by
                rcases List.le_iff_lt_or_eq.mp (List.not_lt.mp hle) with hlt | heq
                · exact hlt
                · exact absurd heq.symm hne
              exact ordered_push.mpr ⟨habove.put hlt e, hold, ih hrest⟩

theorem ordered_sorted (t : Tree) : t.sorted.Ordered := by
  induction t with
  | empty => trivial
  | file name content rest ih => exact ih.put name trivial
  | directory name inside rest ihinside ihrest => exact ihrest.put name ihinside

theorem find?_sorted (t : Tree) (name : Text) :
    t.sorted.find? name = (t.find? name).map Entry.sorted := by
  induction t with
  | empty => rfl
  | file n content rest ih =>
      rw [sorted, find?_put, find?, ih]
      split <;> rfl
  | directory n inside rest _ ih =>
      rw [sorted, find?_put, find?, ih]
      split <;> rfl

/-- After sorting the same stands at every location, sorted itself. -/
theorem at?_sorted (t : Tree) (place : Location) :
    t.sorted.at? place = (t.at? place).map Entry.sorted := by
  induction place generalizing t with
  | nil => rfl
  | cons name names ih =>
      rw [at?_cons, at?_cons, find?_sorted]
      cases t.find? name with
      | none => rfl
      | some e =>
          cases e with
          | file content => cases names <;> rfl
          | directory inside =>
              show (Entry.directory inside.sorted).at? names =
                ((Entry.directory inside).at? names).map Entry.sorted
              rw [← at?_eq, ← at?_eq, ih]

theorem at?_sorted_eq_file_iff {t : Tree} {place : Location} {content : Content} :
    t.sorted.at? place = some (.file content) ↔ t.at? place = some (.file content) := by
  rw [at?_sorted, Option.map_eq_some_iff]
  simp only [Entry.sorted_eq_file_iff, exists_eq_right]

/-! ## Files in order -/

theorem filesBelow_eq (t : Tree) (above : Location) :
    t.filesBelow above = t.files.map fun x => (above ++ x.1, x.2) := by
  induction t generalizing above with
  | empty => rfl
  | file n content rest ih => simp [files, filesBelow, ih above]
  | directory n inside rest ihinside ihrest =>
      simp [files, filesBelow, ihinside (above ++ [n]), ihinside [n], ihrest above]

theorem files_file (n : Text) (content : Content) (rest : Tree) :
    (file n content rest).files = ([n], content) :: rest.files :=
  rfl

theorem files_directory (n : Text) (inside rest : Tree) :
    (directory n inside rest).files =
      (inside.files.map fun x => (n :: x.1, x.2)) ++ rest.files := by
  show inside.filesBelow [n] ++ rest.files = _
  rw [filesBelow_eq]
  rfl

/-- Each file has a location, which starts with a name of the directory. -/
theorem Above.head_of_mem_files {name : Text} {t : Tree} (h : t.Above name)
    {x : Location × Content} (hx : x ∈ t.files) : ∃ n names, x.1 = n :: names ∧ name < n := by
  induction t with
  | empty => cases hx
  | file n content rest ih =>
      rw [files_file] at hx
      rcases List.mem_cons.mp hx with rfl | hx
      · exact ⟨n, [], rfl, h.1⟩
      · exact ih h.2 hx
  | directory n inside rest _ ih =>
      rw [files_directory] at hx
      rcases List.mem_append.mp hx with hx | hx
      · obtain ⟨y, -, rfl⟩ := List.mem_map.mp hx
        exact ⟨n, y.1, rfl, h.1⟩
      · exact ih h.2 hx

/-- A walk meets the files in increasing order, so each of them once. -/
theorem Ordered.pairwise_files {t : Tree} (h : t.Ordered) :
    (t.files.map Prod.fst).Pairwise Location.Before := by
  induction t with
  | empty => exact .nil
  | file n content rest ih =>
      rw [files_file, List.map_cons]
      refine .cons (fun place hplace => ?_) (ih h.2)
      obtain ⟨x, hx, rfl⟩ := List.mem_map.mp hplace
      obtain ⟨m, names, hnames, hlt⟩ := h.1.head_of_mem_files hx
      rw [hnames]
      exact .rel (Text.bytes_lt_iff.mpr hlt)
  | directory n inside rest ihinside ihrest =>
      obtain ⟨habove, hinside, hrest⟩ := h
      rw [files_directory, List.map_append, List.map_map, List.pairwise_append]
      refine ⟨?_, ihrest hrest, fun place hplace other hother => ?_⟩
      · have hlocal := ihinside hinside
        rw [List.pairwise_map] at hlocal ⊢
        exact hlocal.imp fun hbefore => .cons hbefore
      · obtain ⟨x, -, rfl⟩ := List.mem_map.mp hplace
        obtain ⟨y, hy, rfl⟩ := List.mem_map.mp hother
        obtain ⟨m, names, hnames, hlt⟩ := habove.head_of_mem_files hy
        rw [hnames]
        exact .rel (Text.bytes_lt_iff.mpr hlt)

theorem find?_push (name n : Text) (e : Entry) (rest : Tree) :
    (push n e rest).find? name = if name = n then some e else rest.find? name := by
  cases e <;> rfl

theorem Above.find?_eq_none {name : Text} {t : Tree} (h : t.Above name) : t.find? name = none := by
  induction t using push_induction with
  | hempty => rfl
  | hpush n e rest ih =>
      obtain ⟨hlt, hrest⟩ := above_push.mp h
      have hne : name ≠ n := by
        rintro rfl
        exact List.lt_irrefl name hlt
      rw [find?_push, if_neg hne, ih hrest]

/-- A walk meets all files, and nothing else. -/
theorem Ordered.mem_files_iff {t : Tree} (h : t.Ordered) {place : Location} {content : Content} :
    (place, content) ∈ t.files ↔ t.at? place = some (.file content) := by
  induction t generalizing place with
  | empty => cases place <;> simp [files, filesBelow, at?_cons, find?, at?]
  | file n old rest ih =>
      rw [files_file, List.mem_cons, ih h.2]
      cases place with
      | nil => simp [at?]
      | cons name names =>
          rw [at?_cons, at?_cons, find?]
          split
          · next heq =>
              rw [heq, h.1.find?_eq_none]
              cases names <;> simp [Entry.at?, eq_comm]
          · next hne => simp [hne]
  | directory n inside rest ihinside ihrest =>
      obtain ⟨habove, hinside, hrest⟩ := h
      rw [files_directory, List.mem_append, ihrest hrest]
      cases place with
      | nil => simp [at?]
      | cons name names =>
          have hmem : (name :: names, content) ∈ inside.files.map (fun x => (n :: x.1, x.2)) ↔
              name = n ∧ inside.at? names = some (.file content) := by
            rw [← ihinside hinside, List.mem_map]
            constructor
            · rintro ⟨x, hx, heq⟩
              cases heq
              exact ⟨rfl, hx⟩
            · rintro ⟨rfl, hx⟩
              exact ⟨_, hx, rfl⟩
          rw [hmem, at?_cons, at?_cons, find?]
          split
          · next heq =>
              rw [heq, habove.find?_eq_none, at?_eq inside]
              simp
          · next hne => simp [hne]

end Tree

end NativeHints.Files
