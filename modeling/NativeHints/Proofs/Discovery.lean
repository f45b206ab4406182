import NativeHints.Proofs.Directories
import NativeHints.Proofs.Globs
import NativeHints.Proofs.Text
import NativeHints.Proofs.Walk

/-!
# Which files are found

The files that count below a directory are described without a walk (`IsSource`): a file
stands there, its name ends in `.php` in any case, and no pattern matches its path below the
directory.  Discovery gives exactly these, each once and in the order of their locations, root
by root (`discovery_exact`).  A path that it gives leads to its file.

A root that is a lone dash is the exception.  It stands for the standard input, so
nothing is found below a directory of that name (`dash_directory_skipped`).
-/

namespace NativeHints.Files

/-! ## What counts -/

/-- A name with an extension that is `php` in any case, and something before it. -/
def IsPhpName (name : Text) : Prop :=
  ∃ stem extension, name = stem ++ '.' :: extension ∧ stem ≠ [] ∧
    Text.Same extension "php".toList

/-- One of the patterns that are written matches a path. -/
def Excluded (exclude : List Text) (path : Text) : Prop :=
  ∃ written ∈ exclude, ∃ p, Glob.Written true written p ∧ Glob.Matches p path

/-- A location below a directory where a file stands that counts. -/
structure IsSource (inside : Tree) (exclude : List Text) (place : Location) : Prop where
  file : ∃ content, inside.at? place = some (.file content)
  php : ∃ name, place.getLast? = some name ∧ IsPhpName name
  kept : ¬ Excluded exclude (['/'].intercalate place)

/-- The locations with a property, each once and in increasing order. -/
structure Enumerates (places : List Location) (P : Location → Prop) : Prop where
  mem_iff : ∀ place, place ∈ places ↔ P place
  increasing : places.Pairwise Location.Before

/-- The path of a location below a directory, given the path of the directory. -/
def pathTo (root : Text) (place : Location) : Text := place.foldl join root

/-! ## Names of files -/

theorem extension?_eq_some_iff {name extension : Text} :
    extension? name = some extension ↔
      ∃ stem, name = stem ++ '.' :: extension ∧ stem ≠ [] ∧ '.' ∉ extension := by
  have hlast : '.' ∉ Text.afterLast '.' name := Text.not_mem_afterLast '.' name
  rw [extension?]
  rcases Text.afterLast_cases '.' name with hall | ⟨front, hfront⟩
  · rw [hall] at hlast ⊢
    rw [if_neg (by omega)]
    constructor
    · intro h
      cases h
    · rintro ⟨stem, rfl, -, -⟩
      exact absurd (List.mem_append_right _ (List.mem_cons_self ..)) hlast
  · generalize Text.afterLast '.' name = last at hlast hfront
    subst hfront
    constructor
    · intro h
      split at h
      · next hlength =>
          cases h
          refine ⟨front, rfl, ?_, hlast⟩
          rintro rfl
          simp at hlength
      · cases h
    · rintro ⟨stem, heq, hstem, hextension⟩
      obtain ⟨rfl, rfl⟩ := Text.split_last_unique hlast hextension heq
      have hpos := List.length_pos_iff.mpr hstem
      rw [if_pos (by rw [List.length_append, List.length_cons]; omega)]

theorem Found.isPhp_iff {f : Found} : f.isPhp = true ↔ IsPhpName f.name := by
  constructor
  · intro h
    rw [Found.isPhp] at h
    split at h
    · next extension hextension =>
        obtain ⟨stem, hname, hstem, -⟩ := extension?_eq_some_iff.mp hextension
        exact ⟨stem, extension, hname, hstem, of_decide_eq_true h⟩
    · cases h
  · rintro ⟨stem, extension, hname, hstem, hsame⟩
    -- The stem may have points, the extension has none: it would have to be in `php`.
    have hpoint : '.' ∉ extension := by
      rw [← Text.mem_lower_iff (by decide), show Text.lower extension = _ from hsame]
      decide
    rw [Found.isPhp, extension?_eq_some_iff.mpr ⟨stem, hname, hstem, hpoint⟩]
    exact decide_eq_true hsame

/-! ## Patterns -/

theorem exists_mapM_eq_ok {α β ε : Type} {f : α → Except ε β} {l : List α}
    (h : ∀ a ∈ l, ∃ b, f a = .ok b) : ∃ l', l.mapM f = .ok l' := by
  induction l with
  | nil => exact ⟨[], rfl⟩
  | cons a l ih =>
      obtain ⟨⟨b, hb⟩, hl⟩ := List.forall_mem_cons.mp h
      obtain ⟨l', hl'⟩ := ih hl
      exact ⟨b :: l', by rw [List.mapM_cons, hb, hl']; rfl⟩

/-- Patterns match what the texts that they are written as exclude. -/
theorem any_isMatch_iff {exclude : List Text} {patterns : List Glob.Pattern}
    (h : List.Forall₂ (Glob.Written true) exclude patterns) (path : Text) :
    (patterns.any fun p => p.isMatch path) = true ↔ Excluded exclude path := by
  induction h with
  | nil => simp [Excluded]
  | @cons written p exclude patterns hp _ ih =>
      have hone : ∀ q, Glob.Written true written q ↔ q = p := by
        intro q
        rw [← Glob.read_eq_ok_iff, Glob.read_eq_ok_iff.mpr hp, Except.ok.injEq, eq_comm]
      have hcons : Excluded (written :: exclude) path ↔
          Glob.Matches p path ∨ Excluded exclude path := by
        simp [Excluded, hone]
      rw [List.any_cons, Bool.or_eq_true, hcons, Glob.isMatch_iff]
      exact or_congr_right ih

theorem exists_readPatterns {exclude : List Text}
    (h : ∀ written ∈ exclude, ∃ p, Glob.Written true written p) :
    ∃ patterns, readPatterns exclude = .ok patterns ∧
      List.Forall₂ (Glob.Written true) exclude patterns := by
  obtain ⟨patterns, hpatterns⟩ : ∃ patterns, readPatterns exclude = .ok patterns := by
    refine exists_mapM_eq_ok fun written hwritten => ?_
    obtain ⟨p, hp⟩ := h written hwritten
    exact ⟨p, by rw [Glob.read_eq_ok_iff.mpr hp]⟩
  refine ⟨patterns, hpatterns, (forall₂_of_mapM hpatterns).imp ?_⟩
  rintro written p ⟨-, hp⟩
  split at hp
  · next q hread =>
      cases hp
      exact Glob.read_eq_ok_iff.mp hread
  · cases hp

/-! ## The walk -/

theorem Tree.Ordered.ne_nil_of_mem_files {t : Tree} (h : t.Ordered) {x : Location × Content}
    (hx : x ∈ t.files) : x.1 ≠ [] := by
  obtain ⟨place, content⟩ := x
  rintro rfl
  cases h.mem_files_iff.mp hx

/-- The file at a location below a root. -/
def Found.at (root : Text) (above place : Location) : Found :=
  ⟨pathTo root place, above ++ place, place.getLastD []⟩

theorem Found.at_cons (root : Text) (above : Location) (name : Text) {place : Location}
    (h : place ≠ []) : Found.at (join root name) (above ++ [name]) place =
      Found.at root above (name :: place) := by
  cases place with
  | nil => exact absurd rfl h
  | cons next names => simp [Found.at, pathTo]

theorem Tree.Ordered.walk_eq {t : Tree} (h : t.Ordered) (root : Text) (above : Location) :
    t.walk root above = t.files.map fun x => Found.at root above x.1 := by
  induction t generalizing root above with
  | empty => rfl
  | file n content rest ih =>
      rw [Tree.walk, Tree.files_file, List.map_cons, ih h.2]
      rfl
  | directory n inside rest ihinside ihrest =>
      obtain ⟨-, hinside, hrest⟩ := h
      rw [Tree.walk, Tree.files_directory, List.map_append, List.map_map, ihinside hinside,
        ihrest hrest]
      congr 1
      exact List.map_congr_left fun x hx =>
        Found.at_cons root above n (hinside.ne_nil_of_mem_files hx)

/-- What counts at a location does not depend on the path of the root. -/
theorem Found.isWanted_at_iff {exclude : List Text} {patterns : List Glob.Pattern}
    (h : List.Forall₂ (Glob.Written true) exclude patterns) (root : Text) {place : Location}
    (hplace : place ≠ []) :
    (Found.at root [] place).isWanted patterns = true ↔
      (∃ name, place.getLast? = some name ∧ IsPhpName name) ∧
        ¬ Excluded exclude (['/'].intercalate place) := by
  have hname : place.getLast? = some (place.getLastD []) := by
    rw [List.getLast?_eq_some_getLast hplace, List.getLastD_eq_getLast?,
      List.getLast?_eq_some_getLast hplace]
    rfl
  rw [Found.isWanted, Bool.and_eq_true, Found.isPhp_iff, Bool.not_eq_true', ← Bool.not_eq_true,
    any_isMatch_iff h, hname]
  simp [Found.at, Found.relative]

/-- The locations of the files that count below a directory. -/
def sources (inside : Tree) (patterns : List Glob.Pattern) : List Location :=
  (inside.sorted.files.map Prod.fst).filter fun place => (Found.at [] [] place).isWanted patterns

theorem enumerates_sources (inside : Tree) {exclude : List Text} {patterns : List Glob.Pattern}
    (h : List.Forall₂ (Glob.Written true) exclude patterns) :
    Enumerates (sources inside patterns) (IsSource inside exclude) where
  increasing := inside.ordered_sorted.pairwise_files.filter _
  mem_iff place := by
    have hfile : place ∈ inside.sorted.files.map Prod.fst ↔
        ∃ content, inside.at? place = some (.file content) := by
      simp only [← Tree.at?_sorted_eq_file_iff, ← inside.ordered_sorted.mem_files_iff,
        List.mem_map, Prod.exists, exists_and_right, exists_eq_right]
    have hne : place ∈ inside.sorted.files.map Prod.fst → place ≠ [] := by
      intro hmem
      obtain ⟨x, hx, rfl⟩ := List.mem_map.mp hmem
      exact inside.ordered_sorted.ne_nil_of_mem_files hx
    rw [sources, List.mem_filter]
    constructor
    · rintro ⟨hmem, hwanted⟩
      obtain ⟨hphp, hkept⟩ := (Found.isWanted_at_iff h [] (hne hmem)).mp hwanted
      exact ⟨hfile.mp hmem, hphp, hkept⟩
    · rintro ⟨hexists, hphp, hkept⟩
      have hmem := hfile.mpr hexists
      exact ⟨hmem, (Found.isWanted_at_iff h [] (hne hmem)).mpr ⟨hphp, hkept⟩⟩

namespace Disk

theorem phpFilesUnder_directory {d : Disk} {root : Text} {inside : Tree} {exclude : List Text}
    {patterns : List Glob.Pattern} (hroot : d.entry root = .ok (.directory inside))
    (hpatterns : readPatterns exclude = .ok patterns) :
    d.phpFilesUnder exclude root =
      .ok (if isDash root then [] else (sources inside patterns).map (pathTo root)) := by
  have hfound : d.filesUnder root =
      .ok (if isDash root then [] else inside.sorted.walk root []) := by
    rw [filesUnder, hroot]
    split <;> rfl
  rw [phpFilesUnder, hpatterns, hfound]
  show Except.ok _ = Except.ok _
  split
  · rfl
  · rw [inside.ordered_sorted.walk_eq, sources, List.filter_map, List.filter_map, List.map_map,
      List.map_map]
    rfl

end Disk

/-! ## Where the paths lead -/

/-- A name that can stand in a directory. -/
structure IsName (name : Text) : Prop where
  ne_nil : name ≠ []
  ne_point : name ≠ ['.']
  ne_points : name ≠ ['.', '.']
  no_slash : '/' ∉ name

instance (name : Text) : Decidable (IsName name) :=
  decidable_of_iff (name ≠ [] ∧ name ≠ ['.'] ∧ name ≠ ['.', '.'] ∧ '/' ∉ name)
    ⟨fun ⟨h₁, h₂, h₃, h₄⟩ => ⟨h₁, h₂, h₃, h₄⟩, fun ⟨h₁, h₂, h₃, h₄⟩ => ⟨h₁, h₂, h₃, h₄⟩⟩

/-- All names in a directory and below it can stand there. -/
def Tree.Named : Tree → Prop
  | .empty => True
  | .file name _ rest => IsName name ∧ rest.Named
  | .directory name inside rest => IsName name ∧ inside.Named ∧ rest.Named

instance Tree.decidableNamed : (t : Tree) → Decidable t.Named
  | .empty => inferInstanceAs (Decidable True)
  | .file name _ rest =>
      have := rest.decidableNamed
      inferInstanceAs (Decidable (IsName name ∧ rest.Named))
  | .directory name inside rest =>
      have := inside.decidableNamed
      have := rest.decidableNamed
      inferInstanceAs (Decidable (IsName name ∧ inside.Named ∧ rest.Named))

/-- The same of an entry. -/
def NamedEntry : Entry → Prop
  | .file _ => True
  | .directory inside => inside.Named

theorem Tree.named_push {n : Text} {e : Entry} {rest : Tree} :
    (push n e rest).Named ↔ IsName n ∧ NamedEntry e ∧ rest.Named := by
  cases e <;> simp [push, Named, NamedEntry]

theorem Tree.Named.find? {t : Tree} (h : t.Named) {name : Text} {e : Entry}
    (hfind : t.find? name = some e) : IsName name ∧ NamedEntry e := by
  induction t using Tree.push_induction with
  | hempty => cases hfind
  | hpush n old rest ih =>
      obtain ⟨hname, hold, hrest⟩ := Tree.named_push.mp h
      rw [Tree.find?_push] at hfind
      split at hfind
      · next heq =>
          cases hfind
          exact ⟨heq ▸ hname, hold⟩
      · exact ih hrest hfind

/-- What stands at a location is reached through its first name. -/
theorem Tree.exists_of_at?_cons {t : Tree} {name : Text} {names : Location} {e : Entry}
    (h : t.at? (name :: names) = some e) :
    ∃ first, t.find? name = some first ∧
      (names = [] ∧ first = e ∨
        ∃ inside, first = .directory inside ∧ inside.at? names = some e) := by
  rw [Tree.at?_cons] at h
  obtain ⟨first, hfirst, h⟩ := Option.bind_eq_some_iff.mp h
  refine ⟨first, hfirst, ?_⟩
  cases first with
  | file content =>
      cases names with
      | nil => exact .inl ⟨rfl, Option.some.inj h⟩
      | cons next names => cases h
  | directory inside => exact .inr ⟨inside, rfl, (Tree.at?_eq inside names).trans h⟩

theorem Tree.Named.at? {t : Tree} (h : t.Named) {place : Location} {e : Entry}
    (hat : t.at? place = some e) : NamedEntry e := by
  induction place generalizing t with
  | nil => cases hat; exact h
  | cons name names ih =>
      obtain ⟨first, hfind, ⟨-, rfl⟩ | ⟨inside, rfl, hinside⟩⟩ := Tree.exists_of_at?_cons hat
      · exact (h.find? hfind).2
      · exact ih (h.find? hfind).2 hinside

namespace Disk

theorem follow_append (top : Tree) (place : Location) (front back : List Text) :
    follow top place (front ++ back) =
      (follow top place front).bind fun there => follow top there back := by
  induction front generalizing place with
  | nil => rfl
  | cons part parts ih =>
      rw [List.cons_append, follow_cons, follow_cons]
      simp only [ih]
      split
      · split
        · rfl
        · split
          · rfl
          · split <;> rfl
      · rfl

/-- A path is followed from one place, whatever is written after it. -/
theorem exists_locate_append (d : Disk) {path : Text} (h : path ≠ []) :
    ∃ start rest, ∀ suffix,
      d.locate (path ++ suffix) = follow d.top start (Text.splitOn '/' (rest ++ suffix)) := by
  cases path with
  | nil => exact absurd rfl h
  | cons c path =>
      by_cases hc : c = '/'
      · subst hc
        exact ⟨[], path, fun suffix => rfl⟩
      · refine ⟨d.here, c :: path, fun suffix => ?_⟩
        rw [List.cons_append, locate]
        · simp
        · rintro rest heq
          cases heq
          exact hc rfl

section Join

variable {top inside : Tree} {there : Location} {name : Text} {e : Entry}
  (hthere : top.at? there = some (.directory inside)) (hname : IsName name)
  (hfind : inside.find? name = some e)

include hthere hname hfind

theorem follow_name : follow top there [name] = .ok (there ++ [name]) := by
  simp [follow, hthere, hname.ne_nil, hname.ne_point, hname.ne_points, hfind]

/-- A name after a slash leads one step further. -/
theorem follow_slash {start : Location} {path : Text}
    (h : follow top start (Text.splitOn '/' path) = .ok there) :
    follow top start (Text.splitOn '/' (path ++ '/' :: name)) = .ok (there ++ [name]) := by
  rw [Text.splitOn_append, Text.splitOn_of_not_mem hname.no_slash, follow_append, h]
  exact follow_name hthere hname hfind

/-- After a path that ends with a slash no other is needed. -/
theorem follow_after_slash {start : Location} (parts : List Text)
    (h : follow top start (parts ++ [[]]) = .ok there) :
    follow top start (parts ++ [name]) = .ok (there ++ [name]) := by
  rw [follow_append] at h ⊢
  cases hparts : follow top start parts with
  | error fault => rw [hparts] at h; cases h
  | ok last =>
      rw [hparts] at h
      -- The empty part stays where it is.
      have hlast : last = there := by
        have hstay : follow top last [[]] = .ok there := h
        rw [follow_cons] at hstay
        split at hstay
        · simpa [follow] using hstay
        · cases hstay
      rw [hlast]
      exact follow_name hthere hname hfind

/-- After a path with a slash at its end the name takes the place of the empty part. -/
theorem follow_ends_with_slash {start : Location} (path : Text)
    (h : follow top start (Text.splitOn '/' (path ++ ['/'])) = .ok there) :
    follow top start (Text.splitOn '/' (path ++ '/' :: name)) = .ok (there ++ [name]) := by
  rw [Text.splitOn_append] at h ⊢
  rw [Text.splitOn_of_not_mem hname.no_slash]
  exact follow_after_slash hthere hname hfind (Text.splitOn '/' path) h

end Join

theorem locate_join {d : Disk} {root name : Text} {there : Location} {inside : Tree} {e : Entry}
    (hroot : d.locate root = .ok there) (hthere : d.top.at? there = some (.directory inside))
    (hname : IsName name) (hfind : inside.find? name = some e) :
    d.locate (join root name) = .ok (there ++ [name]) := by
  rw [join]
  split
  · next hslash =>
      obtain ⟨path, rfl⟩ := List.getLast?_eq_some_iff.mp hslash
      rw [List.append_assoc]
      by_cases hpath : path = []
      · -- The path is `/`, and nothing stands before its slash.
        subst hpath
        show follow d.top [] (Text.splitOn '/' name) = _
        rw [Text.splitOn_of_not_mem hname.no_slash]
        exact follow_after_slash hthere hname hfind [] hroot
      · obtain ⟨start, rest, hrest⟩ := d.exists_locate_append hpath
        rw [hrest] at hroot ⊢
        exact follow_ends_with_slash hthere hname hfind rest hroot
  · have hne : root ≠ [] := by
      rintro rfl
      cases hroot
    obtain ⟨start, rest, hrest⟩ := d.exists_locate_append hne
    rw [← List.append_nil root, hrest, List.append_nil] at hroot
    rw [hrest]
    exact follow_slash hthere hname hfind hroot

/-- The path of a location below a directory leads there. -/
theorem locate_pathTo {d : Disk} {root : Text} {there place : Location} {inside : Tree} {e : Entry}
    (hroot : d.locate root = .ok there) (hthere : d.top.at? there = some (.directory inside))
    (hnamed : inside.Named) (hplace : inside.at? place = some e) :
    d.locate (pathTo root place) = .ok (there ++ place) := by
  induction place generalizing root there inside with
  | nil => rw [List.append_nil]; exact hroot
  | cons name names ih =>
      obtain ⟨first, hfind, hnext⟩ := Tree.exists_of_at?_cons hplace
      obtain ⟨hname, hfirst⟩ := hnamed.find? hfind
      have hjoin := locate_join hroot hthere hname hfind
      rcases hnext with ⟨rfl, -⟩ | ⟨below, rfl, hbelow⟩
      · exact hjoin
      · have hthere' : d.top.at? (there ++ [name]) = some (.directory below) := by
          rw [Tree.at?_append, hthere, Option.bind_some, ← Tree.at?_eq, Tree.at?_cons, hfind]
          rfl
        rw [← List.singleton_append, ← List.append_assoc]
        exact ih hjoin hthere' hfirst hbelow

theorem entry_eq_ok_iff {d : Disk} {path : Text} {e : Entry} :
    d.entry path = .ok e ↔ ∃ there, d.locate path = .ok there ∧ d.top.at? there = some e := by
  rw [entry]
  cases d.locate path with
  | error fault => simp [Except.bind]
  | ok there => cases h : d.top.at? there <;> simp [Except.bind, h]

end Disk

theorem Location.not_before_self (place : Location) : ¬ place.Before place := by
  intro h
  induction place with
  | nil => cases h
  | cons name names ih =>
      cases h with
      | cons h => exact ih h
      | rel h => exact List.lt_irrefl _ h

/-! ## Discovery -/

namespace Disk

section Root

variable {d : Disk} {root : Text} {inside : Tree} (hroot : d.entry root = .ok (.directory inside))
  (hnamed : d.top.Named)

include hroot hnamed

theorem exists_locate_pathTo : ∃ there, ∀ {place : Location} {e : Entry},
    inside.at? place = some e →
      d.locate (pathTo root place) = .ok (there ++ place) ∧
        d.entry (pathTo root place) = .ok e := by
  obtain ⟨there, hlocate, hthere⟩ := entry_eq_ok_iff.mp hroot
  refine ⟨there, fun {place e} hplace => ?_⟩
  have hpath := locate_pathTo hlocate hthere (hnamed.at? hthere) hplace
  refine ⟨hpath, entry_eq_ok_iff.mpr ⟨_, hpath, ?_⟩⟩
  rw [Tree.at?_append, hthere, Option.bind_some, ← Tree.at?_eq, hplace]

/-- Different files have different paths. -/
theorem nodup_map_pathTo {places : List Location} (hplaces : places.Pairwise Location.Before)
    (hfiles : ∀ place ∈ places, ∃ content, inside.at? place = some (.file content)) :
    (places.map (pathTo root)).Nodup := by
  obtain ⟨there, hleads⟩ := exists_locate_pathTo hroot hnamed
  refine List.pairwise_map.mpr (hplaces.imp_of_mem fun {a b} ha hb hbefore heq => ?_)
  obtain ⟨_, hfilea⟩ := hfiles a ha
  obtain ⟨_, hfileb⟩ := hfiles b hb
  have hsame : (.ok (there ++ a) : Except Fault Location) = .ok (there ++ b) := by
    rw [← (hleads hfilea).1, heq, (hleads hfileb).1]
  obtain rfl : a = b := List.append_cancel_left (Except.ok.inj hsame)
  exact Location.not_before_self a hbefore

end Root

theorem exists_entry_of_isDirectory {d : Disk} {root : Text} (h : d.isDirectory root = true) :
    ∃ inside, d.entry root = .ok (.directory inside) := by
  rw [isDirectory] at h
  split at h
  · next inside hentry => exact ⟨inside, hentry⟩
  · cases h

/-- Below a directory exactly the files that count are found, each once and in the order of
their locations, unless the root is a lone dash.  The paths are all different and each leads to
its file.  Several roots are searched one after the other. -/
theorem discovery_exact {d : Disk} {exclude : List Text}
    (hexclude : ∀ written ∈ exclude, ∃ p, Glob.Written true written p) :
    (∀ (root : Text) (inside : Tree), d.entry root = .ok (.directory inside) →
      ∃ places : List Location,
        Enumerates places (IsSource inside exclude) ∧
        d.phpFilesUnder exclude root =
          .ok (if isDash root then [] else places.map (pathTo root)) ∧
        (d.top.Named →
          (places.map (pathTo root)).Nodup ∧
          ∀ place ∈ places, ∃ content, inside.at? place = some (.file content) ∧
            d.entry (pathTo root place) = .ok (.file content))) ∧
    ∀ roots : List Text, (∀ root ∈ roots, d.isDirectory root = true) →
      ∃ found : List (List Text),
        List.Forall₂ (fun root files => d.phpFilesUnder exclude root = .ok files) roots found ∧
        d.phpFiles roots exclude = .ok found.flatten := by
  obtain ⟨patterns, hpatterns, hwritten⟩ := exists_readPatterns hexclude
  constructor
  · intro root inside hroot
    have henum := enumerates_sources inside hwritten
    have hfiles : ∀ place ∈ sources inside patterns,
        ∃ content, inside.at? place = some (.file content) :=
      fun place hplace => ((henum.mem_iff place).mp hplace).file
    refine ⟨sources inside patterns, henum, phpFilesUnder_directory hroot hpatterns, ?_⟩
    intro hnamed
    refine ⟨nodup_map_pathTo hroot hnamed henum.increasing hfiles, fun place hplace => ?_⟩
    obtain ⟨content, hcontent⟩ := hfiles place hplace
    obtain ⟨_, hleads⟩ := exists_locate_pathTo hroot hnamed
    exact ⟨content, hcontent, (hleads hcontent).2⟩
  · intro roots hroots
    have heach : ∀ root ∈ roots, ∃ files, d.phpFilesUnder exclude root = .ok files := by
      intro root hmem
      obtain ⟨inside, hroot⟩ := exists_entry_of_isDirectory (hroots root hmem)
      exact ⟨_, phpFilesUnder_directory hroot hpatterns⟩
    obtain ⟨found, hfound⟩ := exists_mapM_eq_ok heach
    refine ⟨found, (forall₂_of_mapM hfound).imp fun _ _ h => h.2, ?_⟩
    rw [phpFiles, hfound]
    rfl

/-- A directory `a` and a file `a.php`, a hidden directory and one to leave out. -/
def vendoredTree : Tree :=
  .file "a.php".toList (.text []) <|
  .directory "vendor".toList (.file "v.php".toList (.text []) .empty) <|
  .directory "a".toList
    (.file "z.php".toList (.text []) (.file "notes.txt".toList (.text []) .empty)) <|
  .directory ".hidden".toList (.file "h.PHP".toList (.text []) .empty) .empty

/-- A disk with all of them below `src`. -/
def vendoredDisk : Disk := ⟨.directory "src".toList vendoredTree .empty, []⟩

theorem written_vendorExclude :
    ∀ written ∈ ["vendor/**".toList], ∃ p, Glob.Written true written p := by
  intro written hwritten
  obtain rfl := List.mem_singleton.mp hwritten
  exact ⟨_, Glob.read_eq_ok_iff.mp rfl⟩

/-- Both parts of the theorem apply to that disk.  The files of `a` come before `a.php`, since
paths are compared by components, and a root that stands in another one gives its files
twice. -/
theorem discovery_exact_mixed :
    (∃ places, Enumerates places (IsSource vendoredTree ["vendor/**".toList]) ∧
      vendoredDisk.phpFilesUnder ["vendor/**".toList] "src".toList =
        .ok (places.map (pathTo "src".toList)) ∧
      places.map (pathTo "src".toList) =
        ["src/.hidden/h.PHP".toList, "src/a/z.php".toList, "src/a.php".toList] ∧
      (places.map (pathTo "src".toList)).Nodup) ∧
    vendoredDisk.phpFiles ["src/a".toList, "src".toList] ["vendor/**".toList] =
      .ok ["src/a/z.php".toList, "src/.hidden/h.PHP".toList, "src/a/z.php".toList,
        "src/a.php".toList] := by
  obtain ⟨hone, hseveral⟩ := @discovery_exact vendoredDisk _ written_vendorExclude
  constructor
  · obtain ⟨places, henum, hfiles, hpaths⟩ := hone "src".toList vendoredTree rfl
    refine ⟨places, henum, hfiles, ?_, (hpaths (by decide)).1⟩
    exact Except.ok.inj (hfiles.symm.trans rfl)
  · obtain ⟨found, hfound, hall⟩ := hseveral ["src/a".toList, "src".toList] (by decide)
    rw [hall]
    cases hfound with
    | cons hfirst hrest =>
        cases hrest with
        | cons hsecond hnone =>
            cases hnone
            cases hfirst
            cases hsecond
            rfl

/-- A directory that is called as the standard input is. -/
def dashDisk : Disk :=
  ⟨.directory "-".toList (.file "a.php".toList (.text []) .empty) .empty, []⟩

/-- A file that counts is not found below a directory that is a lone dash. -/
theorem dash_directory_skipped :
    dashDisk.entry "-".toList = .ok (.directory (.file "a.php".toList (.text []) .empty)) ∧
    IsSource (.file "a.php".toList (.text []) .empty) [] ["a.php".toList] ∧
    dashDisk.phpFilesUnder [] "-".toList = .ok [] := by
  refine ⟨rfl, ⟨⟨.text [], rfl⟩, ⟨"a.php".toList, rfl, ?_⟩, ?_⟩, rfl⟩
  · exact ⟨['a'], "php".toList, rfl, by decide, rfl⟩
  · simp [Excluded]

end Disk

end NativeHints.Files
