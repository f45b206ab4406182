import NativeHints.CommandLine.Run
import NativeHints.Proofs.VersionText

/-!
# The last option counts

Options about features come in pairs, and each of a pair takes the place of the other.  A
command line to add hints may have any number of them, between versions, patterns and
directories.  What such a line says can be told from its words alone (`Line.choices`): for each
feature what the last option about it says, the last version, and all patterns and
directories in order.

The reader keeps the last option open until the next argument comes.  So one step is not
about what has been stored, but about what closing would store (`Stands`).  Each word takes
the reader from what the words before it say to what they say together with it
(`leads_word`), and a line is read word by word (`leads_line`).
-/

namespace NativeHints

namespace Version

open Text (Numeral)

/-! ## Versions are no options -/

theorem head_of_numeral {t : Text} {n : Nat} (h : Numeral t n) :
    ∃ c rest, t = c :: rest ∧ c ≠ '-' ∧ c ≠ '.' := by
  cases h with
  | plain h =>
      obtain ⟨c, rest, rfl⟩ := List.exists_cons_of_ne_nil h.ne_nil
      have hc := h.digits c (List.mem_cons_self ..)
      refine ⟨c, rest, rfl, ?_, ?_⟩ <;>
        · rintro rfl
          cases hc
  | signed h => exact ⟨'+', _, rfl, by decide, by decide⟩

theorem head_of_numbers {core : Text} {parts : List Text} {v : Version}
    (hparts : Text.Parts '.' core parts) (h : Numbers parts v) :
    ∃ c rest, core = c :: rest ∧ c ≠ '-' := by
  obtain ⟨first, others, n, rfl, hfirst⟩ :
      ∃ first others n, parts = first :: others ∧ Numeral first n := by
    cases h with
    | major hm => exact ⟨_, _, _, rfl, hm.1⟩
    | minor rest hm hn => exact ⟨_, _, _, rfl, hm.1⟩
  obtain ⟨c, rest, rfl, hdash, -⟩ := head_of_numeral hfirst
  rw [hparts.joined]
  cases others with
  | nil => exact ⟨c, _, rfl, hdash⟩
  | cons next others => exact ⟨c, _, rfl, hdash⟩

/-- No version starts with a dash. -/
theorem Denotes.head_ne {t : Text} {v : Version} (h : Denotes t v) : t.head? ≠ some '-' := by
  obtain ⟨core, parts, hcore, hparts, hnumbers⟩ := h
  obtain ⟨before, after, rfl, hbefore, -⟩ := hcore.around
  cases before with
  | nil =>
      obtain ⟨c, rest, rfl, hc⟩ := head_of_numbers hparts hnumbers
      simpa using hc
  | cons b before =>
      have hb := hbefore b (List.mem_cons_self ..)
      simp only [List.cons_append, List.head?_cons, ne_eq, Option.some.injEq]
      rintro rfl
      cases hb

end Version

namespace CommandLine

/-! ## Lines -/

/-- A word of a command line to add hints. -/
inductive Word where
  /-- A directory to scan. -/
  | directory (path : Text)
  /-- An option about a feature. -/
  | feature (f : Feature) (on : Bool)
  /-- The option for a version.  Its value may be joined to it. -/
  | php (version : Text) (joined : Bool)
  /-- The option for a pattern.  Its value may be joined to it. -/
  | exclude (pattern : Text) (joined : Bool)

/-- A command line to add hints, without the command. -/
abbrev Line := List Word

/-- Whether an argument is not taken for an option.  A lone dash is none. -/
def IsValue (t : Text) : Prop := t = ['-'] ∨ t.head? ≠ some '-'

namespace Word

/-- An option with its value, as one argument or as two. -/
def valued (name value : Text) (joined : Bool) : List Text :=
  if joined then ['-' :: '-' :: (name ++ '=' :: value)] else ['-' :: '-' :: name, value]

/-- The arguments of a word. -/
def written : Word → List Text
  | directory path => [path]
  | feature f true => ['-' :: '-' :: f.name]
  | feature f false => ['-' :: '-' :: ("no-".toList ++ f.name)]
  | php version joined => valued "php".toList version joined
  | exclude pattern joined => valued "exclude".toList pattern joined

/-- A word as it should be: the directory is one, and the version denotes one. -/
def Valid (isDirectory : Text → Bool) : Word → Prop
  | directory path => isDirectory path = true ∧ IsValue path
  | feature _ _ => True
  | php version _ => ∃ v, Version.ofText? version = some v
  | exclude pattern _ => IsValue pattern

/-- The directory that a word gives. -/
def directory? : Word → Option Text
  | directory path => some path
  | _ => none

/-- The version that a word gives. -/
def version? : Word → Option Version
  | php version _ => Version.ofText? version
  | _ => none

/-- The pattern that a word gives. -/
def pattern? : Word → Option Text
  | exclude pattern _ => some pattern
  | _ => none

/-- What a word says about a feature. -/
def says? (f : Feature) : Word → Option Bool
  | feature g on => if g = f then some on else none
  | _ => none

end Word

namespace Line

/-- What the last option about a feature says. -/
def says? (line : Line) (f : Feature) : Option Bool := (line.filterMap (Word.says? f)).getLast?

/-- The options about features that stand in the end.  Of a pair at most one does. -/
def flags (line : Line) : FeatureFlags where
  on f := line.says? f == some true
  off f := line.says? f == some false

/-- All that a line says. -/
def choices (line : Line) : Choices :=
  { Choices.none with
    dirs := line.filterMap Word.directory?
    php := (line.filterMap Word.version?).getLast?
    exclude := line.filterMap Word.pattern?
    features := line.flags }

theorem toggles_flags (line : Line) (f : Feature) : line.flags.toggles f = line.says? f := by
  simp only [FeatureFlags.toggles, flags]
  cases line.says? f with
  | none => rfl
  | some on => cases on <;> rfl

theorem says?_append (line : Line) (w : Word) (f : Feature) :
    says? (line ++ [w]) f = (w.says? f).or (line.says? f) := by
  rw [says?, says?, List.filterMap_append, List.getLast?_append]
  cases h : w.says? f <;> simp [h]

theorem choices_directory (line : Line) (path : Text) :
    choices (line ++ [.directory path]) =
      { line.choices with dirs := line.choices.dirs ++ [path] } := by
  simp [choices, flags, says?_append, Word.says?, Word.directory?, Word.version?, Word.pattern?]

theorem flags_feature (line : Line) (f : Feature) (on : Bool) :
    flags (line ++ [.feature f on]) = line.flags.give f on := by
  simp only [flags, FeatureFlags.give, says?_append, Word.says?, FeatureFlags.mk.injEq]
  constructor <;>
    · funext g
      by_cases h : g = f
      · subst h
        cases on <;> simp
      · simp [h, Ne.symm h]

theorem choices_feature (line : Line) (f : Feature) (on : Bool) :
    choices (line ++ [.feature f on]) =
      { line.choices with features := line.choices.features.give f on } := by
  simp [choices, flags_feature, Word.directory?, Word.version?, Word.pattern?]

theorem choices_php (line : Line) {version : Text} {v : Version}
    (hv : Version.ofText? version = some v) (joined : Bool) :
    choices (line ++ [.php version joined]) = { line.choices with php := some v } := by
  simp [choices, flags, says?_append, Word.says?, Word.directory?, Word.version?, Word.pattern?, hv]

theorem choices_exclude (line : Line) (pattern : Text) (joined : Bool) :
    choices (line ++ [.exclude pattern joined]) =
      { line.choices with exclude := line.choices.exclude ++ [pattern] } := by
  simp [choices, flags, says?_append, Word.says?, Word.directory?, Word.version?, Word.pattern?]

end Line

/-! ## Single arguments -/

section

variable {isDirectory : Text → Bool} {p : Progress} {c : Choices}

namespace Progress

/-- Where a reader stands: closing what is open gives the choices. -/
structure Stands (isDirectory : Text → Bool) (p : Progress) (c : Choices) : Prop where
  settles : p.settle isDirectory .add = .ok ⟨c, .nothing, false⟩
  unescaped : p.escaped = false

theorem stands_closed (isDirectory : Text → Bool) (c : Choices) :
    Stands isDirectory ⟨c, .nothing, false⟩ c :=
  ⟨rfl, rfl⟩

theorem Stands.not_awaiting (h : p.Stands isDirectory c) (f : Flag) : p.pending ≠ .awaiting f := by
  intro hpending
  have hsettles := h.settles
  rw [settle, hpending] at hsettles
  cases hsettles

theorem argument_long (hp : p.escaped = false) {name : Text} (hname : name ≠ []) :
    p.argument isDirectory .add ('-' :: '-' :: name) = p.long isDirectory .add name := by
  cases name with
  | nil => exact absurd rfl hname
  | cons c name => simp [argument, hp]

theorem argument_value (hp : p.escaped = false) {t : Text} (ht : IsValue t) :
    p.argument isDirectory .add t =
      match p.pending with
      | .awaiting f => .ok { p with pending := .given f t }
      | _ => p.place isDirectory .add t := by
  unfold argument
  rw [if_neg (by simp [hp])]
  split
  · simp [IsValue] at ht
  · simp [IsValue] at ht
  · simp [IsValue] at ht
  · rfl

/-- An option without a value. -/
theorem Stands.flag (h : p.Stands isDirectory c) {name : Text} {f : Flag} {after : Choices}
    (hname : Flag.long? .add name = some f) (hmark : '=' ∉ name) (hvalue : f.takesValue = false)
    (hafter : c.flag .add f = .ok after) :
    p.argument isDirectory .add ('-' :: '-' :: name) = .ok ⟨after, .nothing, false⟩ := by
  have hne : name ≠ [] := by
    rintro rfl
    cases hname
  rw [argument_long h.unescaped hne, long, Text.splitAtFirst?_of_not_mem hmark]
  simp only [hname, hvalue]
  rw [if_neg (by simp), if_neg (by simp), Progress.flag, h.settles]
  show Except.map _ (c.flag .add f) = _
  rw [hafter]
  rfl

/-- An option that its value is joined to. -/
theorem Stands.joined (h : p.Stands isDirectory c) {name value : Text} {f : Flag}
    {after : Choices} (hname : Flag.long? .add name = some f) (hmark : '=' ∉ name)
    (hvalue : f.takesValue = true) (hafter : c.assign .add f value = .ok after) :
    p.argument isDirectory .add ('-' :: '-' :: (name ++ '=' :: value)) =
      .ok ⟨after, .nothing, false⟩ := by
  rw [argument_long h.unescaped (by simp), long, Text.splitAtFirst?_append hmark]
  simp only [hname, hvalue, if_true]
  rw [option, h.settles]
  show Except.map _ (c.assign .add f value) = _
  rw [hafter]
  rfl

/-- An option whose value is still to come. -/
theorem Stands.awaits (h : p.Stands isDirectory c) {name : Text} {f : Flag}
    (hname : Flag.long? .add name = some f) (hmark : '=' ∉ name) (hvalue : f.takesValue = true) :
    p.argument isDirectory .add ('-' :: '-' :: name) = .ok ⟨c, .awaiting f, false⟩ := by
  have hne : name ≠ [] := by
    rintro rfl
    cases hname
  rw [argument_long h.unescaped hne, long, Text.splitAtFirst?_of_not_mem hmark]
  simp only [hname, hvalue, if_true]
  rw [option, h.settles]
  rfl

theorem settle_given (isDirectory : Text → Bool) (c : Choices) (f : Flag) (value : Text) :
    settle isDirectory .add ⟨c, .given f value, false⟩ =
      (c.assign .add f value).map fun after => ⟨after, .nothing, false⟩ :=
  rfl

theorem settle_places (isDirectory : Text → Bool) (c : Choices) (dirs : List Text) :
    settle isDirectory .add ⟨c, .places dirs, false⟩ =
      if dirs.all isDirectory then .ok ⟨{ c with dirs := c.dirs ++ dirs }, .nothing, false⟩
      else .error .badValue :=
  rfl

/-- A directory, in front of others, behind them or between options. -/
theorem Stands.place (h : p.Stands isDirectory c) {path : Text} (hpath : isDirectory path = true) :
    ∃ q, p.place isDirectory .add path = .ok q ∧
      q.Stands isDirectory { c with dirs := c.dirs ++ [path] } := by
  obtain ⟨said, pending, escaped⟩ := p
  obtain ⟨hsettles, rfl⟩ := h
  rw [Progress.place, if_neg (by decide)]
  split
  · next dirs hpending =>
      -- directories that stand side by side are closed together
      subst hpending
      rw [settle_places] at hsettles
      split at hsettles
      · next hdirs =>
          cases hsettles
          refine ⟨⟨said, .places (dirs ++ [path]), false⟩, rfl, ?_, rfl⟩
          rw [settle_places, if_pos (by simp [hdirs, hpath]), List.append_assoc]
      · cases hsettles
  · rw [hsettles]
    refine ⟨⟨c, .places [path], false⟩, rfl, ?_, rfl⟩
    rw [settle_places, if_pos (by simp [hpath])]

/-! ## Words and lines -/

/-- Arguments lead a reader to where it stands with the choices, whatever follows them. -/
def Leads (isDirectory : Text → Bool) (p : Progress) (arguments : List Text) (c : Choices) : Prop :=
  ∃ q : Progress, q.Stands isDirectory c ∧
    ∀ rest, p.arguments isDirectory .add (arguments ++ rest) = q.arguments isDirectory .add rest

theorem leads_of_argument {q : Progress} {written : Text}
    (h : p.argument isDirectory .add written = .ok q) (hq : q.Stands isDirectory c) :
    p.Leads isDirectory [written] c := by
  refine ⟨q, hq, fun rest => ?_⟩
  rw [List.singleton_append, arguments, h]
  rfl

/-- An option with its value, joined or not. -/
theorem Stands.valued (h : p.Stands isDirectory c) {name value : Text} {f : Flag}
    {after : Choices} (hname : Flag.long? .add name = some f) (hmark : '=' ∉ name)
    (hvalue : f.takesValue = true) (hisValue : IsValue value)
    (hafter : c.assign .add f value = .ok after) (joined : Bool) :
    p.Leads isDirectory (Word.valued name value joined) after := by
  cases joined with
  | true =>
      exact leads_of_argument (h.joined hname hmark hvalue hafter) (stands_closed isDirectory after)
  | false =>
      have hgiven : (⟨c, .awaiting f, false⟩ : Progress).argument isDirectory .add value =
          .ok ⟨c, .given f value, false⟩ := argument_value rfl hisValue
      refine ⟨⟨c, .given f value, false⟩, ⟨?_, rfl⟩, fun rest => ?_⟩
      · rw [settle_given, hafter]
        rfl
      · show p.arguments isDirectory .add (('-' :: '-' :: name) :: value :: rest) = _
        rw [arguments, h.awaits hname hmark hvalue]
        show Progress.arguments isDirectory .add ⟨c, .awaiting f, false⟩ (value :: rest) = _
        rw [arguments, hgiven]
        rfl

end Progress

open Progress

theorem Flag.long?_feature (f : Feature) : Flag.long? .add f.name = some (.feature f true) := by
  cases f <;> rfl

theorem Flag.long?_no_feature (f : Feature) :
    Flag.long? .add ("no-".toList ++ f.name) = some (.feature f false) := by
  cases f <;> rfl

/-- The step: a word takes a reader from what the words in front of it say to what they say
together with it. -/
theorem leads_word {line : Line} (h : p.Stands isDirectory line.choices) {w : Word}
    (hw : w.Valid isDirectory) : p.Leads isDirectory w.written (Line.choices (line ++ [w])) := by
  cases w with
  | directory path =>
      obtain ⟨q, hplace, hq⟩ := h.place hw.1
      rw [Line.choices_directory]
      refine leads_of_argument ?_ hq
      rw [argument_value h.unescaped hw.2]
      split
      · next f hpending => exact absurd hpending (h.not_awaiting f)
      · exact hplace
  | feature f on =>
      rw [Line.choices_feature]
      cases on with
      | true =>
          have hmark : '=' ∉ f.name := by cases f <;> decide
          exact leads_of_argument (h.flag (Flag.long?_feature f) hmark rfl rfl)
            (stands_closed isDirectory _)
      | false =>
          have hmark : '=' ∉ "no-".toList ++ f.name := by cases f <;> decide
          exact leads_of_argument (h.flag (Flag.long?_no_feature f) hmark rfl rfl)
            (stands_closed isDirectory _)
  | php version joined =>
      obtain ⟨v, hv⟩ := hw
      rw [Line.choices_php line hv]
      refine h.valued (f := .php) rfl (by decide) rfl (.inr ?_) ?_ joined
      · exact (Version.ofText?_eq_some_iff.mp hv).head_ne
      · rw [Choices.assign, hv]
  | exclude pattern joined =>
      rw [Line.choices_exclude]
      exact h.valued (f := .exclude) rfl (by decide) rfl hw rfl joined

/-- The run: a line is read word by word. -/
theorem leads_line {front line : Line} (h : p.Stands isDirectory front.choices)
    (hline : ∀ w ∈ line, w.Valid isDirectory) :
    p.Leads isDirectory (line.flatMap Word.written) (Line.choices (front ++ line)) := by
  induction line generalizing p front with
  | nil =>
      rw [List.append_nil]
      exact ⟨p, h, fun rest => rfl⟩
  | cons w line ih =>
      obtain ⟨hw, hrest⟩ := List.forall_mem_cons.mp hline
      obtain ⟨q, hq, hword⟩ := leads_word h hw
      obtain ⟨r, hr, hwords⟩ := ih hq hrest
      rw [List.append_assoc] at hr
      refine ⟨r, hr, fun rest => ?_⟩
      rw [List.flatMap_cons, List.append_assoc, hword, hwords]

theorem readLevel_line {line : Line} (hline : ∀ w ∈ line, w.Valid isDirectory)
    (hdirs : line.filterMap Word.directory? ≠ []) :
    readLevel isDirectory .add (line.flatMap Word.written) = .ok line.choices := by
  have hstart : Progress.start.Stands isDirectory (Line.choices []) :=
    stands_closed isDirectory .none
  obtain ⟨q, hq, hread⟩ := leads_line hstart hline
  have hsettled : Progress.start.arguments isDirectory .add (line.flatMap Word.written) =
      .ok ⟨line.choices, .nothing, false⟩ := by
    rw [← List.append_nil (line.flatMap Word.written)]
    exact (hread []).trans hq.settles
  rw [readLevel, hsettled]
  exact if_neg hdirs

theorem read_line {line : Line} (hline : ∀ w ∈ line, w.Valid isDirectory)
    (hdirs : line.filterMap Word.directory? ≠ []) :
    read isDirectory ("add".toList :: line.flatMap Word.written) =
      .ok ⟨line.choices.command .add, 0, 0, false⟩ := by
  show (do
    let after ← readLevel isDirectory .add (line.flatMap Word.written)
    let before ← Progress.start.settle isDirectory .top
    return before.choices.invocation after .add) = _
  rw [readLevel_line hline hdirs]
  rfl

end

end CommandLine

/-! ## Effective options -/

namespace Options

theorem fileVersion_eq {file : Option Config} {fromFile : Option Version}
    (h : (file.bind Config.php).map Version.ofText? = fromFile.map some) :
    fileVersion file = .ok fromFile := by
  rw [fileVersion]
  cases hphp : file.bind Config.php with
  | none =>
      rw [hphp] at h
      cases fromFile with
      | none => rfl
      | some v => cases h
  | some written =>
      rw [hphp] at h
      cases fromFile with
      | none => cases h
      | some v =>
          have hv : Version.ofText? written = some v := by simpa using h
          simp only [Version.read, hv]
          rfl

/-- Toggles of the command line come first, then those of the file, then the preset. -/
theorem resolve_eq {file : Option Config} {fromFile : Option Version}
    (h : (file.bind Config.php).map Version.ofText? = fromFile.map some)
    (version : Option Version) (toggles : Toggles) :
    resolve file version toggles = .ok fun f =>
      ((toggles f).or ((file.map Config.features).getD .none f)).getD
        (ofVersion ((version.or fromFile).getD .standard) f) := by
  rw [resolve, fileVersion_eq h]
  refine congrArg Except.ok (funext fun f => ?_)
  simp only [withToggles]
  cases toggles f <;> rfl

end Options

namespace CommandLine

/-- The last option of each pair counts, for every feature by itself.  Let a command line to
add hints consist of directories that exist, options about features, versions and patterns,
in any number and order.  The command line is accepted.  For each feature it says what the last
option about it says, or nothing if there is none.  The version is the last one, and the patterns
are all of them in order.  With a configuration file whose version, if it has one, denotes
a version, a feature is what the command line says about it, else what the file says about
it, else what the version of the command line, else that of the file, else 7.2 has. -/
theorem last_option_counts (isDirectory : Text → Bool) (line : Line)
    (hline : ∀ w ∈ line, w.Valid isDirectory) (hdirs : line.filterMap Word.directory? ≠ []) :
    ∃ c : AddCommand,
      read isDirectory ("add".toList :: line.flatMap Word.written) = .ok ⟨.add c, 0, 0, false⟩ ∧
      c.dirs = line.filterMap Word.directory? ∧
      c.config = none ∧
      c.php = (line.filterMap Word.version?).getLast? ∧
      c.exclude = line.filterMap Word.pattern? ∧
      (∀ f, c.features f = (line.filterMap (Word.says? f)).getLast?) ∧
      ∀ (file : Option Config) (fromFile : Option Version),
        (file.bind Config.php).map Version.ofText? = fromFile.map some →
        c.options file = .ok fun f =>
          ((c.features f).or ((file.map Config.features).getD .none f)).getD
            (Options.ofVersion ((c.php.or fromFile).getD ⟨7, 2⟩) f) := by
  refine ⟨_, read_line hline hdirs, rfl, rfl, rfl, rfl, fun f => ?_, fun file fromFile hfile => ?_⟩
  · exact Line.toggles_flags line f
  · exact Options.resolve_eq hfile _ _

/-- A line with repeated and mixed options. -/
def mixedLine : Line :=
  [.feature .object false, .exclude "a/**".toList true, .feature .iterable true,
    .php "8".toList false, .directory "src".toList, .feature .object true,
    .php " +7.0".toList true, .feature .iterable false, .exclude "".toList false]

/-- A configuration that turns two features off. -/
def mixedConfig : Config :=
  ⟨some "7.4".toList, [], (Toggles.none.set .strictTypes false).set .object false⟩

/-- The last version and the last flag of each feature count, all patterns do, and the file
decides where the line says nothing. -/
theorem last_option_counts_mixed :
    ∃ c : AddCommand,
      read (· == "src".toList) ["add".toList, "--no-object".toList, "--exclude=a/**".toList,
        "--iterable".toList, "--php".toList, "8".toList, "src".toList, "--object".toList,
        "--php= +7.0".toList, "--no-iterable".toList, "--exclude".toList, "".toList] =
          .ok ⟨.add c, 0, 0, false⟩ ∧
      c.php = some ⟨7, 0⟩ ∧ c.exclude = ["a/**".toList, []] ∧
      c.features .object = some true ∧ c.features .iterable = some false ∧
      c.features .strictTypes = none ∧
      ∃ o, c.options (some mixedConfig) = .ok o ∧ o .object = true ∧ o .iterable = false ∧
        o .strictTypes = false ∧ o .propertyTypes = false := by
  have hline : ∀ w ∈ mixedLine, w.Valid (· == "src".toList) := by
    simp only [mixedLine, List.forall_mem_cons]
    exact ⟨trivial, .inr (by decide), trivial, ⟨⟨8, 0⟩, by decide⟩, ⟨by decide, .inr (by decide)⟩,
      trivial, ⟨⟨7, 0⟩, by decide⟩, trivial, .inr (by decide), by simp⟩
  obtain ⟨c, hread, -, -, hphp, hexclude, hfeatures, hoptions⟩ :=
    last_option_counts (· == "src".toList) mixedLine hline (by decide)
  refine ⟨c, hread, hphp.trans (by decide), hexclude.trans (by decide),
    (hfeatures _).trans (by decide), (hfeatures _).trans (by decide),
    (hfeatures _).trans (by decide), _, hoptions (some mixedConfig) (some ⟨7, 4⟩) (by decide), ?_⟩
  rw [hfeatures, hfeatures, hfeatures, hfeatures, hphp]
  decide

/-- A disk with a directory that looks like an option. -/
def dashedDisk : Files.Disk := ⟨.directory "-x".toList .empty .empty, []⟩

/-- A directory that looks like an option is taken for one. -/
theorem dashed_directory_refused :
    dashedDisk.isDirectory "-x".toList = true ∧
    read dashedDisk.isDirectory ["add".toList, "-x".toList] = .error .unknownOption :=
  ⟨rfl, rfl⟩

end CommandLine

end NativeHints
