import SchemaForge.Command.Arguments

/-!
# `Proofs.Command.Arguments` — style flags mean the same to every command

The flags for how code is emitted are known to several commands beside switches of their own. Each
switch has its own name, and no style flag has a letter, so arguments that only hold style flags are
sorted in the same way whatever other switches a command knows. A command line that goes on with such
arguments asks for the command before them, with the layer that they give.

## Contents
- **Names.** `name_injective`: a switch is found by its name among more switches.
- **Sorting.** `styleSwitches`, `classify_eq` and `sort?_eq`: style flags among other switches.
- **Layers.** `styleOf?`, the layer of arguments that only hold style flags.
- **Commands.** `import?_eq` and `generate?_eq`.
-/

namespace SchemaForge.Arguments

/-! ## Finding a switch by its name -/

theorem Flag.name_injective {flag other : Flag} (h : flag.name = other.name) : flag = other := by
  cases flag <;> cases other <;> first | rfl | exact absurd h (by decide)

theorem Setting.name_injective {setting other : Setting} (h : setting.name = other.name) :
    setting = other := by
  cases setting <;> cases other <;> first | rfl | exact absurd h (by decide)

theorem Flag.name_ne (flag : Flag) (setting : Setting) : flag.name ≠ setting.name := by
  cases flag <;> cases setting <;> decide

/-- Where names belong to one element each, the one that a part of a list gives is the one that the
    list gives. -/
theorem find?_eq_of_subset {α : Type} {name : α → String}
    (hname : ∀ {x y}, name x = name y → x = y) {part list : List α} (hsub : part ⊆ list)
    {word : String} {x : α} (h : part.find? (name · == word) = some x) :
    list.find? (name · == word) = some x := by
  have hx : name x = word := by simpa using List.find?_some h
  have hmem : x ∈ list := hsub (List.mem_of_find?_eq_some h)
  cases hfind : list.find? (name · == word) with
  | none =>
      have hnone := List.find?_eq_none.mp hfind x hmem
      simp [hx] at hnone
  | some y =>
      have hy : name y = word := by simpa using List.find?_some hfind
      rw [hname (hx.trans hy.symm)]

/-- No flag has the name of a setting. -/
theorem find?_flag_eq_none {settings : List Setting} {setting : Setting} {word : String}
    (h : settings.find? (·.name == word) = some setting) (flags : List Flag) :
    flags.find? (·.name == word) = none := by
  have hword : setting.name = word := by simpa using List.find?_some h
  rw [List.find?_eq_none]
  intro flag _ hflag
  exact flag.name_ne setting ((by simpa using hflag : flag.name = word).trans hword.symm)

/-! ## Sorting style flags -/

/-- The switches for how code is emitted. -/
def styleSwitches : Switches := ⟨styleFlags, styleSettings⟩

/-- The switches for how code is emitted, and more. -/
structure Switches.KnowsStyle (switches : Switches) : Prop where
  flags : styleFlags ⊆ switches.flags
  settings : styleSettings ⊆ switches.settings

variable {switches : Switches}

/-- No switch for how code is emitted has a letter. -/
theorem ofLetters_styleSwitches (flags : List Flag) (c : Char) (letters : List Char) :
    styleSwitches.ofLetters flags (c :: letters) = .unknown := by
  have hflag : styleSwitches.flags.find? (·.letter? == some c) = none := rfl
  have hsetting : styleSwitches.settings.find? (·.letter? == some c) = none := rfl
  unfold Switches.ofLetters
  rw [hflag, hsetting]

/-- A long style flag holds the same among other switches. -/
theorem ofLong_eq (hknows : switches.KnowsStyle) {text : List Char}
    (h : styleSwitches.ofLong text ≠ .unknown) :
    switches.ofLong text = styleSwitches.ofLong text := by
  unfold Switches.ofLong at h ⊢
  dsimp only at h ⊢
  generalize String.ofList (text.takeWhile (· ≠ '=')) = word at h ⊢
  cases hflag : styleSwitches.flags.find? (·.name == word) with
  | some flag =>
      rw [hflag] at h
      rw [find?_eq_of_subset Flag.name_injective hknows.flags hflag]
      cases hvalue : text.dropWhile (· ≠ '=') with
      | cons _ value => exact absurd (by rw [hvalue]) h
      | nil => rfl
  | none =>
      cases hsetting : styleSwitches.settings.find? (·.name == word) with
      | some setting =>
          rw [find?_eq_of_subset Setting.name_injective hknows.settings hsetting,
            find?_flag_eq_none hsetting]
      | none =>
          rw [hflag, hsetting] at h
          exact absurd rfl h

/-- **A style flag holds the same among other switches.** -/
theorem classify_eq (hknows : switches.KnowsStyle) {argument : String}
    (h : styleSwitches.classify argument ≠ .unknown) :
    switches.classify argument = styleSwitches.classify argument := by
  unfold Switches.classify at h ⊢
  generalize argument.toList = text at h ⊢
  split at h
  · exact ofLong_eq hknows h
  · exact absurd (ofLetters_styleSwitches [] _ _) h
  · rfl

/-- **Style flags are sorted in the same way among other switches.** -/
theorem sort?_eq (hknows : switches.KnowsStyle) {arguments : List String} {given : Given}
    (h : Given.sort? styleSwitches arguments = some given) :
    Given.sort? switches arguments = some given := by
  -- the recursion of the sorting: a value that follows its setting is taken together with it
  fun_induction Given.sort? styleSwitches arguments generalizing given with
  | case1 => exact h
  | case2 names => exact h
  | case3 argument rest _ hunknown => exact nomatch h
  | case4 argument rest hdashes hname ih =>
      have hclassify := classify_eq hknows (by rw [hname]; simp)
      obtain ⟨others, hothers, rfl⟩ := Option.map_eq_some_iff.mp h
      rw [Given.sort?, hclassify, hname]
      · dsimp only
        rw [ih hothers]
        rfl
      · exact hdashes
  | case5 argument rest hdashes flags settings hwhole ih =>
      have hclassify := classify_eq hknows (by rw [hwhole]; simp)
      obtain ⟨others, hothers, rfl⟩ := Option.map_eq_some_iff.mp h
      rw [Given.sort?, hclassify, hwhole]
      · dsimp only
        rw [ih hothers]
        rfl
      · exact hdashes
  | case6 => exact nomatch h
  | case7 => exact nomatch h
  | case8 argument hdashes flags setting hopen value rest hvalue ih =>
      have hclassify := classify_eq hknows (by rw [hopen]; simp)
      obtain ⟨others, hothers, rfl⟩ := Option.map_eq_some_iff.mp h
      rw [Given.sort?, hclassify, hopen]
      · dsimp only
        rw [if_neg hvalue, ih hothers]
        rfl
      · exact hdashes

/-- The settings that an argument holds. -/
def Argument.settings : Argument → List Setting
  | whole _ settings => settings.map Prod.fst
  | .open _ setting  => [setting]
  | _                => []

theorem mem_settings_of_classify (argument : String) :
    ∀ setting ∈ (styleSwitches.classify argument).settings, setting ∈ styleSettings := by
  unfold Switches.classify
  split
  · next text =>
      unfold Switches.ofLong
      dsimp only
      split
      · exact fun _ h => nomatch h
      · next hfind _ => exact List.forall_mem_singleton.mpr (List.mem_of_find?_eq_some hfind)
      · next hfind _ => exact List.forall_mem_singleton.mpr (List.mem_of_find?_eq_some hfind)
      · exact fun _ h => nomatch h
  · rw [ofLetters_styleSwitches]
    exact fun _ h => nomatch h
  · exact fun _ h => nomatch h

/-- Style flags give settings for how code is emitted only. -/
theorem mem_settings_of_sort? {arguments : List String} {given : Given}
    (h : Given.sort? styleSwitches arguments = some given) :
    ∀ setting ∈ given.settings.map Prod.fst, setting ∈ styleSettings := by
  fun_induction Given.sort? styleSwitches arguments generalizing given with
  | case1 => obtain rfl := Option.some.inj h; exact fun _ hmem => nomatch hmem
  | case2 names => obtain rfl := Option.some.inj h; exact fun _ hmem => nomatch hmem
  | case3 => exact nomatch h
  | case4 argument rest _ _ ih =>
      obtain ⟨others, hothers, rfl⟩ := Option.map_eq_some_iff.mp h
      exact @ih others hothers
  | case5 argument rest _ flags settings hwhole ih =>
      obtain ⟨others, hothers, rfl⟩ := Option.map_eq_some_iff.mp h
      intro setting hmem
      rw [List.map_append, List.mem_append] at hmem
      rcases hmem with hmem | hmem
      · exact mem_settings_of_classify argument setting (by rw [hwhole]; exact hmem)
      · exact ih hothers setting hmem
  | case6 => exact nomatch h
  | case7 => exact nomatch h
  | case8 argument _ flags setting hopen value rest _ ih =>
      obtain ⟨others, hothers, rfl⟩ := Option.map_eq_some_iff.mp h
      intro other hmem
      rw [List.map_cons, List.mem_cons] at hmem
      rcases hmem with rfl | hmem
      · exact mem_settings_of_classify argument other
          (by rw [hopen]; exact List.mem_cons_self)
      · exact ih hothers other hmem

/-! ## The layer of style flags -/

/-- The layer that arguments give which only hold style flags, each once. -/
def styleOf? (arguments : List String) : Option Layer := do
  let given ← Given.of? styleSwitches arguments
  if given.names = [] then given.style? else none

theorem exists_of_styleOf? {arguments : List String} {style : Layer}
    (h : styleOf? arguments = some style) :
    ∃ given : Given, Given.sort? styleSwitches arguments = some given ∧ given.isSingle = true ∧
      given.names = [] ∧ given.style? = some style := by
  unfold styleOf? at h
  obtain ⟨given, hgiven, hstyle⟩ := Option.bind_eq_some_iff.mp h
  obtain ⟨hsort, hsingle⟩ := Option.filter_eq_some_iff.mp hgiven
  split at hstyle
  · next hnames => exact ⟨given, hsort, hsingle, hnames, hstyle⟩
  · exact nomatch hstyle

theorem classify_of_isSwitch {argument : String} (h : isSwitch argument = false) :
    switches.classify argument = .name := by
  unfold isSwitch at h
  unfold Switches.classify
  generalize argument.toList = text at h ⊢
  split
  · exact nomatch h
  · exact nomatch h
  · rfl

theorem ne_dashes_of_isSwitch {argument : String} (h : isSwitch argument = false) :
    argument ≠ "--" := by
  rintro rfl
  exact absurd h (by decide)

/-- A name, a setting of the command's own and style flags are sorted as the style flags are, with the
    name and the setting before them. -/
theorem of?_eq (hknows : switches.KnowsStyle) {path option word : String} {own : Setting}
    (hpath : isSwitch path = false) (hword : isSwitch word = false) (hdashes : option ≠ "--")
    (hoption : switches.classify option = .open [] own) (hown : own ∉ styleSettings)
    {arguments : List String} {given : Given}
    (hsort : Given.sort? styleSwitches arguments = some given) (hsingle : given.isSingle = true) :
    Given.of? switches (path :: option :: word :: arguments)
      = some { given with settings := (own, word) :: given.settings, names := path :: given.names } := by
  have hnew : own ∉ given.settings.map Prod.fst :=
    fun hmem => hown (mem_settings_of_sort? hsort own hmem)
  have hrest : Given.sort? switches (option :: word :: arguments)
      = some { given with settings := (own, word) :: given.settings } := by
    rw [Given.sort?, hoption]
    · dsimp only
      rw [hword, if_neg (by simp), sort?_eq hknows hsort]
      rfl
    · exact hdashes
  have hall : Given.sort? switches (path :: option :: word :: arguments)
      = some { given with settings := (own, word) :: given.settings, names := path :: given.names } := by
    rw [Given.sort?, classify_of_isSwitch hpath]
    · dsimp only
      rw [hrest]
      rfl
    · exact ne_dashes_of_isSwitch hpath
  rw [Given.of?, hall, Option.filter_some_pos]
  unfold Given.isSingle at hsingle ⊢
  rw [Bool.and_eq_true, decide_eq_true_eq, decide_eq_true_eq] at hsingle ⊢
  exact ⟨hsingle.1, List.nodup_cons.mpr ⟨hnew, hsingle.2⟩⟩

/-- A setting of a command's own does not change how code is emitted. -/
theorem style?_cons (given : Given) {own : Setting} (hown : own ∉ styleSettings) (word : String)
    (names : List String) :
    Given.style? { given with settings := (own, word) :: given.settings, names } = given.style? := by
  have hvalue : ∀ setting ∈ styleSettings, Given.value?
      { given with settings := (own, word) :: given.settings, names } setting
        = given.value? setting := by
    intro setting hsetting
    have hne : (setting == own) = false := by
      rw [beq_eq_false_iff_ne]
      rintro rfl
      exact hown hsetting
    rw [Given.value?, List.lookup_cons, hne]
    rfl
  unfold Given.style?
  rw [hvalue .typeStyle (by decide), hvalue .schemaSuffix (by decide),
    hvalue .typeSuffix (by decide)]
  rfl

/-- Style flags give no setting of another kind. -/
theorem value?_eq_none {given : Given}
    (hsettings : ∀ setting ∈ given.settings.map Prod.fst, setting ∈ styleSettings)
    {setting : Setting} (h : setting ∉ styleSettings) : given.value? setting = none := by
  rw [Given.value?, List.lookup_eq_none_iff]
  intro entry hentry
  rw [bne_iff_ne]
  rintro rfl
  exact h (hsettings _ (List.mem_map_of_mem hentry))

/-! ## Commands with style flags -/

variable {arguments : List String} {style : Layer} {path : String}

/-- **An import with style flags.** -/
theorem import?_eq (hstyle : styleOf? arguments = some style) (hpath : isSwitch path = false)
    (hne : path ≠ "") {word : String} (hword : isSwitch word = false) {emission : Emission}
    (hemission : Emission.ofName? word = some emission) :
    Arguments.import? (path :: "--emit" :: word :: arguments) = some (.importType path emission style) := by
  obtain ⟨given, hsort, hsingle, hnames, hgiven⟩ := exists_of_styleOf? hstyle
  have hknows : Switches.KnowsStyle ⟨.verbose :: styleFlags, .emit :: styleSettings⟩ :=
    ⟨List.subset_cons_self _ _, List.subset_cons_self _ _⟩
  have hoption : Switches.classify ⟨.verbose :: styleFlags, .emit :: styleSettings⟩ "--emit"
      = .open [] .emit := rfl
  have hof := of?_eq hknows hpath hword (by decide) hoption (by decide) hsort hsingle
  unfold import?
  rw [hof]
  dsimp only [bind, Option.bind]
  rw [style?_cons given (by decide), hgiven, hnames]
  simp [Given.value?, hemission, hne]

/-- **Generating with style flags.** -/
theorem generate?_eq (hstyle : styleOf? arguments = some style) (hpath : isSwitch path = false)
    (hne : path ≠ "") {target : String} (htarget : isSwitch target = false) :
    generate? (path :: "--target" :: target :: arguments)
      = some (.generate [path] target .standardOutput style) := by
  obtain ⟨given, hsort, hsingle, hnames, hgiven⟩ := exists_of_styleOf? hstyle
  have hknows : Switches.KnowsStyle
      ⟨.verbose :: styleFlags, [.target, .output, .outDir] ++ styleSettings⟩ :=
    ⟨List.subset_cons_self _ _, List.subset_append_right _ _⟩
  have hoption : Switches.classify
      ⟨.verbose :: styleFlags, [.target, .output, .outDir] ++ styleSettings⟩ "--target"
        = .open [] .target := rfl
  have hof := of?_eq hknows hpath htarget (by decide) hoption (by decide) hsort hsingle
  unfold generate?
  rw [hof]
  dsimp only [bind, Option.bind]
  have hnone : ∀ {setting : Setting}, setting ∉ styleSettings → given.value? setting = none :=
    fun h => value?_eq_none (mem_settings_of_sort? hsort) h
  have hdestination : Given.destination?
      { given with settings := (.target, target) :: given.settings, names := path :: given.names }
      = some .standardOutput := by
    have houtput := @hnone .output (by decide)
    have houtDir := @hnone .outDir (by decide)
    unfold Given.value? at houtput houtDir
    unfold Given.destination? Given.path? Given.value?
    rw [List.lookup_cons, List.lookup_cons, houtput, houtDir]
    rfl
  rw [hdestination, style?_cons given (by decide), hgiven, hnames]
  simp [Given.value?, Ne.symm hne]

end SchemaForge.Arguments
