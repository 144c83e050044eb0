import PageQueries.Command.Arguments

/-!
# Command lines of the phases

A page is processed by three command lines: one for each phase over a shared
folder of stored queries, and one for both phases at once. Their arguments may
be any texts that are not taken for options (`IsWord`); texts that do not begin
with a dash are never taken for one.

Results:
* `isWord_of_head`: what does not begin with a dash is a word.
* `ofArguments_markup`, `ofArguments_script`, `ofArguments_build`: what the
  three command lines ask for.
-/
namespace PageQueries.Arguments

variable {table : OptionTable} {t : Text} {ts : List Text}

/-- At no place is the argument taken for an option. -/
structure IsWord (t : Text) : Prop where
  main : readOne mainTable t = .ok .word
  action : ∀ a : ActionName, readOne a.table t = .ok .word

theorem isWord_of_head (h : t.head? ≠ some '-') : IsWord t := by
  have hword : ∀ table, readOne table t = .ok .word := by
    intro table
    unfold readOne
    split
    · exact absurd rfl h
    · rfl
  exact ⟨hword _, fun a => hword a.table⟩

/-- Two dashes are never read as one argument. -/
theorem ne_separator {reading : Reading} (h : readOne mainTable t = .ok reading) :
    t ≠ ['-', '-'] := by
  rintro rfl
  have hmisuse : readOne mainTable ['-', '-'] = .error .misuse := rfl
  cases hmisuse.symm.trans h

theorem IsWord.ne_separator (h : IsWord t) : t ≠ ['-', '-'] := Arguments.ne_separator h.main

theorem IsWord.valueOf (h : IsWord t) : valueOf t = some t := if_neg h.ne_separator

theorem readAll_cons (hne : t ≠ ['-', '-']) {reading : Reading} (h : readOne table t = .ok reading)
    {tokens : List Token} (hs : readAll table ts = .ok tokens) :
    readAll table (t :: ts) = .ok ((t, reading) :: tokens) := by
  rw [readAll, if_neg hne, h, hs]
  rfl

/-! ## Options with their values -/

/-- An option as it is given behind the action: its spelling, its meaning and its value. -/
structure Given where
  spelling : Text
  option : ValueOption
  value : Text

/-- The spelling means the option behind the action, and nothing before it; the value is a word. -/
structure Given.Fits (g : Given) (a : ActionName) : Prop where
  main : readOne mainTable g.spelling = .ok .unknownOption
  action : readOne a.table g.spelling = .ok (.option (.value g.option) .nothing)
  value : IsWord g.value

/-- Options with their values, as arguments. -/
def arguments (options : List Given) : List Text := options.flatMap fun g => [g.spelling, g.value]

/-- The arguments of options, read with the given reading of each spelling. -/
def tokens (reading : Given → Reading) (options : List Given) : List Token :=
  options.flatMap fun g => [(g.spelling, reading g), (g.value, .word)]

/-- What options add to what has been told. -/
def tellAll (told : Told) (options : List Given) : Told :=
  options.foldl (fun told g => { told with values := (g.option, some g.value) :: told.values }) told

variable {a : ActionName} {options : List Given} {told : Told} {page action : Text}

theorem map_fst_tokens (reading : Given → Reading) (options : List Given) :
    (tokens reading options).map Prod.fst = arguments options := by
  simp [tokens, arguments, List.map_flatMap]

theorem readAll_options {reading : Given → Reading}
    (h : ∀ g ∈ options, g.spelling ≠ ['-', '-'] ∧ readOne table g.spelling = .ok (reading g) ∧
      g.value ≠ ['-', '-'] ∧ readOne table g.value = .ok .word) :
    readAll table (arguments options) = .ok (tokens reading options) := by
  induction options with
  | nil => rfl
  | cons g options ih =>
    obtain ⟨⟨hne, hspelling, hvne, hvalue⟩, hrest⟩ := List.forall_mem_cons.mp h
    exact readAll_cons hne hspelling (readAll_cons hvne hvalue (ih hrest))

theorem readAll_options_main (h : ∀ g ∈ options, g.Fits a) :
    readAll mainTable (arguments options) = .ok (tokens (fun _ => .unknownOption) options) :=
  readAll_options fun g hg => ⟨ne_separator (h g hg).main, (h g hg).main,
    (h g hg).value.ne_separator, (h g hg).value.main⟩

theorem readAll_options_action (h : ∀ g ∈ options, g.Fits a) :
    readAll a.table (arguments options)
      = .ok (tokens (fun g => .option (.value g.option) .nothing) options) :=
  readAll_options fun g hg => ⟨ne_separator (h g hg).main, (h g hg).action,
    (h g hg).value.ne_separator, (h g hg).value.action a⟩

/-! ## What the arguments tell -/

/-- An option before the action takes the next word as its value. -/
theorem takeMain_value (told : Told) (spelling : Text) (v : ValueOption) (t : Text)
    (rest : List Token) :
    takeMain told ((spelling, .option (.value v) .nothing) :: (t, .word) :: rest)
      = takeMain (told.withValue v t) rest := by
  delta takeMain
  rfl

/-- An option behind the action takes the next word as its value. -/
theorem takeAction_value (table : OptionTable) (told : Told) (spelling : Text) (v : ValueOption)
    (t : Text) (rest : List Token) :
    takeAction table told ((spelling, .option (.value v) .nothing) :: (t, .word) :: rest)
      = takeAction table (told.withValue v t) rest := by
  delta takeAction
  rfl

theorem takeAction_options (table : OptionTable) (told : Told)
    (h : ∀ g ∈ options, IsWord g.value) :
    takeAction table told (tokens (fun g => .option (.value g.option) .nothing) options)
      = .ok (tellAll told options) := by
  induction options generalizing told with
  | nil => rfl
  | cons g options ih =>
    obtain ⟨hg, hrest⟩ := List.forall_mem_cons.mp h
    show takeAction table told ((g.spelling, _) :: (g.value, _) :: tokens _ options) = _
    rw [takeAction_value, ih _ hrest, Told.withValue, hg.valueOf]
    rfl

/-- The word behind the action is the page. -/
theorem takeAction_page (table : OptionTable) (page : Text) (hf : told.file = none)
    (h : ∀ g ∈ options, IsWord g.value) :
    takeAction table told
        ((page, .word) :: tokens (fun g => .option (.value g.option) .nothing) options)
      = .ok (tellAll { told with file := some page } options) := by
  rw [← takeAction_options table _ h]
  obtain ⟨file, flags, values, surplus⟩ := told
  subst hf
  cases options <;> rfl

/-- What follows the action is read again, with the options of the action. -/
theorem takeMain_action (told : Told) (hf : told.file = none)
    (ha : ActionName.ofText? action = some a) (hp : IsWord page) (h : ∀ g ∈ options, g.Fits a) :
    takeMain told ((action, .word) :: (page, .word) :: tokens (fun _ => .unknownOption) options)
      = .ok (a, tellAll { told with file := some page } options) := by
  have hread := readAll_cons hp.ne_separator (hp.action a) (readAll_options_action h)
  rw [← map_fst_tokens fun _ => .unknownOption] at hread
  have htake := takeAction_page a.table page hf fun g hg => (h g hg).value
  -- Lean makes no equations for `takeMain`: the branch of a word is reached by reduction
  conv =>
    lhs
    whnf
  simp only [ha, List.map_cons, hread, htake, bind, Except.bind, pure, Except.pure]

/-! ## Whole command lines -/

/-- A command line: perhaps a folder of stored queries, an action, a page, and options. -/
def line (storeDir : Option Text) (action page : Text) (options : List Given) : List Text :=
  (storeDir.map fun d => ["--store-dir".toList, d]).getD []
    ++ action :: page :: arguments options

/-- What a command line tells. -/
theorem ofArguments_line {storeDir : Option Text} (ha : ActionName.ofText? action = some a)
    (haction : IsWord action) (hd : ∀ d ∈ storeDir, IsWord d) (hp : IsWord page)
    (h : ∀ g ∈ options, g.Fits a) :
    Invocation.ofArguments (line storeDir action page options) =
      Invocation.ofTold a (tellAll
        ⟨some page, [], (storeDir.map fun d => (.storeDir, some d)).toList, false⟩ options) := by
  have hread := readAll_cons haction.ne_separator haction.main <|
    readAll_cons hp.ne_separator hp.main (readAll_options_main h)
  cases storeDir with
  | none =>
    have htake := takeMain_action .nothing rfl ha hp h
    show (readAll mainTable (action :: page :: arguments options) >>= fun tokens =>
      takeMain .nothing tokens >>= fun r => Invocation.ofTold r.1 r.2) = _
    simp only [hread, htake, bind, Except.bind]
    rfl
  | some d =>
    have hd := hd d rfl
    have hread' := readAll_cons (by decide) (rfl : readOne mainTable "--store-dir".toList = _)
      (readAll_cons hd.ne_separator hd.main hread)
    have htake := takeMain_action (.withValue .nothing .storeDir d) rfl ha hp h
    show (readAll mainTable ("--store-dir".toList :: d :: action :: page :: arguments options)
      >>= fun tokens => takeMain .nothing tokens >>= fun r => Invocation.ofTold r.1 r.2) = _
    simp only [hread', takeMain_value, htake, bind, Except.bind]
    rw [Told.withValue, hd.valueOf]
    rfl

variable {script output outputDir : Text}

/-- Runs the markup phase over a folder of stored queries. -/
def markupLine (storeDir page output : Text) : List Text :=
  line (some storeDir) "markup".toList page [⟨"--output".toList, .output, output⟩]

/-- Runs the script phase over a folder of stored queries. -/
def scriptLine (storeDir page script output : Text) : List Text :=
  line (some storeDir) "script".toList page
    [⟨"--script".toList, .script, script⟩, ⟨"--output".toList, .output, output⟩]

/-- Runs both phases, over a folder of stored queries if one is given. -/
def buildLine (storeDir : Option Text) (page script outputDir : Text) : List Text :=
  line storeDir "build".toList page
    [⟨"--script".toList, .script, script⟩, ⟨"--output-dir".toList, .outputDir, outputDir⟩]

theorem ofArguments_markup {storeDir : Text} (hd : IsWord storeDir) (hp : IsWord page)
    (ho : IsWord output) :
    Invocation.ofArguments (markupLine storeDir page output) =
      .ok ⟨false, some (.path (.ofText storeDir)), .ofText page,
        .markup (some (.path (.ofText output)))⟩ := by
  refine (ofArguments_line (a := .markup) rfl (isWord_of_head (by decide)) ?_ hp ?_).trans rfl
  · rintro d ⟨⟩
    exact hd
  · exact List.forall_mem_singleton.mpr ⟨rfl, rfl, ho⟩

theorem ofArguments_script {storeDir : Text} (hd : IsWord storeDir) (hp : IsWord page)
    (hs : IsWord script) (ho : IsWord output) :
    Invocation.ofArguments (scriptLine storeDir page script output) =
      .ok ⟨false, some (.path (.ofText storeDir)), .ofText page,
        .script (some (.ofText script)) none (some (.path (.ofText output)))⟩ := by
  refine (ofArguments_line (a := .script) rfl (isWord_of_head (by decide)) ?_ hp ?_).trans rfl
  · rintro d ⟨⟩
    exact hd
  · exact List.forall_mem_cons.mpr ⟨⟨rfl, rfl, hs⟩,
      List.forall_mem_singleton.mpr ⟨rfl, rfl, ho⟩⟩

theorem ofArguments_build {storeDir : Option Text} (hd : ∀ d ∈ storeDir, IsWord d)
    (hp : IsWord page) (hs : IsWord script) (ho : IsWord outputDir) :
    Invocation.ofArguments (buildLine storeDir page script outputDir) =
      .ok ⟨false, storeDir.map fun d => .path (.ofText d), .ofText page,
        .build (some (.ofText script)) (.path (.ofText outputDir))⟩ := by
  refine (ofArguments_line (a := .build) rfl (isWord_of_head (by decide)) hd hp ?_).trans ?_
  · exact List.forall_mem_cons.mpr ⟨⟨rfl, rfl, hs⟩,
      List.forall_mem_singleton.mpr ⟨rfl, rfl, ho⟩⟩
  · cases storeDir <;> rfl

end PageQueries.Arguments
