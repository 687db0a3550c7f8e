import LetLang.Proofs.CommandLine.Outcome

/-! What the exit code and the output of a run depend on: its sources and the mode of output. Two
runs that differ in the limit on diagnostics, in colours, in notes, in the terminal or in the times
they take end alike and put out the same.
-/

namespace LetLang

/-- Two configurations ask for the same work: they differ in the limit on diagnostics and in
colours at most.
-/
structure Config.SameWork (left right : Config) : Prop where
  files : left.files = right.files
  emit : left.options.bind Options.emit = right.options.bind Options.emit

namespace CommandLine

open LetLang.Files LetLang.Text

/-- Two runs differ only in what is shown: in the limit on diagnostics, in colours and in notes. -/
structure Alike (left right : Access Id) (arguments others : Arguments) : Prop where
  source : arguments.source = others.source
  files : arguments.files = others.files
  config : arguments.config = others.config
  emit : arguments.emit = others.emit
  present : left.isPresent defaultConfig = right.isPresent defaultConfig
  contents
    : ∀ path ∈ configPath? left arguments.config,
        Option.Rel Config.SameWork (configAt? left path) (configAt? right path)
  reads
    : ∀ config, Configured left arguments.config config
        → ∀ path ∈ selectedFiles arguments config, left.read path = right.read path

-----------------------------------------------------------------------------------------
-- The options of a run
-----------------------------------------------------------------------------------------

section

variable (arguments : Arguments) (config : Option (String × Config))

/-- What the arguments set comes before what the configuration sets. Arguments can switch colours
off, but not on.
-/
theorem effectiveOptions_eq
    : effectiveOptions arguments config
      = ⟨if arguments.noColor then
            some false
          else
            config.bind fun found => found.2.options.bind Options.pretty,
          arguments.maxErrors <|> config.bind fun found => found.2.options.bind Options.maxErrors,
          arguments.emit <|> config.bind fun found => found.2.options.bind Options.emit⟩ := by
  obtain ⟨_, _, _, emit, limit, noColor, _⟩ := arguments
  cases config with
  | none => cases noColor <;> rfl
  | some found =>
      obtain ⟨_, options, _⟩ := found
      cases options <;> cases noColor <;> rfl

/-- The mode that the arguments set comes before that of the configuration. -/
theorem effectiveOptions_emit
    : (effectiveOptions arguments config).emit
      = (arguments.emit <|> config.bind fun found => found.2.options.bind Options.emit) := by
  rw [effectiveOptions_eq]

/-- Colours are used unless the arguments or the configuration switch them off. -/
theorem effectiveOptions_isPretty
    : (effectiveOptions arguments config).isPretty
      = (!arguments.noColor
        && (config.bind fun found => found.2.options.bind Options.pretty).getD true) := by
  rw [effectiveOptions_eq, Options.isPretty]
  cases arguments.noColor <;> rfl

/-- The limit in the arguments counts or, if there is none, that of the configuration; without
either, all diagnostics are shown.
-/
theorem shownCount_effectiveOptions (total : Nat)
    : shownCount (effectiveOptions arguments config) total
      = match arguments.maxErrors,
          config.bind fun found => found.2.options.bind Options.maxErrors with
        | some limit, _ => min limit.toNat total
        | none, some limit => min limit.toNat total
        | none, none => total := by
  rw [effectiveOptions_eq, shownCount]
  cases arguments.maxErrors with
  | some limit => rfl
  | none => cases config.bind fun found => found.2.options.bind Options.maxErrors <;> rfl

end

/-- The last line gives the number of errors, in red if there are colours. -/
theorem countLine_eq (color : Bool) (count : Nat)
    : countLine color count
      = "\n" ++ (if color then "\x1b[31m" else "") ++ "Found " ++ toString count
        ++ (if count = 1 then " error." else " errors.") ++ (if color then "\x1b[0m" else "")
        ++ "\n" := by
  unfold countLine counted plural Diagnostic.Palette.of
  cases color <;> by_cases one : count = 1 <;>
    simp [one, Diagnostic.Palette.plain, Diagnostic.Palette.ansi, String.append_assoc]

-----------------------------------------------------------------------------------------
-- What two runs read
-----------------------------------------------------------------------------------------

section

variable {left right : Access Id} {arguments others : Arguments}

theorem Alike.configPath_eq (alike : Alike left right arguments others)
    : configPath? right others.config = configPath? left arguments.config := by
  rw [configPath?, configPath?, alike.config, alike.present]

/-- Two configurations of the same place that ask for the same work. -/
def SameConfig : Option (String × Config) → Option (String × Config) → Prop :=
  Option.Rel fun one two => one.1 = two.1 ∧ one.2.SameWork two.2

theorem Alike.exists_configured (alike : Alike left right arguments others)
    {config : Option (String × Config)} (configured : Configured left arguments.config config)
    : ∃ other, Configured right others.config other ∧ SameConfig config other := by
  cases configured with
  | absent missing => exact ⟨none, .absent (alike.configPath_eq.trans missing), .none⟩
  | @found path config chosen understood =>
      have contents := alike.contents path chosen
      rw [understood] at contents
      cases also : configAt? right path with
      | none =>
          rw [also] at contents
          cases contents
      | some other =>
          rw [also] at contents
          obtain ⟨same⟩ := contents
          refine ⟨_, .found (alike.configPath_eq.trans chosen) also, .some ⟨rfl, ?_, same.emit⟩⟩
          rw [Config.relativeTo, Config.relativeTo, same.files]

theorem Alike.configBroken (alike : Alike left right arguments others)
    (broken : ConfigBroken left arguments.config)
    : ConfigBroken right others.config := by
  obtain ⟨path, chosen, none⟩ := broken
  have contents := alike.contents path chosen
  rw [none] at contents
  refine ⟨path, alike.configPath_eq.trans chosen, ?_⟩
  cases also : configAt? right path with
  | none => rfl
  | some config =>
      rw [also] at contents
      cases contents

theorem Alike.selectedFiles_eq (alike : Alike left right arguments others)
    {config other : Option (String × Config)} (same : SameConfig config other)
    : selectedFiles others other = selectedFiles arguments config := by
  unfold selectedFiles
  rw [alike.files]
  cases same with
  | none => rfl
  | @some one two both =>
      obtain ⟨path, files, _⟩ := both
      simp only [path, files]

theorem Alike.emitMode_eq (alike : Alike left right arguments others)
    {config other : Option (String × Config)} (same : SameConfig config other)
    : (effectiveOptions others other).emitMode = (effectiveOptions arguments config).emitMode := by
  rw [Options.emitMode, Options.emitMode, effectiveOptions_emit, effectiveOptions_emit, alike.emit]
  cases same with
  | none => rfl
  | some both =>
      obtain ⟨_, work⟩ := both
      simp only [Option.bind_some, work.emit]

/-- What one run cannot read, the other cannot read either. -/
theorem Alike.missing (alike : Alike left right arguments others)
    (missing : ConfigBroken left arguments.config ∨ FileMissing left arguments)
    : ConfigBroken right others.config ∨ FileMissing right others := by
  rcases missing with broken | ⟨config, configured, path, member, cause, unread⟩
  · exact .inl (alike.configBroken broken)
  · obtain ⟨other, alsoConfigured, same⟩ := alike.exists_configured configured
    refine .inr ⟨other, alsoConfigured, path, ?_, cause, ?_⟩
    · rw [alike.selectedFiles_eq same]
      exact member
    · rw [← alike.reads config configured path member]
      exact unread

/-- Both runs have the same sources and put them out in the same mode. -/
theorem Alike.exists_prepared (alike : Alike left right arguments others) {sources : List Source}
    {options : Options} (prepared : Prepared left arguments sources options)
    : ∃ further, Prepared right others sources further ∧ further.emitMode = options.emitMode := by
  cases prepared with
  | @intro config added configured readable =>
      obtain ⟨other, alsoConfigured, same⟩ := alike.exists_configured configured
      have again : ReadAll right (selectedFiles others other) added := by
        rw [alike.selectedFiles_eq same]
        apply ((List.forall₂_and_left _ _).mpr ⟨alike.reads config configured, readable⟩).imp
        intro path source both
        obtain ⟨reads, name, text⟩ := both
        exact ⟨name, reads ▸ text⟩
      have inline : inlineProgram arguments = inlineProgram others := by
        rw [inlineProgram, inlineProgram, alike.source]
      rw [inline]
      exact ⟨_, .intro alsoConfigured again, alike.emitMode_eq same⟩

end

-----------------------------------------------------------------------------------------
-- Two runs
-----------------------------------------------------------------------------------------

section

variable {left right : Access Id} {terminal another : Bool} {times more : Times}
  {arguments others : Arguments} {one two : Report}

/-- Both runs have the same sources to show diagnostics against. -/
theorem Alike.exists_runOn (alike : Alike left right arguments others)
    (fits
      : ∀ sources options, Prepared left arguments sources options
          → ∀ source ∈ sources, byteLength source.text.toList + 1 < Location.bound)
    : ∃ two, runOn right another more others = .ok two := by
  apply CommandLine.exists_runOn
  intro sources options prepared
  rcases load_cases left arguments with ⟨missing, _⟩ | ⟨same, further, also, _⟩
  · exact absurd (alike.missing missing) prepared.not_missing
  · obtain ⟨_, again, _⟩ := alike.exists_prepared also
    obtain ⟨rfl, _⟩ := prepared.unique again
    exact fits sources further also

end

end CommandLine

end LetLang
