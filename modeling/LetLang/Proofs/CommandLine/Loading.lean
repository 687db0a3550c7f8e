import LetLang.CommandLine.Run
import Mathlib.Data.List.Forall2
import Mathlib.Data.List.TakeDrop

/-! What a run reads. The configuration is the named file, or else the default one if it is there;
the sources are the text on the command line and the selected files, or the sample if there is
none of them.
-/

namespace LetLang.CommandLine

open LetLang.Files

/-- The configuration file of a run. -/
def configPath? (files : Access Id) (named : Option String) : Option String :=
  named <|> if (files.isPresent defaultConfig).run then some defaultConfig else none

/-- What a configuration file says, if it can be read and understood. -/
def configAt? (files : Access Id) (path : String) : Option Config :=
  match (files.read path).run with
  | .ok text => Config.parse? text
  | .error _ => none

/-- The configuration file of a run cannot be read or cannot be understood. -/
def ConfigBroken (files : Access Id) (named : Option String) : Prop :=
  ∃ path, configPath? files named = some path ∧ configAt? files path = none

/-- The configuration that a run finds, with its path. -/
inductive Configured (files : Access Id) (named : Option String) : Option (String × Config) → Prop
  | absent (missing : configPath? files named = none) : Configured files named none
  | found {path config} (chosen : configPath? files named = some path)
    (understood : configAt? files path = some config)
    : Configured files named (some (path, config.relativeTo path))

/-- A selected file cannot be read. -/
def FileMissing (files : Access Id) (arguments : Arguments) : Prop :=
  ∃ config, Configured files arguments.config config
    ∧ ∃ path ∈ selectedFiles arguments config, ∃ cause, (files.read path).run = .error cause

/-- The sources are what can be read at the paths. -/
def ReadAll (files : Access Id) (paths : List String) (sources : List Source) : Prop :=
  List.Forall₂ (fun path source => source.name = path ∧ (files.read path).run = .ok source.text)
    paths sources

/-- The sources of a run and its options, with all that is needed for them read. -/
inductive Prepared (files : Access Id) (arguments : Arguments) : List Source → Options → Prop
  | intro {config added} (configured : Configured files arguments.config config)
    (readable : ReadAll files (selectedFiles arguments config) added)
    : Prepared files arguments (orSample ⟨(inlineProgram arguments).sources ++ added⟩).sources
        (effectiveOptions arguments config)

-----------------------------------------------------------------------------------------
-- The configuration
-----------------------------------------------------------------------------------------

section

variable {files : Access Id} {named : Option String}

/-- A run finds one configuration at most. -/
theorem Configured.unique {left right : Option (String × Config)}
    (one : Configured files named left) (two : Configured files named right)
    : left = right := by
  cases one with
  | absent missing =>
      cases two with
      | absent => rfl
      | found chosen => simp [missing] at chosen
  | found chosen understood =>
      cases two with
      | absent missing => simp [missing] at chosen
      | found alsoChosen alsoUnderstood =>
          obtain rfl := Option.some.inj (chosen.symm.trans alsoChosen)
          obtain rfl := Option.some.inj (understood.symm.trans alsoUnderstood)
          rfl

theorem Configured.not_broken {config : Option (String × Config)}
    (configured : Configured files named config)
    : ¬ConfigBroken files named := by
  rintro ⟨path, chosen, broken⟩
  cases configured with
  | absent missing => simp [missing] at chosen
  | found alsoChosen understood =>
      obtain rfl := Option.some.inj (chosen.symm.trans alsoChosen)
      simp [broken] at understood

/-- A configuration file is understood, or reading it fails. -/
theorem load_config_cases (files : Access Id) (path : String)
    : (configAt? files path = none ∧ ∃ failure, (Config.load files path).run = .error failure)
      ∨ ∃ config, configAt? files path = some config
          ∧ (Config.load files path).run = .ok (config.relativeTo path) := by
  have loaded : (Config.load files path).run = Config.ofFile path (files.read path).run := rfl
  rw [loaded, configAt?]
  cases (files.read path).run with
  | error cause => exact .inl ⟨rfl, _, rfl⟩
  | ok text =>
      simp only [Config.ofFile]
      cases Config.parse? text with
      | none => exact .inl ⟨rfl, _, rfl⟩
      | some config => exact .inr ⟨config, rfl, rfl⟩

theorem findConfig_of_path_eq_none (missing : configPath? files named = none)
    : (findConfig files named).run = .ok none := by
  unfold configPath? at missing
  cases named with
  | some path => simp at missing
  | none =>
      have absent : (files.isPresent defaultConfig).run = false := by simpa using missing
      simp [findConfig, absent]

theorem findConfig_of_path_eq_some {path : String} (chosen : configPath? files named = some path)
    : (findConfig files named).run
      = (Config.load files path).run.map fun config => some (path, config) := by
  have found : (findConfig files (some path)).run
      = (Config.load files path).run.map fun config => some (path, config) := by
    simp only [findConfig, Id.run_bind, pure_bind]
    cases (Config.load files path).run <;> rfl
  unfold configPath? at chosen
  cases named with
  | some other =>
      cases chosen
      exact found
  | none =>
      have present : (files.isPresent defaultConfig).run = true ∧ defaultConfig = path := by
        simpa using chosen
      obtain ⟨present, rfl⟩ := present
      rw [← found]
      simp [findConfig, present]

/-- Either the configuration file is broken, or a configuration is found, if only that there is
none.
-/
theorem findConfig_cases (files : Access Id) (named : Option String)
    : (ConfigBroken files named ∧ ∃ failure, (findConfig files named).run = .error failure)
      ∨ ∃ config, Configured files named config ∧ (findConfig files named).run = .ok config := by
  cases chosen : configPath? files named with
  | none => exact .inr ⟨none, .absent chosen, findConfig_of_path_eq_none chosen⟩
  | some path =>
      rw [findConfig_of_path_eq_some chosen]
      rcases load_config_cases files path with
        ⟨broken, failure, loaded⟩ | ⟨config, understood, loaded⟩
      · rw [loaded]
        exact .inl ⟨⟨path, chosen, broken⟩, failure, rfl⟩
      · rw [loaded]
        exact .inr ⟨_, .found chosen understood, rfl⟩

end

-----------------------------------------------------------------------------------------
-- The sources
-----------------------------------------------------------------------------------------

theorem ReadAll.unique {files : Access Id} {paths : List String} {left right : List Source}
    (one : ReadAll files paths left) (two : ReadAll files paths right)
    : left = right := by
  induction one generalizing right with
  | nil =>
      cases two
      rfl
  | @cons path source paths left first _ ih =>
      cases two with
      | @cons _ other _ rest second later =>
          have text := Except.ok.inj (first.2.symm.trans second.2)
          have same : source = other := by
            obtain ⟨name, contents⟩ := source
            obtain ⟨otherName, otherContents⟩ := other
            simp_all
          rw [same, ih later]

theorem ReadAll.not_missing {files : Access Id} {paths : List String} {sources : List Source}
    (readable : ReadAll files paths sources) {path : String} (member : path ∈ paths)
    {cause : ReadFailure}
    : (files.read path).run ≠ .error cause := by
  induction readable with
  | nil => cases member
  | cons first _ ih =>
      rcases List.mem_cons.mp member with rfl | member
      · simp [first.2]
      · exact ih member

/-- Either a file cannot be read, or all of them are added. -/
theorem loadAll_cases (files : Access Id) (program : Program) (paths : List String)
    : ((∃ path ∈ paths, ∃ cause, (files.read path).run = .error cause)
        ∧ ∃ failure, (program.loadAll files paths).run = .error failure)
      ∨ ∃ added, ReadAll files paths added
          ∧ (program.loadAll files paths).run = .ok ⟨program.sources ++ added⟩ := by
  induction paths generalizing program with
  | nil =>
      refine .inr ⟨[], .nil, ?_⟩
      rw [List.append_nil]
      rfl
  | cons path rest ih =>
      have step : (program.loadAll files (path :: rest)).run
          = (program.addFile path (files.read path).run).bind fun program =>
              (program.loadAll files rest).run := by
        simp only [Program.loadAll, Program.load, Id.run_bind, pure_bind, bind_assoc]
        cases program.addFile path (files.read path).run <;> rfl
      rw [step]
      cases contents : (files.read path).run with
      | error cause => exact .inl ⟨⟨path, List.mem_cons_self, cause, contents⟩, _, rfl⟩
      | ok text =>
          rcases ih (program.add path text) with
            ⟨⟨other, member, cause, missing⟩, failure, loaded⟩ | ⟨added, readable, loaded⟩
          · exact .inl ⟨⟨other, List.mem_cons_of_mem _ member, cause, missing⟩, failure, loaded⟩
          · refine .inr ⟨⟨path, text⟩ :: added, .cons ⟨rfl, contents⟩ readable, ?_⟩
            rw [Program.add, List.append_assoc] at loaded
            exact loaded

section

variable {files : Access Id} {arguments : Arguments} {sources others : List Source}
  {options further : Options}

/-- All that a run can find: its sources, or a file that fails it. -/
theorem load_cases (files : Access Id) (arguments : Arguments)
    : ((ConfigBroken files arguments.config ∨ FileMissing files arguments)
        ∧ ∃ failure, (load files arguments).run = .error failure)
      ∨ ∃ sources options, Prepared files arguments sources options
          ∧ (load files arguments).run = .ok ⟨⟨sources⟩, options, arguments.verbose⟩ := by
  rcases findConfig_cases files arguments.config with
    ⟨broken, failure, found⟩ | ⟨config, configured, found⟩
  · refine .inl ⟨.inl broken, failure, ?_⟩
    simp only [load, Id.run_bind, found]
    rfl
  rcases loadAll_cases files (inlineProgram arguments) (selectedFiles arguments config) with
    ⟨⟨path, member, cause, missing⟩, failure, loaded⟩ | ⟨added, readable, loaded⟩
  · refine .inl ⟨.inr ⟨config, configured, path, member, cause, missing⟩, failure, ?_⟩
    simp only [load, Id.run_bind, found, loaded]
    rfl
  · refine .inr ⟨_, _, .intro configured readable, ?_⟩
    simp only [load, Id.run_bind, found, loaded]
    rfl

theorem Prepared.unique (one : Prepared files arguments sources options)
    (two : Prepared files arguments others further)
    : sources = others ∧ options = further := by
  obtain ⟨configured, readable⟩ := one
  obtain ⟨alsoConfigured, alsoReadable⟩ := two
  obtain rfl := configured.unique alsoConfigured
  rw [readable.unique alsoReadable]
  exact ⟨rfl, rfl⟩

theorem Prepared.not_missing (prepared : Prepared files arguments sources options)
    : ¬(ConfigBroken files arguments.config ∨ FileMissing files arguments) := by
  obtain ⟨configured, readable⟩ := prepared
  rintro (broken | ⟨config, alsoConfigured, path, member, cause, missing⟩)
  · exact configured.not_broken broken
  · obtain rfl := configured.unique alsoConfigured
    exact readable.not_missing member missing

end

end LetLang.CommandLine
