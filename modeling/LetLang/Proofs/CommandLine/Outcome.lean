import LetLang.Proofs.CommandLine.Loading
import LetLang.Proofs.Diagnostic.Rendering
import LetLang.Proofs.Program.Merging
import LetLang.Proofs.Tree.Depth

/-! What comes of a run: its exit code, what it puts out, and the diagnostics it shows. A run fails
if something cannot be read, or if a module is nested too deeply for the JSON form; otherwise its
exit code tells whether there are errors.
-/

namespace LetLang

/-- The number of errors in all parsed texts. -/
def ProgramResult.total (result : ProgramResult) : Nat :=
  (result.files.flatMap fun file => file.session.errors).length

namespace CommandLine

open LetLang.Files LetLang.Text

/-- A run over files that do not change, with the times it took. -/
def runOn (files : Access Id) (terminal : Bool) (times : Times) (arguments : Arguments)
    : Except Fault Report :=
  (run files (pure terminal)
    (fun program => pure (program.parse.map fun result => (result, times))) arguments).run

/-- A parsed text cannot be put out. -/
def Blocked (mode : EmitMode) (file : ParsedFile) : Prop :=
  mode = .json ∧ file.session.tree.TooDeep

instance (mode : EmitMode) (file : ParsedFile) : Decidable (Blocked mode file) :=
  inferInstanceAs (Decidable (_ ∧ _))

/-- What is put out for a parsed text, behind its name if there are several. -/
def emitted (mode : EmitMode) (headed : Bool) (file : ParsedFile) : String :=
  let header := if headed then "// " ++ file.name ++ "\n" else ""
  match mode with
  | .nothing => ""
  | .json => header ++ closed ((Emit.ofModule file.session.tree).write .pretty)
  | .source => header ++ closed (file.session.tree.print .default)

/-- What is put out for the parsed texts before the first one that cannot be. -/
def emittedAll (mode : EmitMode) (files : List ParsedFile) : String :=
  String.join ((files.takeWhile fun file => ¬Blocked mode file).map
    (emitted mode (decide (1 < files.length))))

/-- What a run parses: its sources, with its options for the report on them. -/
structure Parsed (files : Access Id) (arguments : Arguments) (sources : List Source)
    (options : Options) (result : ProgramResult) : Prop where
  prepared : Prepared files arguments sources options
  parsed : Program.parse ⟨sources⟩ = .ok result

/-- How many diagnostics are shown of a total. -/
def shownCount (options : Options) (total : Nat) : Nat :=
  match options.maxErrors with
  | none => total
  | some limit => min limit.toNat total

/-- A diagnostic is shown as a text, against the first source that goes by the name of its
file.
-/
def Shows (sources : List Source) (color : Bool) (diagnostic : Diagnostic) (text : String) : Prop :=
  ∃ name source,
    diagnostic.file = some name
    ∧ Program.source? ⟨sources⟩ name = some source
    ∧ Diagnostic.render (.ofText source.text) color diagnostic = .ok text

/-- What a run tells: notes if they are asked for, the diagnostics as they are shown, and the number
of all errors if there are any.
-/
def transcript (verbose color : Bool) (times : Times) (result : ProgramResult)
    (shown : List String) : String :=
  (if verbose then fileNotes color result.files times.files else "")
    ++ String.join shown
    ++ (if verbose then totalNote color times.total else "")
    ++ (if result.total = 0 then "" else countLine color result.total)

/-- The texts show the first diagnostics, as many as the limit lets through. -/
def ShowsFirst (sources : List Source) (options : Options) (color : Bool) (result : ProgramResult)
    (shown : List String) : Prop :=
  shown.length = shownCount options result.total
  ∧ List.Forall₂ (Shows sources color) (result.diagnostics.take shown.length) shown

section

variable {mode : EmitMode} {headed : Bool} {file : ParsedFile}

theorem emit_of_blocked (blocked : Blocked mode file)
    : ∃ failure, file.session.tree.emit mode = .error failure := by
  obtain ⟨rfl, deep⟩ := blocked
  rw [Module.emit, if_pos (file.session.tree.tooDeep_iff.mp deep)]
  exact ⟨_, rfl⟩

theorem emitFrom_of_not_blocked (free : ¬Blocked mode file) (output : String)
    (rest : List ParsedFile)
    : emitFrom mode headed output (file :: rest)
      = emitFrom mode headed (output ++ emitted mode headed file) rest := by
  cases mode with
  | nothing => simp [emitFrom, Module.emit, emitted]
  | source => simp [emitFrom, Module.emit, emitted, String.append_assoc]
  | json =>
      have shallow : ¬Emit.depthLimit < file.session.tree.depth := by
        rw [← Module.tooDeep_iff]
        exact fun deep => free ⟨rfl, deep⟩
      simp [emitFrom, Module.emit, emitted, shallow, String.append_assoc]

/-- All is put out up to the first text for which that fails. -/
theorem emitFrom_cases (mode : EmitMode) (headed : Bool) (output : String)
    (files : List ParsedFile)
    : (emitFrom mode headed output files).1
        = output ++ String.join ((files.takeWhile fun file => ¬Blocked mode file).map
            (emitted mode headed))
      ∧ ((emitFrom mode headed output files).2.isSome = true
        ↔ ∃ file ∈ files, Blocked mode file) := by
  induction files generalizing output with
  | nil => simp [emitFrom]
  | cons first rest ih =>
      by_cases blocked : Blocked mode first
      · obtain ⟨failure, failed⟩ := emit_of_blocked blocked
        simp [emitFrom, failed, blocked]
      · obtain ⟨text, failure⟩ := ih (output ++ emitted mode headed first)
        rw [emitFrom_of_not_blocked blocked]
        refine ⟨?_, ?_⟩
        · rw [text]
          simp [blocked, String.append_assoc]
        · rw [failure]
          simp [blocked]

end

-----------------------------------------------------------------------------------------
-- Counting errors
-----------------------------------------------------------------------------------------

section

variable {program : Program} {result : ProgramResult}

/-- Each error is one diagnostic. -/
theorem length_diagnostics (parsed : program.parse = .ok result)
    : result.diagnostics.length = result.total := by
  have merged : result.diagnostics.length
      = (result.files.flatMap fun file => file.session.diagnostics).length :=
    (Diagnostic.sort_perm _).length_eq
  rw [merged, ProgramResult.total]
  have each := Program.parse_eq_ok_iff.mp parsed
  generalize program.sources = sources, result.files = files at each
  induction each with
  | nil => rfl
  | cons first _ ih =>
      have diagnostics := diagnostics_of_parse (Source.parse_eq_ok_iff.mp first).2
      rw [List.flatMap_cons, List.flatMap_cons, List.length_append, List.length_append, ih,
        diagnostics, List.length_map]

theorem isError_of_mem_diagnostics (parsed : program.parse = .ok result) {diagnostic : Diagnostic}
    (member : diagnostic ∈ result.diagnostics)
    : diagnostic.isError = true := by
  obtain ⟨file, among, own⟩ := List.mem_flatMap.mp ((Diagnostic.sort_perm _).mem_iff.mp member)
  exact (reported_of_parse parsed file among).isError diagnostic own

theorem errorCount_diagnostics (parsed : program.parse = .ok result)
    : Diagnostic.errorCount result.diagnostics = result.total := by
  rw [← length_diagnostics parsed]
  exact List.countP_eq_length.mpr fun _ => isError_of_mem_diagnostics parsed

theorem hasErrors_diagnostics (parsed : program.parse = .ok result)
    : Diagnostic.hasErrors result.diagnostics = true ↔ result.total ≠ 0 := by
  rw [← errorCount_diagnostics parsed]
  simp [Diagnostic.hasErrors, Diagnostic.errorCount]

end

-----------------------------------------------------------------------------------------
-- The report
-----------------------------------------------------------------------------------------

/-- The first diagnostics are shown, as many as the limit lets through. -/
theorem shownDiagnostics_eq {options : Options} {diagnostics : List Diagnostic}
    : shownDiagnostics options diagnostics
      = diagnostics.take (shownCount options diagnostics.length) := by
  unfold shownDiagnostics shownCount
  cases options.maxErrors with
  | none => rw [List.take_length]
  | some limit =>
      change diagnostics.take limit.toNat = diagnostics.take (min limit.toNat diagnostics.length)
      rw [← List.take_take, List.take_length]

/-- Every diagnostic belongs to one of the sources. -/
theorem exists_source_of_mem_diagnostics {sources : List Source} {result : ProgramResult}
    (parsed : Program.parse ⟨sources⟩ = .ok result) {diagnostic : Diagnostic}
    (member : diagnostic ∈ result.diagnostics)
    : ∃ name source, diagnostic.file = some name
        ∧ Program.source? ⟨sources⟩ name = some source := by
  obtain ⟨file, among, own⟩ := List.mem_flatMap.mp ((Diagnostic.sort_perm _).mem_iff.mp member)
  have known := (reported_of_parse parsed file among).file diagnostic own
  have named : file.name ∈ sources.map Source.name := by
    rw [← names_of_parse parsed]
    exact List.mem_map_of_mem among
  obtain ⟨source, present, same⟩ := List.mem_map.mp named
  have some : (Program.source? ⟨sources⟩ file.name).isSome = true :=
    List.find?_isSome.mpr ⟨source, present, by simp [same]⟩
  obtain ⟨first, found⟩ := Option.isSome_iff_exists.mp some
  exact ⟨file.name, first, known, found⟩

theorem showDiagnostic_eq {sources : List Source} {color : Bool} {diagnostic : Diagnostic}
    {name : String} {source : Source} (file : diagnostic.file = some name)
    (found : Program.source? ⟨sources⟩ name = some source)
    : showDiagnostic ⟨sources⟩ color diagnostic
      = Diagnostic.render (.ofText source.text) color diagnostic := by
  simp [showDiagnostic, file, found]

theorem showsFirst_of_mapM {sources : List Source} {result : ProgramResult}
    (parsed : Program.parse ⟨sources⟩ = .ok result) {options : Options} {color : Bool}
    {shown : List String}
    (all
      : (shownDiagnostics options result.diagnostics).mapM (showDiagnostic ⟨sources⟩ color)
        = .ok shown)
    : ShowsFirst sources options color result shown := by
  have total := length_diagnostics parsed
  have each := Fault.mapM_eq_ok_iff.mp all
  rw [shownDiagnostics_eq, total] at each
  have within : shownCount options result.total ≤ result.total := by
    unfold shownCount
    cases options.maxErrors <;> simp
  have length : shown.length = shownCount options result.total := by
    rw [← each.length_eq, List.length_take, total, Nat.min_eq_left within]
  refine ⟨length, ?_⟩
  rw [length]
  have known : ∀ diagnostic ∈ result.diagnostics.take (shownCount options result.total),
      diagnostic ∈ result.diagnostics :=
    fun _ => List.mem_of_mem_take
  apply ((List.forall₂_and_left _ _).mpr ⟨known, each⟩).imp
  intro diagnostic text both
  obtain ⟨member, same⟩ := both
  obtain ⟨name, source, file, found⟩ := exists_source_of_mem_diagnostics parsed member
  exact ⟨name, source, file, found, (showDiagnostic_eq file found).symm.trans same⟩

/-- The parts of a report. -/
theorem report_eq_ok {job : Job} {terminal : Bool} {times : Times} {result : ProgramResult}
    {given : Report} (parsed : job.program.parse = .ok result)
    (made : report job terminal result times = .ok given)
    : let color := job.options.isPretty && terminal
      given.output = emittedAll job.options.emitMode result.files
      ∧ ∃ shown, ShowsFirst job.program.sources job.options color result shown
          ∧ ((∃ file ∈ result.files, Blocked job.options.emitMode file)
              ∧ given.exit = 1
              ∧ given.errorOutput
                = (if job.verbose then fileNotes color result.files times.files else "")
                  ++ String.join shown
            ∨ (¬∃ file ∈ result.files, Blocked job.options.emitMode file)
              ∧ given.exit = (if result.total = 0 then 0 else 2)
              ∧ given.errorOutput = transcript job.verbose color times result shown) := by
  intro color
  obtain ⟨output, stopped⟩ := emitFrom_cases job.options.emitMode
    (decide (1 < result.files.length)) "" result.files
  rw [String.empty_append] at output
  simp only [report, bind, Except.bind] at made
  split at made
  · cases made
  · next shown all =>
      have first : ShowsFirst job.program.sources job.options color result shown :=
        showsFirst_of_mapM parsed all
      cases ended : (emitFrom job.options.emitMode (decide (1 < result.files.length)) ""
        result.files).2 with
      | some failure =>
          simp only [ended] at made
          obtain rfl := Except.ok.inj made
          rw [ended] at stopped
          exact ⟨output, shown, first, .inl ⟨stopped.mp rfl, rfl, rfl⟩⟩
      | none =>
          simp only [ended, errorCount_diagnostics parsed] at made
          rw [ended] at stopped
          have free := mt stopped.mpr Bool.false_ne_true
          by_cases errors : Diagnostic.hasErrors result.diagnostics = true
          · have count := (hasErrors_diagnostics parsed).mp errors
            rw [if_pos errors] at made
            obtain rfl := Except.ok.inj made
            refine ⟨output, shown, first, .inr ⟨free, (if_neg count).symm, ?_⟩⟩
            rw [transcript, if_neg count]
          · have count := not_ne_iff.mp (mt (hasErrors_diagnostics parsed).mpr errors)
            rw [if_neg errors] at made
            obtain rfl := Except.ok.inj made
            refine ⟨output, shown, first, .inr ⟨free, (if_pos count).symm, ?_⟩⟩
            rw [transcript, if_pos count, String.append_empty]

-----------------------------------------------------------------------------------------
-- The run
-----------------------------------------------------------------------------------------

section

variable {files : Access Id} {terminal : Bool} {times : Times} {arguments : Arguments}
  {sources others : List Source} {options further : Options} {result other : ProgramResult}
  {given : Report}

theorem Parsed.unique (one : Parsed files arguments sources options result)
    (two : Parsed files arguments others further other)
    : sources = others ∧ options = further ∧ result = other := by
  obtain ⟨rfl, rfl⟩ := one.prepared.unique two.prepared
  exact ⟨rfl, rfl, Except.ok.inj (one.parsed.symm.trans two.parsed)⟩

/-- A run ends at a file that fails it, or with the report on its sources. -/
theorem runOn_cases (files : Access Id) (terminal : Bool) (times : Times) (arguments : Arguments)
    : ((ConfigBroken files arguments.config ∨ FileMissing files arguments)
        ∧ ∃ failure, runOn files terminal times arguments = .ok (.ofFailure failure))
      ∨ ∃ sources options result, Parsed files arguments sources options result
          ∧ runOn files terminal times arguments
            = report ⟨⟨sources⟩, options, arguments.verbose⟩ terminal result times := by
  rcases load_cases files arguments with
    ⟨missing, failure, loaded⟩ | ⟨sources, options, prepared, loaded⟩
  · refine .inl ⟨missing, failure, ?_⟩
    simp only [runOn, run, Id.run_bind, loaded]
    rfl
  · obtain ⟨result, parsed⟩ := Program.exists_parse ⟨sources⟩
    refine .inr ⟨sources, options, result, ⟨prepared, parsed⟩, ?_⟩
    simp only [runOn, run, Id.run_bind, loaded, parsed]
    rfl

/-- A run gives a report on all sources whose positions can be counted. -/
theorem exists_runOn
    (fits
      : ∀ sources options, Prepared files arguments sources options
          → ∀ source ∈ sources, byteLength source.text.toList + 1 < Location.bound)
    (terminal : Bool) (times : Times)
    : ∃ given, runOn files terminal times arguments = .ok given := by
  rcases runOn_cases files terminal times arguments with
    ⟨_, failure, ended⟩ | ⟨sources, options, result, parsed, ended⟩
  · exact ⟨_, ended⟩
  · have each : ∀ diagnostic ∈ shownDiagnostics options result.diagnostics,
        ∃ text, showDiagnostic ⟨sources⟩ (options.isPretty && terminal) diagnostic = .ok text := by
      intro diagnostic member
      rw [shownDiagnostics_eq] at member
      obtain ⟨name, source, file, found⟩ :=
        exists_source_of_mem_diagnostics parsed.parsed (List.mem_of_mem_take member)
      rw [showDiagnostic_eq file found]
      exact Diagnostic.exists_render
        (fits sources options parsed.prepared source (List.mem_of_find?_eq_some found)) _ _
    obtain ⟨shown, all⟩ := Fault.exists_mapM each
    rw [ended]
    simp only [report, bind, Except.bind, all]
    split
    · exact ⟨_, rfl⟩
    · split
      · exact ⟨_, rfl⟩
      · exact ⟨_, rfl⟩

end

end CommandLine

end LetLang
