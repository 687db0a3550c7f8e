import LetLang.Proofs.CommandLine.Outcome

/-! Which text a diagnostic is shown against. A diagnostic knows its source by name only, so it is
shown against the first source of that name. Files of one name have one text; but a file can go by
the name of the text on the command line, and then its diagnostics are shown against that text.
-/

namespace LetLang

-----------------------------------------------------------------------------------------
-- Diagnostics with their sources
-----------------------------------------------------------------------------------------

/-- The diagnostics of all texts in order, each with the source whose parse reported it. -/
def ProgramResult.attributed (result : ProgramResult) (sources : List Source)
    : List (Source × Diagnostic) :=
  ((sources.zip result.files).flatMap fun (source, file) =>
      file.session.diagnostics.map fun diagnostic => (source, diagnostic)).mergeSort
    fun left right => Diagnostic.comesBefore left.2 right.2

section

variable {sources : List Source} {result : ProgramResult}

/-- Sorting looks at the diagnostics only, so each one takes its source along. -/
theorem ProgramResult.map_attributed (parsed : Program.parse ⟨sources⟩ = .ok result)
    : (result.attributed sources).map Prod.snd = result.diagnostics := by
  have length : sources.length = result.files.length :=
    (Program.parse_eq_ok_iff.mp parsed).length_eq
  have plain : ((sources.zip result.files).flatMap fun (source, file) =>
        file.session.diagnostics.map fun diagnostic => (source, diagnostic)).map Prod.snd
      = result.files.flatMap fun file => file.session.diagnostics := by
    conv_rhs => rw [← List.map_snd_zip (Nat.le_of_eq length.symm), List.flatMap_map]
    simp only [List.map_flatMap, List.map_map, Function.comp_def, List.map_id']
  rw [ProgramResult.diagnostics, Diagnostic.sort, ← plain]
  exact List.map_mergeSort fun _ _ _ _ => rfl

/-- A diagnostic belongs to the file that its source is parsed as. -/
theorem ProgramResult.file_of_mem_attributed (parsed : Program.parse ⟨sources⟩ = .ok result)
    {origin : Source × Diagnostic} (member : origin ∈ result.attributed sources)
    : origin.1 ∈ sources ∧ origin.2.file = some origin.1.name := by
  rw [ProgramResult.attributed, List.mem_mergeSort, List.mem_flatMap] at member
  obtain ⟨⟨source, file⟩, pair, own⟩ := member
  obtain ⟨diagnostic, reported, rfl⟩ := List.mem_map.mp own
  have each := (List.forall₂_iff_zip.mp (Program.parse_eq_ok_iff.mp parsed)).2 pair
  obtain ⟨_, session⟩ := Source.parse_eq_ok_iff.mp each
  exact ⟨(List.of_mem_zip pair).1, (reportedIn_of_parse session).file diagnostic reported⟩

end

namespace CommandLine

open LetLang.Files LetLang.Text

-----------------------------------------------------------------------------------------
-- Sources of one name
-----------------------------------------------------------------------------------------

/-- A source of a run goes by the name of the text on the command line, but is another text. -/
def Shadowed (arguments : Arguments) (source : Source) : Prop :=
  source.name = inlineName ∧ ∃ inline, arguments.source = some inline ∧ inline ≠ source.text

theorem ReadAll.read_eq {files : Access Id} {paths : List String} {sources : List Source}
    (readable : ReadAll files paths sources) {source : Source} (member : source ∈ sources)
    : (files.read source.name).run = .ok source.text := by
  induction readable with
  | nil => cases member
  | cons first _ ih =>
      rcases List.mem_cons.mp member with rfl | member
      · rw [first.1, first.2]
      · exact ih member

/-- Of the sources that were read, those of one name have one text. -/
theorem ReadAll.text_eq {files : Access Id} {paths : List String} {sources : List Source}
    (readable : ReadAll files paths sources) {one two : Source} (here : one ∈ sources)
    (there : two ∈ sources) (name : one.name = two.name)
    : one.text = two.text := by
  have same := readable.read_eq here
  rw [name, readable.read_eq there] at same
  exact (Except.ok.inj same).symm

section

variable {files : Access Id} {arguments : Arguments} {sources : List Source} {options : Options}

/-- The text on the command line is the first source. -/
theorem Prepared.sources_of_inline (prepared : Prepared files arguments sources options)
    {inline : String} (given : arguments.source = some inline)
    : ∃ paths added, ReadAll files paths added ∧ sources = ⟨inlineName, inline⟩ :: added := by
  obtain ⟨_, readable⟩ := prepared
  refine ⟨_, _, readable, ?_⟩
  simp [orSample, inlineProgram, given, Program.add, Program.empty]

/-- Without a text on the command line, the sources are files, or there is the sample alone. -/
theorem Prepared.sources_of_files (prepared : Prepared files arguments sources options)
    (none : arguments.source = none)
    : sources = [⟨inlineName, sample⟩] ∨ ∃ paths, ReadAll files paths sources := by
  obtain @⟨_, added, _, readable⟩ := prepared
  simp only [inlineProgram, none, Program.empty, List.nil_append]
  cases added with
  | nil => exact .inl rfl
  | cons first later => exact .inr ⟨_, readable⟩

/-- The first source by the name of another one has its text, or is the text on the command
line.
-/
theorem Prepared.text_eq (prepared : Prepared files arguments sources options)
    {source first : Source} (member : source ∈ sources)
    (found : Program.source? ⟨sources⟩ source.name = some first)
    : (¬Shadowed arguments source → first.text = source.text)
      ∧ ∀ inline, arguments.source = some inline → source.name = inlineName
          → first.text = inline := by
  have among : first ∈ sources := List.mem_of_find?_eq_some found
  have name : first.name = source.name := by simpa using List.find?_some found
  cases given : arguments.source with
  | none =>
      refine ⟨fun _ => ?_, fun _ some => nomatch some⟩
      rcases prepared.sources_of_files given with rfl | ⟨paths, readable⟩
      · rw [List.mem_singleton.mp member, List.mem_singleton.mp among]
      · exact readable.text_eq among member name
  | some inline =>
      obtain ⟨paths, added, readable, rfl⟩ := prepared.sources_of_inline given
      by_cases clash : source.name = inlineName
      · have shadow : first = ⟨inlineName, inline⟩ := by
          simpa [Program.source?, clash] using found.symm
        refine ⟨fun visible => ?_, fun _ same _ => ?_⟩
        · by_contra differs
          exact visible ⟨clash, inline, given, by simpa [shadow] using differs⟩
        · rw [shadow, Option.some.inj same]
      · refine ⟨fun _ => ?_, fun _ _ same => absurd same clash⟩
        have behind : ∀ {other : Source}, other ∈ ⟨inlineName, inline⟩ :: added
            → other.name = source.name → other ∈ added := by
          intro other present same
          rcases List.mem_cons.mp present with rfl | present
          · exact absurd same.symm clash
          · exact present
        exact readable.text_eq (behind among name) (behind member rfl) name

end

-----------------------------------------------------------------------------------------
-- What a run shows
-----------------------------------------------------------------------------------------

/-- How a diagnostic is shown that a source reported: against that source, or, if it is shadowed,
against the text on the command line.
-/
structure ShowsOrigin (arguments : Arguments) (color : Bool) (origin : Source × Diagnostic)
    (text : String) : Prop where
  own
    : ¬Shadowed arguments origin.1
      → Diagnostic.render (.ofText origin.1.text) color origin.2 = .ok text
  shadowed
    : ∀ inline, arguments.source = some inline → origin.1.name = inlineName
      → Diagnostic.render (.ofText inline) color origin.2 = .ok text

/-- What a run shows. If it cannot read all that it needs, it shows nothing; otherwise it shows the
first diagnostics, each according to the source that reported it.
-/
inductive TellsOrigins (files : Access Id) (terminal : Bool) (times : Times)
    (arguments : Arguments) (given : Report) : Prop
  | unread (missing : ConfigBroken files arguments.config ∨ FileMissing files arguments)
    (silent : given.errorOutput = "")
  | parsed {sources options result shown} (parsed : Parsed files arguments sources options result)
    (count : shown.length = shownCount options result.total)
    (origins
      : List.Forall₂ (ShowsOrigin arguments (options.isPretty && terminal))
          ((result.attributed sources).take shown.length) shown)
    (told
      : given.errorOutput
        = if given.exit = 1 then
            (if arguments.verbose then
              fileNotes (options.isPretty && terminal) result.files times.files
            else
              "")
              ++ String.join shown
          else
            transcript arguments.verbose (options.isPretty && terminal) times result shown)

theorem ShowsFirst.origins {files : Access Id} {arguments : Arguments} {sources : List Source}
    {options : Options} {result : ProgramResult}
    (parsed : Parsed files arguments sources options result) {color : Bool} {shown : List String}
    (first : ShowsFirst sources options color result shown)
    : List.Forall₂ (ShowsOrigin arguments color) ((result.attributed sources).take shown.length)
        shown := by
  have each := first.2
  rw [← ProgramResult.map_attributed parsed.parsed, ← List.map_take, List.forall₂_map_left_iff]
    at each
  have known : ∀ origin ∈ (result.attributed sources).take shown.length,
      origin.1 ∈ sources ∧ origin.2.file = some origin.1.name :=
    fun _ member =>
      ProgramResult.file_of_mem_attributed parsed.parsed (List.mem_of_mem_take member)
  apply ((List.forall₂_and_left _ _).mpr ⟨known, each⟩).imp
  intro origin text both
  obtain ⟨⟨member, own⟩, name, source, file, found, drawn⟩ := both
  obtain rfl : origin.1.name = name := Option.some.inj (own.symm.trans file)
  obtain ⟨same, inline⟩ := parsed.prepared.text_eq member found
  refine ⟨fun visible => ?_, fun given present clash => ?_⟩
  · rw [← same visible]
    exact drawn
  · rw [← inline given present clash]
    exact drawn

/-- A run that reads all it needs shows each diagnostic against the source that reported it, unless
that source is shadowed by the text on the command line; then it shows the diagnostic against that
text. Other runs show no diagnostics.
-/
theorem runOn_shows_origins {files : Access Id} {terminal : Bool} {times : Times}
    {arguments : Arguments} {given : Report}
    (made : runOn files terminal times arguments = .ok given)
    : TellsOrigins files terminal times arguments given := by
  rcases runOn_cases files terminal times arguments with
    ⟨missing, failure, ended⟩ | ⟨sources, options, result, parsed, ended⟩
  · obtain rfl := Except.ok.inj (made.symm.trans ended)
    exact .unread missing rfl
  · rw [ended] at made
    obtain ⟨_, shown, first, ending⟩ := report_eq_ok parsed.parsed made
    refine .parsed parsed first.1 (first.origins parsed) ?_
    rcases ending with ⟨_, exit, told⟩ | ⟨_, exit, told⟩
    · rw [if_pos exit, told]
    · have other : given.exit ≠ 1 := by
        rw [exit]
        split <;> decide
      rw [if_neg other, told]

theorem runOn_shows_origins_clash
    : let files : Access Id :=
        ⟨fun path =>
            if path = "<input>" then .ok "let a = 1;\n  x;"
            else if path = "a.ql" then .ok "type t = ;"
            else .error .notFound,
          fun _ => false⟩
      let arguments :=
        { Arguments.empty with source := some "y;", files := ["<input>", "a.ql"] }
      let times : Times := ⟨["0.001", "0.001", "0.001"], "0.00"⟩
      ∃ given, runOn files true times arguments = .ok given
        ∧ TellsOrigins files true times arguments given := by
  intro files arguments times
  have prepared : Prepared files arguments
      [⟨inlineName, "y;"⟩, ⟨"<input>", "let a = 1;\n  x;"⟩, ⟨"a.ql", "type t = ;"⟩] .unset :=
    @Prepared.intro files arguments none
      [⟨"<input>", "let a = 1;\n  x;"⟩, ⟨"a.ql", "type t = ;"⟩] (.absent rfl)
      (.cons ⟨rfl, rfl⟩ (.cons ⟨rfl, rfl⟩ .nil))
  have fits : ∀ sources options, Prepared files arguments sources options
      → ∀ source ∈ sources, byteLength source.text.toList + 1 < Location.bound := by
    intro sources options also
    obtain ⟨rfl, _⟩ := also.unique prepared
    decide
  obtain ⟨given, made⟩ := exists_runOn fits true times
  exact ⟨given, made, runOn_shows_origins made⟩

/-- The error in a file is shown against the text on the command line, which has no error. -/
theorem runOn_shows_other_text
    : let text := "let a = 1;\n  x;"
      let diagnostic : Diagnostic :=
        ⟨some "<input>", some ⟨13, 1⟩, "Cannot reference 'x' before declaration.", 2002, .error⟩
      let files : Access Id :=
        ⟨fun path => if path = "<input>" then .ok text else .error .notFound, fun _ => false⟩
      let arguments := { Arguments.empty with source := some "1;", files := ["<input>"] }
      (parse (some "<input>") "1;").toOption.map Session.diagnostics = some []
      ∧ (parse (some "<input>") text).toOption.map Session.diagnostics = some [diagnostic]
      ∧ (Diagnostic.render (.ofText text) false diagnostic).toOption
        = some ("<input>:2:3\n  x;\n"
            ++ "  ^ error QL2002: Cannot reference 'x' before declaration.\n")
      ∧ (runOn files false ⟨[], "0.00"⟩ arguments).toOption.map Report.errorOutput
        = some ("<input>:1:3\n1;\n"
            ++ "  ^ error QL2002: Cannot reference 'x' before declaration.\n"
            ++ "\nFound 1 error.\n") := by
  decide +kernel

end CommandLine

end LetLang
