import LetLang.Program
import LetLang.Proofs.Diagnostic.Order
import LetLang.Proofs.Parse.ErrorOrder
import LetLang.Proofs.Parse.Wording
import LetLang.Proofs.Text.Utf8
import Mathlib.Data.List.Forall2
import Mathlib.Data.List.Perm.Basic

/-! Diagnostics of a whole program. All texts are parsed, and the diagnostics of each one are
already in order; so where every text has a name of its own, merging them puts one text behind the
other, in whichever order the texts were added.
-/

namespace LetLang

open LetLang.Text

/-- What the parse of a text reports: errors with their places, under the name of the text and in
the order of their positions.
-/
structure Diagnostic.ReportedIn (name : String) (diagnostics : List Diagnostic) : Prop where
  file : ∀ diagnostic ∈ diagnostics, diagnostic.file = some name
  span : ∀ diagnostic ∈ diagnostics, ∃ span, diagnostic.span = some span
  isError : ∀ diagnostic ∈ diagnostics, diagnostic.isError = true
  sorted : diagnostics.Pairwise fun left right => left.position ≤ right.position

/-- The order of merged diagnostics: by the bytes of the file name, and by position in one
file.
-/
def Diagnostic.Precedes (left right : Diagnostic) : Prop :=
  ∃ leftName leftSpan rightName rightSpan,
    (left.file = some leftName ∧ left.span = some leftSpan)
    ∧ (right.file = some rightName ∧ right.span = some rightSpan)
    ∧ (bytes leftName.toList < bytes rightName.toList
      ∨ leftName = rightName ∧ leftSpan.start ≤ rightSpan.start)

/-- The parsed texts of some sources with their merged diagnostics: one parsed text to a source,
and all their diagnostics in order, where those that tie are in the order of the texts and then in
that of their reports.
-/
structure Merged (sources : List Source) (result : ProgramResult) : Prop where
  files
    : List.Forall₂
        (fun source file =>
          file.name = source.name
          ∧ parse (some source.name) source.text = .ok file.session)
        sources result.files
  complete
    : result.diagnostics.Perm (result.files.flatMap fun file => file.session.diagnostics)
  ordered : result.diagnostics.Pairwise Diagnostic.Precedes
  stable
    : ∀ key,
        Diagnostic.sharing key result.diagnostics
        = Diagnostic.sharing key (result.files.flatMap fun file => file.session.diagnostics)

-----------------------------------------------------------------------------------------
-- Faults in a list
-----------------------------------------------------------------------------------------

section

variable {α β : Type} {f : α → Except Fault β} {l : List α}

theorem Fault.mapM_eq_ok_iff {results : List β}
    : l.mapM f = .ok results ↔ List.Forall₂ (fun item result => f item = .ok result) l results := by
  induction l generalizing results with
  | nil => cases results <;> simp [pure, Except.pure]
  | cons item rest ih =>
      rw [List.mapM_cons]
      cases first : f item with
      | error fault => cases results <;> simp [bind, Except.bind, first]
      | ok result =>
          cases later : rest.mapM f with
          | error fault => cases results <;> simp [bind, Except.bind, ← ih, later, first]
          | ok others =>
              cases results <;>
                simp [bind, Except.bind, pure, Except.pure, ← ih, later, first]

/-- Where no single item leads to a fault, the list does not. -/
theorem Fault.exists_mapM (each : ∀ item ∈ l, ∃ result, f item = .ok result)
    : ∃ results, l.mapM f = .ok results := by
  simp only [Fault.mapM_eq_ok_iff]
  induction l with
  | nil => exact ⟨[], .nil⟩
  | cons item rest ih =>
      obtain ⟨result, first⟩ := each item List.mem_cons_self
      obtain ⟨results, later⟩ := ih fun other member => each other (.tail _ member)
      exact ⟨result :: results, .cons first later⟩

end

-----------------------------------------------------------------------------------------
-- One text
-----------------------------------------------------------------------------------------

/-- All messages of the parser are errors. -/
theorem ParseError.isError_diagnose (file : Option String) (error : ParseError)
    : (Parse.Reports.diagnose file error).isError = true := by
  have same : (Parse.Reports.diagnose file error).category = error.diagnostic.category := by
    cases file <;> rfl
  simp [Diagnostic.isError, same, error.category_diagnostic]

theorem Source.parse_eq_ok_iff {source : Source} {file : ParsedFile}
    : source.parse = .ok file
      ↔ file.name = source.name ∧ LetLang.parse (some source.name) source.text = .ok file.session := by
  obtain ⟨name, session⟩ := file
  unfold Source.parse
  cases LetLang.parse (some source.name) source.text with
  | error fault => simp [bind, Except.bind]
  | ok other => simp [bind, Except.bind, pure, Except.pure, eq_comm]

theorem ScopeTree.new_wellFormed : new.WellFormed := by
  decide

theorem ScopeTree.root_lt_size_new : root < new.size := by
  decide

/-- A parse reports its errors and nothing else. -/
theorem diagnostics_of_parse {name text : String} {session : Session}
    (parsed : parse (some name) text = .ok session)
    : session.diagnostics = session.errors.map (Parse.Reports.diagnose (some name)) := by
  obtain ⟨errors, diagnostics⟩ := (Parse.run_of_parseIn ScopeTree.new_wellFormed
    ScopeTree.root_lt_size_new parsed).session_reports
  rw [diagnostics, errors]

theorem reportedIn_of_parse {name text : String} {session : Session}
    (parsed : parse (some name) text = .ok session)
    : Diagnostic.ReportedIn name session.diagnostics := by
  have sorted := Parse.errors_sorted_of_parseIn ScopeTree.new_wellFormed
    ScopeTree.root_lt_size_new parsed
  have diagnostics := diagnostics_of_parse parsed
  have known : ∀ diagnostic ∈ session.diagnostics,
      ∃ error, Parse.Reports.diagnose (some name) error = diagnostic := by
    intro diagnostic member
    rw [diagnostics] at member
    obtain ⟨error, _, same⟩ := List.mem_map.mp member
    exact ⟨error, same⟩
  refine ⟨?_, ?_, ?_, ?_⟩
  · intro diagnostic member
    obtain ⟨error, rfl⟩ := known diagnostic member
    rfl
  · intro diagnostic member
    obtain ⟨error, rfl⟩ := known diagnostic member
    exact ⟨error.span, rfl⟩
  · intro diagnostic member
    obtain ⟨error, rfl⟩ := known diagnostic member
    exact error.isError_diagnose (some name)
  · rw [diagnostics, List.pairwise_map]
    exact sorted

/-- Every text can be parsed. -/
theorem Source.exists_parse (source : Source) : ∃ file, source.parse = .ok file := by
  obtain ⟨session, parsed, _⟩ := Parse.exists_session ScopeTree.new_wellFormed
    ScopeTree.root_lt_size_new (some source.name) source.text
  exact ⟨⟨source.name, session⟩, Source.parse_eq_ok_iff.mpr ⟨rfl, parsed⟩⟩

-----------------------------------------------------------------------------------------
-- All texts
-----------------------------------------------------------------------------------------

/-- The parsed texts of a program are those of its sources, one by one. -/
theorem Program.parse_eq_ok_iff {program : Program} {result : ProgramResult}
    : program.parse = .ok result
      ↔ List.Forall₂ (fun source file => source.parse = .ok file) program.sources result.files := by
  obtain ⟨files⟩ := result
  rw [← Fault.mapM_eq_ok_iff, Program.parse]
  cases program.sources.mapM Source.parse <;> simp [bind, Except.bind, pure, Except.pure]

theorem Program.exists_parse (program : Program) : ∃ result, program.parse = .ok result := by
  obtain ⟨files, parsed⟩ := Fault.exists_mapM (l := program.sources) fun source _ => source.exists_parse
  exact ⟨⟨files⟩, Program.parse_eq_ok_iff.mpr (Fault.mapM_eq_ok_iff.mp parsed)⟩

section

variable {files others : List ParsedFile}

/-- The parsed texts report under their names. -/
def Reported (files : List ParsedFile) : Prop :=
  ∀ file ∈ files, Diagnostic.ReportedIn file.name file.session.diagnostics

theorem reported_of_parse {program : Program} {result : ProgramResult}
    (parsed : program.parse = .ok result)
    : Reported result.files := by
  have each := Program.parse_eq_ok_iff.mp parsed
  generalize program.sources = sources, result.files = files at each
  induction each with
  | nil => simp [Reported]
  | cons first _ ih =>
      obtain ⟨name, session⟩ := Source.parse_eq_ok_iff.mp first
      exact List.forall_mem_cons.mpr ⟨name ▸ reportedIn_of_parse session, ih⟩

/-- In which order texts with names of their own stand does not matter for what they report at
one place.
-/
theorem sharing_flatMap_eq (perm : files.Perm others) (reported : Reported files)
    (distinct : (files.map ParsedFile.name).Nodup) (key : Option String × Location)
    : Diagnostic.sharing key (files.flatMap fun file => file.session.diagnostics)
      = Diagnostic.sharing key (others.flatMap fun file => file.session.diagnostics) := by
  induction perm with
  | nil => rfl
  | @cons file files others _ ih =>
      obtain ⟨_, distinct⟩ := List.nodup_cons.mp distinct
      rw [List.flatMap_cons, List.flatMap_cons, Diagnostic.sharing_append,
        Diagnostic.sharing_append, ih (fun other member => reported other (.tail _ member)) distinct]
  | swap first second files =>
      -- One of the two texts has another name than the key, so it has nothing to share.
      have silent : ∀ file ∈ second :: first :: files, some file.name ≠ key.1
          → Diagnostic.sharing key file.session.diagnostics = [] := by
        intro file member differs
        rw [List.eq_nil_iff_forall_not_mem]
        intro diagnostic shared
        obtain ⟨among, same⟩ := Diagnostic.mem_sharing.mp shared
        rw [← same] at differs
        exact differs ((reported file member).file diagnostic among).symm
      have names : second.name ≠ first.name := by
        intro same
        simp [same] at distinct
      simp only [List.flatMap_cons, Diagnostic.sharing_append]
      by_cases here : some first.name = key.1
      · have other : some second.name ≠ key.1 := by
          rw [← here]
          simpa using names
        rw [silent second (by simp) other, List.nil_append, List.nil_append]
      · rw [silent first (by simp) here, List.nil_append, List.nil_append]
  | @trans files middle others one two ihOne ihTwo =>
      rw [ihOne reported distinct]
      apply ihTwo
      · exact fun file member => reported file (one.mem_iff.mpr member)
      · exact (one.map _).nodup_iff.mp distinct

/-- Diagnostics of texts in the order of their names are in order. -/
theorem pairwise_flatMap_of_names (reported : Reported files)
    (ordered : files.Pairwise fun left right => left.name < right.name)
    : (files.flatMap fun file => file.session.diagnostics).Pairwise
        fun left right => Diagnostic.comesBefore left right = true := by
  rw [List.pairwise_flatMap]
  refine ⟨?_, ?_⟩
  · intro file member
    have known := reported file member
    apply known.sorted.imp_of_mem
    intro left right one two
    exact (Diagnostic.comesBefore_of_file_eq
      ((known.file left one).trans (known.file right two).symm)).mpr
  · apply ordered.imp_of_mem
    intro left right one two less first among second alsoAmong
    rw [Diagnostic.comesBefore_iff, (reported left one).file first among,
      (reported right two).file second alsoAmong]
    exact .inl less

/-- Texts with names of their own can be put in the order of the names. -/
theorem exists_ordered (distinct : (files.map ParsedFile.name).Nodup)
    : ∃ ordered : List ParsedFile,
        ordered.Perm files ∧ ordered.Pairwise fun left right => left.name < right.name := by
  let ordered := files.mergeSort fun left right => decide (left.name ≤ right.name)
  have perm : ordered.Perm files := List.mergeSort_perm _ _
  have sorted : ordered.Pairwise fun left right => decide (left.name ≤ right.name) = true := by
    apply List.pairwise_mergeSort
    · intro first second third one two
      exact decide_eq_true (Std.le_trans (of_decide_eq_true one) (of_decide_eq_true two))
    · intro first second
      simpa using Std.le_total (a := first.name) (b := second.name)
  have apart : ordered.Pairwise fun left right => left.name ≠ right.name :=
    List.pairwise_map.mp ((perm.map ParsedFile.name).nodup_iff.mpr distinct)
  refine ⟨ordered, perm, (sorted.and apart).imp ?_⟩
  intro left right both
  exact Std.lt_of_le_of_ne (of_decide_eq_true both.1) both.2

theorem diagnostics_precede {result : ProgramResult} (reported : Reported result.files)
    : result.diagnostics.Pairwise Diagnostic.Precedes := by
  have placed : ∀ diagnostic ∈ result.diagnostics,
      ∃ name span, diagnostic.file = some name ∧ diagnostic.span = some span := by
    intro diagnostic member
    obtain ⟨file, among, own⟩ :=
      List.mem_flatMap.mp ((Diagnostic.sort_perm _).mem_iff.mp member)
    obtain ⟨span, same⟩ := (reported file among).span diagnostic own
    exact ⟨file.name, span, (reported file among).file diagnostic own, same⟩
  apply (Diagnostic.pairwise_sort _).imp_of_mem
  intro left right one two before
  obtain ⟨leftName, leftSpan, leftFile, leftPlace⟩ := placed left one
  obtain ⟨rightName, rightSpan, rightFile, rightPlace⟩ := placed right two
  refine ⟨leftName, leftSpan, rightName, rightSpan, ⟨leftFile, leftPlace⟩,
    ⟨rightFile, rightPlace⟩, ?_⟩
  rw [Diagnostic.comesBefore_iff, leftFile, rightFile, Diagnostic.position, Diagnostic.position,
    leftPlace, rightPlace] at before
  rcases before with less | ⟨same, order⟩
  · exact .inl (bytes_lt_of_lt less)
  · exact .inr ⟨Option.some.inj same, order⟩

end

theorem names_of_parse {program : Program} {result : ProgramResult}
    (parsed : program.parse = .ok result)
    : result.files.map ParsedFile.name = program.sources.map Source.name := by
  have each := Program.parse_eq_ok_iff.mp parsed
  generalize program.sources = sources, result.files = files at each
  induction each with
  | nil => rfl
  | cons first _ ih =>
      rw [List.map_cons, List.map_cons, ih, (Source.parse_eq_ok_iff.mp first).1]

/-- The merged diagnostics are complete, in order and stable. Where each source has a name of its
own, they are those of the sources in the order of their names, and it does not matter in which
order the sources were added.
-/
theorem parse_merges (program : Program)
    : ∃ result, program.parse = .ok result
        ∧ Merged program.sources result
        ∧ ((program.sources.map Source.name).Nodup
          → (∃ ordered : List ParsedFile,
              ordered.Perm result.files
              ∧ (ordered.Pairwise fun left right =>
                  bytes left.name.toList < bytes right.name.toList)
              ∧ result.diagnostics = ordered.flatMap fun file => file.session.diagnostics)
            ∧ ∀ other : Program, other.sources.Perm program.sources
                → ∃ same, other.parse = .ok same
                    ∧ same.diagnostics = result.diagnostics) := by
  obtain ⟨result, parsed⟩ := program.exists_parse
  have each := Program.parse_eq_ok_iff.mp parsed
  have reported := reported_of_parse parsed
  refine ⟨result, parsed, ⟨?_, ?_, diagnostics_precede reported, ?_⟩, ?_⟩
  · exact each.imp fun source file => Source.parse_eq_ok_iff.mp
  · exact Diagnostic.sort_perm _
  · exact fun key => Diagnostic.sharing_sort key _
  intro distinct
  rw [← names_of_parse parsed] at distinct
  obtain ⟨ordered, perm, sorted⟩ := exists_ordered distinct
  have inOrder := pairwise_flatMap_of_names
    (fun file member => reported file (perm.mem_iff.mp member)) sorted
  -- Whatever the order of the parsed texts, sorting gives the same list.
  have merged : ∀ files : List ParsedFile, files.Perm result.files
      → (ProgramResult.mk files).diagnostics
        = ordered.flatMap fun file => file.session.diagnostics := by
    intro files same
    apply Diagnostic.sort_eq_of_sharing_eq inOrder
    intro key
    apply sharing_flatMap_eq (same.trans perm.symm)
    · exact fun file member => reported file (same.mem_iff.mp member)
    · exact (same.map ParsedFile.name).nodup_iff.mpr distinct
  refine ⟨⟨ordered, perm, sorted.imp bytes_lt_of_lt, merged result.files (.refl _)⟩, ?_⟩
  intro other moved
  obtain ⟨files, alsoEach, same⟩ := List.perm_comp_forall₂ moved each
  exact ⟨⟨files⟩, Program.parse_eq_ok_iff.mpr alsoEach,
    (merged files same).trans (merged result.files (.refl _)).symm⟩

theorem parse_merges_two
    : let program := (Program.empty.add "b.ql" "let x = ; y;").add "a.ql" "let = 1;"
      (program.sources.map Source.name).Nodup
      ∧ ∃ result, program.parse = .ok result
        ∧ Merged program.sources result
        ∧ ((program.sources.map Source.name).Nodup
          → (∃ ordered : List ParsedFile,
              ordered.Perm result.files
              ∧ (ordered.Pairwise fun left right =>
                  bytes left.name.toList < bytes right.name.toList)
              ∧ result.diagnostics = ordered.flatMap fun file => file.session.diagnostics)
            ∧ ∀ other : Program, other.sources.Perm program.sources
                → ∃ same, other.parse = .ok same
                    ∧ same.diagnostics = result.diagnostics) :=
  ⟨by decide, parse_merges _⟩

end LetLang
