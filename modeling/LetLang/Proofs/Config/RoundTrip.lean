import LetLang.Config
import LetLang.Proofs.Json.RoundTrip

/-! A configuration is read back from its text. Every field is written, so one that is unset is
`null` in the text and is told from one that is set to something empty.
-/

namespace LetLang.Config

-----------------------------------------------------------------------------------------
-- Parts of a configuration
-----------------------------------------------------------------------------------------

/-- Items that are each made of another one are read together. -/
theorem mapM_map_eq_some {α β γ : Type} {decode? : β → Option γ} {encode : α → β} {part : α → γ}
    {items : List α} (each : ∀ item ∈ items, decode? (encode item) = some (part item))
    : (items.map encode).mapM decode? = some (items.map part) := by
  induction items with
  | nil => rfl
  | cons item items ih =>
      obtain ⟨first, later⟩ := List.forall_mem_cons.mp each
      simp [first, ih later]

/-- A key that does not occur twice has one member. -/
theorem filter_key_eq_singleton {members : List (String × Json)}
    (nodup : (members.map Prod.fst).Nodup) {member : String × Json} (known : member ∈ members)
    : members.filter (fun other => other.1 == member.1) = [member] := by
  induction members with
  | nil => simp at known
  | cons first members ih =>
      obtain ⟨fresh, nodup⟩ := List.nodup_cons.mp nodup
      rcases List.mem_cons.mp known with rfl | later
      · have others : ∀ other ∈ members, other.1 ≠ member.1 :=
          fun other mem same => fresh (List.mem_map.mpr ⟨other, mem, same⟩)
        rw [List.filter_cons_of_pos (by simp), List.filter_eq_nil_iff.mpr (by simpa using others)]
      · have differs : first.1 ≠ member.1 :=
          fun same => fresh (List.mem_map.mpr ⟨member, later, same.symm⟩)
        rw [List.filter_cons_of_neg (by simpa using differs), ih nodup later]

/-- The fields of a record are found under their names. -/
theorem fields?_record {members : List (String × Json)} (nodup : (members.map Prod.fst).Nodup)
    : fields? (members.map Prod.fst) (.record members) = some (members.map Prod.snd) := by
  unfold Json.record
  rw [fields?, if_pos (by simp)]
  refine mapM_map_eq_some fun member known => ?_
  have only := filter_key_eq_singleton nodup known
  rw [List.filter_map]
  simp only [Function.comp_def, Option.some_beq_some, only, List.map_cons, List.map_nil]

/-- A value that is never `null` can be left out. -/
theorem optional?_optional {α : Type} {decode? : Json → Option α} {encode : α → Json}
    (decodes : ∀ value, decode? (encode value) = some value)
    (present : ∀ value, encode value ≠ .null) (value : Option α)
    : optional? decode? (Json.optional encode value) = some value := by
  cases value with
  | none => rfl
  | some value =>
      rw [Json.optional, optional?, decodes, Option.map_some]
      exact present value

theorem bool?_bool (value : Bool) : bool? (.bool value) = some value := rfl

theorem natural?_natural (value : UInt64) : natural? (.natural value.toNat) = some value := by
  have allDigits : (Nat.toDigits 10 value.toNat).all Char.isDigit = true :=
    List.all_eq_true.mpr fun c => Nat.isDigit_of_mem_toDigits (by decide) (by decide)
  rw [Json.natural, natural?, Json.toList_numeral, Nat.ofDigitChars_ten_toDigits,
    if_pos ⟨allDigits, value.toNat_lt_size⟩, UInt64.ofNat_toNat]

theorem emitMode?_text (mode : EmitMode) : emitMode? (.text mode.name) = some mode := by
  cases mode <;> decide

theorem texts?_texts (texts : List String) : texts? (.array (texts.map .text)) = some texts := by
  rw [texts?, @mapM_map_eq_some _ _ _ text? Json.text id _ fun _ _ => rfl, List.map_id]

theorem options?_ofOptions (options : Options) : options? (ofOptions options) = some options := by
  have fields : fields? ["pretty", "maxErrors", "emitAst"] (ofOptions options) = some _ :=
    fields?_record (by simp)
  rw [options?, fields]
  simp only [List.map_cons, List.map_nil]
  rw [optional?_optional bool?_bool (fun _ => nofun),
    optional?_optional natural?_natural (fun _ => nofun),
    optional?_optional emitMode?_text (fun _ => nofun)]
  rfl

theorem ofJson?_toJson (config : Config) : ofJson? config.toJson = some config := by
  have fields : fields? ["compilerOptions", "files"] config.toJson = some _ :=
    fields?_record (by simp)
  rw [ofJson?, fields]
  simp only [List.map_cons, List.map_nil]
  rw [optional?_optional options?_ofOptions (fun _ => nofun),
    optional?_optional texts?_texts (fun _ => nofun)]
  rfl

-----------------------------------------------------------------------------------------
-- Configurations
-----------------------------------------------------------------------------------------

theorem hasLiterals_toJson (config : Config) : Json.HasLiterals config.toJson := by
  have options (options : Options) : Json.HasLiterals (ofOptions options) := by
    refine .record fun member known => ?_
    simp only [List.mem_cons, List.not_mem_nil, or_false] at known
    rcases known with rfl | rfl | rfl
    · exact .optional .bool _
    · exact .optional (fun _ => .natural _) _
    · exact .optional (fun _ => .text _) _
  have files (files : List String) : Json.HasLiterals (.array (files.map .text)) := by
    refine .array fun item known => ?_
    obtain ⟨text, _, rfl⟩ := List.mem_map.mp known
    exact .text text
  refine .record fun member known => ?_
  simp only [List.mem_cons, List.not_mem_nil, or_false] at known
  rcases known with rfl | rfl
  · exact .optional options _
  · exact .optional files _

/-- A configuration is read back from its text, in every layout that adds nothing but blanks, so
no two configurations share a text.
-/
theorem parse?_write {style : Json.Style} (adds : style.AddsBlanks) (config : Config)
    : parse? (config.toJson.write style) = some config
      ∧ ∀ other : Config,
          other.toJson.write style = config.toJson.write style → other = config := by
  have reads (config : Config) : parse? (config.toJson.write style) = some config := by
    rw [parse?, Json.read?_write adds (hasLiterals_toJson config), Option.bind_some, ofJson?_toJson]
  refine ⟨reads config, fun other same => ?_⟩
  have found := reads other
  rw [same, reads config] at found
  exact (Option.some.inj found).symm

/-- The greatest limit, and files named with quotes, control characters and signs outside ASCII. -/
theorem parse?_write_escaped
    : let config : Config :=
        ⟨some ⟨none, some 18446744073709551615, some .source⟩, some ["\"a\\\n", "\x01é", ""]⟩
      Json.Style.compact.AddsBlanks
      ∧ config.toJson.write .compact
        = "\x7b\"compilerOptions\":\x7b\"pretty\":null,\"maxErrors\":18446744073709551615,"
          ++ "\"emitAst\":\"source\"\x7d,\"files\":[\"\\\"a\\\\\\n\",\"\\u0001é\",\"\"]\x7d"
      ∧ parse? (config.toJson.write .compact) = some config
      ∧ ∀ other : Config,
          other.toJson.write .compact = config.toJson.write .compact → other = config := by
  intro config
  exact ⟨Json.Style.compact_addsBlanks, by decide +kernel,
    parse?_write Json.Style.compact_addsBlanks config⟩

end LetLang.Config
