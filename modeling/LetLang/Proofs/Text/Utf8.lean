import LetLang.Text.Bytes
import Mathlib.Data.List.Lex

/-! Texts as bytes. A text is cut between characters, so every cut is a boundary of its UTF-8 form;
and texts are ordered by their code points exactly as their bytes are.
-/

namespace LetLang.Text

/-- The bytes of a text in UTF-8. -/
def bytes (text : List Char) : List UInt8 :=
  text.flatMap String.utf8EncodeChar

theorem toList_data_toUTF8 (source : String)
    : source.toUTF8.data.toList = bytes source.toList := by
  rw [String.toUTF8_eq_toByteArray, ← String.utf8Encode_toList, List.utf8Encode,
    List.toList_data_toByteArray, bytes]

theorem bytes_cons (first : Char) (rest : List Char)
    : bytes (first :: rest) = String.utf8EncodeChar first ++ bytes rest := rfl

@[simp]
theorem bytes_append (left right : List Char)
    : bytes (left ++ right) = bytes left ++ bytes right :=
  List.flatMap_append

@[simp]
theorem length_bytes (text : List Char) : (bytes text).length = byteLength text := by
  induction text with
  | nil => rfl
  | cons first rest ih =>
      rw [bytes_cons, List.length_append, String.length_utf8EncodeChar, ih, byteLength_cons]

theorem utf8ByteSize_eq_byteLength (source : String)
    : source.utf8ByteSize = byteLength source.toList := by
  rw [← length_bytes, ← toList_data_toUTF8]
  rfl

/-- Behind whole characters stands a boundary. -/
theorem isValid_of_toList_eq_append {source : String} {before after : List Char}
    (whole : source.toList = before ++ after)
    : String.Pos.Raw.IsValid source ⟨byteLength before⟩ := by
  have parts : source = String.ofList before ++ String.ofList after := by
    rw [← String.ofList_append, ← whole, String.ofList_toList]
  have stop : (⟨byteLength before⟩ : String.Pos.Raw) = (String.ofList before).rawEndPos := by
    rw [String.rawEndPos, utf8ByteSize_eq_byteLength, String.toList_ofList]
  rw [parts, stop]
  exact String.Pos.Raw.isValid_rawEndPos.append_right _

-----------------------------------------------------------------------------------------
-- Order
-----------------------------------------------------------------------------------------

/-- A smaller character has smaller bytes, whatever follows them. -/
theorem utf8EncodeChar_append_lt {left right : Char} (smaller : left < right)
    (one two : List UInt8)
    : String.utf8EncodeChar left ++ one < String.utf8EncodeChar right ++ two := by
  have less : left.val.toNat < right.val.toNat := smaller
  have bound : right.val.toNat < 0x110000 := by
    rcases right.valid with small | ⟨_, large⟩
    · exact Nat.lt_trans small (by decide)
    · exact large
  -- The bytes behind the first one are digits of the code point to the base 64.
  have digits : ∀ code : Nat,
      code / 4096 = code / 64 / 64 ∧ code / 262144 = code / 64 / 64 / 64 := by
    omega
  unfold String.utf8EncodeChar
  simp only [digits]
  (repeat' split) <;>
    simp only [List.cons_append, List.nil_append, List.cons_lt_cons_iff, UInt8.lt_iff_toNat_lt,
      ← UInt8.toNat_inj, UInt8.toNat_ofNat'] <;>
    omega

/-- The order of texts is the order of their bytes. -/
theorem bytes_lt_of_lt {left right : List Char} (smaller : left < right)
    : bytes left < bytes right := by
  induction smaller with
  | @nil first rest =>
      obtain ⟨byte, others, encoded⟩ :=
        List.exists_cons_of_ne_nil (@String.utf8EncodeChar_ne_nil first)
      rw [bytes_cons, encoded]
      exact List.nil_lt_cons _ _
  | rel less => exact utf8EncodeChar_append_lt less _ _
  | cons _ ih => exact List.append_left_lt ih

end LetLang.Text
