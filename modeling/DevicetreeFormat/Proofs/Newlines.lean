import DevicetreeFormat.Proofs.Files
import DevicetreeFormat.Proofs.Palette

/-!
# Texts that are read back as they were written

Reading a file turns its carriage returns into line feeds. So no source has a
carriage return, and neither has its formatted text: what the printer does not
write itself comes from the texts of the nodes, which are slices of the source.
Such a text, once written, is read back unchanged.
-/

namespace DevicetreeFormat.Text

set_option autoImplicit false

/-- A text without carriage returns. -/
def Clean (text : String) : Prop :=
  Within (· ≠ '\r') text

theorem return_not_mem_line_feeds (characters : List Char) : '\r' ∉ lineFeeds characters := by
  fun_induction lineFeeds characters with
  | case1 => simp
  | case2 rest induction => simpa using induction
  | case3 c rest _ induction =>
      by_cases isReturn : c = '\r'
      · simpa [isReturn] using induction
      · simpa [isReturn, Ne.symm isReturn] using induction

theorem line_feeds_eq_self {characters : List Char} (clean : '\r' ∉ characters) :
    lineFeeds characters = characters := by
  fun_induction lineFeeds characters with
  | case1 => rfl
  | case2 rest induction => simp at clean
  | case3 c rest _ induction =>
      rw [List.mem_cons, not_or] at clean
      rw [if_neg (Ne.symm clean.1), induction clean.2]

theorem normalize_newlines_clean (text : String) : Clean (normalizeNewlines text) := by
  rw [Clean, within_ne_iff, normalizeNewlines, String.toList_ofList]
  exact return_not_mem_line_feeds text.toList

theorem normalize_newlines_eq_self {text : String} (clean : Clean text) :
    normalizeNewlines text = text := by
  rw [normalizeNewlines, line_feeds_eq_self (within_ne_iff.mp clean), String.ofList_toList]

/-! ### The bytes of a text -/

theorem fromUTF8?_toUTF8 (text : String) : String.fromUTF8? text.toUTF8 = some text := by
  simp only [String.fromUTF8?, String.toUTF8_eq_toByteArray, dif_pos text.isValidUTF8]
  rfl

theorem toUTF8_of_fromUTF8? {bytes : ByteArray} {text : String}
    (decoded : String.fromUTF8? bytes = some text) : text.toUTF8 = bytes := by
  unfold String.fromUTF8? at decoded
  split at decoded
  · cases decoded
    rfl
  · cases decoded

theorem bytes_toUTF8 (text : String) :
    text.toUTF8.data.toList = text.toList.flatMap String.utf8EncodeChar := by
  rw [String.toUTF8_eq_toByteArray, ← String.utf8Encode_toList, List.utf8Encode,
    List.data_toByteArray]

theorem mod_of_byte {byte : UInt8} {code : Nat} (same : byte = UInt8.ofNat code) :
    code % 256 = byte.toNat := by
  rw [same, UInt8.toNat_ofNat']

/-- A byte below 128 stands for one character: in an encoding of more than one byte,
every byte is at least 128. -/
theorem ascii_byte_mem_utf8EncodeChar (c : Char) {byte : UInt8} (ascii : byte.toNat < 128) :
    byte ∈ String.utf8EncodeChar c ↔ c.toNat = byte.toNat := by
  constructor
  · intro member
    unfold String.utf8EncodeChar at member
    simp only at member
    split at member
    · next short =>
        have value := mod_of_byte (List.mem_singleton.mp member)
        change c.val.toNat = byte.toNat
        omega
    · -- What is left are the bytes of the longer encodings.
      exfalso
      split at member
      · simp only [List.mem_cons, List.not_mem_nil, or_false] at member
        rcases member with same | same <;> have value := mod_of_byte same <;> omega
      · split at member
        · simp only [List.mem_cons, List.not_mem_nil, or_false] at member
          rcases member with same | same | same <;> have value := mod_of_byte same <;> omega
        · simp only [List.mem_cons, List.not_mem_nil, or_false] at member
          rcases member with same | same | same | same <;> have value := mod_of_byte same <;> omega
  · intro same
    have code : c.val.toNat = byte.toNat := same
    have short : byte.toNat ≤ 127 := by omega
    simp [String.utf8EncodeChar, code, short]

theorem return_byte_mem_iff (text : String) :
    13 ∈ text.toUTF8.data.toList ↔ '\r' ∈ text.toList := by
  have byte (c : Char) : 13 ∈ String.utf8EncodeChar c ↔ c = '\r' :=
    (ascii_byte_mem_utf8EncodeChar c (by decide)).trans (Char.toNat_inj (d := '\r'))
  simp only [bytes_toUTF8, List.mem_flatMap, byte, exists_eq_right]

end DevicetreeFormat.Text

namespace DevicetreeFormat.RawTree

set_option autoImplicit false

open Text

theorem slice_clean {source text : String} {start stop : Nat} (clean : Clean source)
    (decoded : String.fromUTF8? (slice source.toUTF8 start stop) = some text) : Clean text := by
  rw [Clean, within_ne_iff, ← return_byte_mem_iff] at clean ⊢
  intro member
  rw [toUTF8_of_fromUTF8? decoded, slice, ByteArray.data_extract, Array.toList_extract] at member
  exact clean (List.mem_of_mem_drop (List.mem_of_mem_take member))

mutual

theorem attach_clean {source : String} (clean : Clean source) :
    (raw : RawTree) → {tree : Tree} → raw.attach source.toUTF8 = some tree →
      tree.Everywhere fun tree => Clean tree.text
  | .branch name marks start stop children, tree, attached => by
      simp only [attach, Option.bind_eq_bind, Option.bind_eq_some_iff] at attached
      obtain ⟨below, inner, text, decoded, same⟩ := attached
      cases same
      exact ⟨slice_clean clean decoded, attach_all_clean clean children inner⟩

theorem attach_all_clean {source : String} (clean : Clean source) :
    (raws : List RawTree) → {trees : List Tree} → attachAll source.toUTF8 raws = some trees →
      Tree.EverywhereIn (fun tree => Clean tree.text) trees
  | [], trees, attached => by
      cases attached
      trivial
  | raw :: rest, trees, attached => by
      rw [attachAll] at attached
      split at attached
      · exact attach_all_clean clean rest attached
      · simp only [Option.bind_eq_bind, Option.bind_eq_some_iff] at attached
        obtain ⟨first, here, others, later, same⟩ := attached
        cases same
        exact ⟨attach_clean clean raw here, attach_all_clean clean rest later⟩

end

theorem to_tree_clean {source : String} (clean : Clean source) {raw : RawTree} {tree : Tree}
    (attached : raw.toTree source = .ok tree) : tree.Everywhere fun tree => Clean tree.text := by
  unfold toTree at attached
  split at attached
  · cases attached
  · split at attached
    · next found shape =>
        cases attached
        exact attach_clean clean raw shape
    · cases attached

end DevicetreeFormat.RawTree

namespace DevicetreeFormat

set_option autoImplicit false

open Text

/-- Formatting brings no carriage return into a text, whatever the grammar says. -/
theorem format_source_clean {settings : Settings} {source text : String} {raw : RawTree}
    (clean : Clean source) (formatted : (formatSource settings source raw).outcome = .ok text) :
    Clean text := by
  have own : ∀ c ∈ Printer.ownCharacters, c ≠ '\r' := by simp [Printer.ownCharacters]
  unfold formatSource at formatted
  split at formatted
  · cases formatted
  · next root attached =>
      have texts := RawTree.to_tree_clean clean attached
      have renamed : (Printer.formatTree settings root).outcome.mapError FormatFault.printing =
          .ok text := formatted
      cases printed : (Printer.formatTree settings root).outcome with
      | error fault =>
          rw [printed] at renamed
          cases renamed
      | ok shown =>
          rw [printed] at renamed
          cases renamed
          exact Printer.format_tree_within own settings texts printed

namespace FileSystem

theorem read_text_clean {files : FileSystem} {path : Path} {text : String}
    (reads : files.readText path = .ok text) : Clean text := by
  obtain ⟨_, decoded, _, _, rfl⟩ := read_of_read_text reads
  exact normalize_newlines_clean decoded

theorem read_text_of_clean {files : FileSystem} {path : Path} {text : String} (clean : Clean text)
    (reads : files.read path = .ok text.toUTF8) : files.readText path = .ok text := by
  unfold readText
  simp only [reads, fromUTF8?_toUTF8, normalize_newlines_eq_self clean]

end FileSystem

end DevicetreeFormat
