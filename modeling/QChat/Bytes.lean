import QChat.Value

/-!
# Bytes and texts

The conversions of the language between integers, texts and byte strings:
big-endian integers, UTF-8 and ISO-8859-1. Each pair is an inverse pair where it
is defined; what a conversion refuses is an exception, as in the source.
-/

namespace QChat

namespace Bytes

/-- The low `width` bytes of a number, most significant first. -/
def bigEndian : Nat → Nat → Bytes
  | 0, _ => []
  | width + 1, value => bigEndian width (value / 256) ++ [UInt8.ofNat (value % 256)]

/-- `int.to_bytes(width, 'big')`. -/
def ofInt (width : Nat) (value : Int) : Except Exn Bytes :=
  if 0 ≤ value ∧ value.toNat < 256 ^ width then .ok (bigEndian width value.toNat)
  else .error .OverflowError

/-- `int.from_bytes(bytes, 'big')`. -/
def toNat (bytes : Bytes) : Nat := bytes.foldl (fun value byte => 256 * value + byte.toNat) 0

/-- `bytes(text, 'utf-8')`. -/
def utf8 (text : String) : Bytes := text.toByteArray.data.toList

/-- `str(bytes, 'utf-8')`. -/
def utf8Text (bytes : Bytes) : Except Exn String :=
  match String.fromUTF8? ⟨bytes.toArray⟩ with
  | some text => .ok text
  | none => .error .UnicodeError

/-- `text.encode("ISO-8859-1")`. -/
def latin1 (text : String) : Except Exn Bytes :=
  if text.toList.all (fun char => char.toNat < 256) then
    .ok (text.toList.map (fun char => UInt8.ofNat char.toNat))
  else .error .UnicodeError

/-- `bytes.decode("ISO-8859-1")`. -/
def latin1Text (bytes : Bytes) : String :=
  String.ofList (bytes.map (fun byte => Char.ofNat byte.toNat))

@[simp] theorem bigEndian_length (width value : Nat) : (bigEndian width value).length = width := by
  induction width generalizing value with
  | zero => rfl
  | succ width inductionHypothesis => simp [bigEndian, inductionHypothesis]

/-- A number is read back modulo what its width holds. -/
theorem toNat_bigEndian (width value : Nat) :
    toNat (bigEndian width value) = value % 256 ^ width := by
  induction width generalizing value with
  | zero => simp [bigEndian, toNat, Nat.mod_one]
  | succ width inductionHypothesis =>
    have high := inductionHypothesis (value / 256)
    simp only [toNat] at high
    simp only [bigEndian, toNat, List.foldl_append, high, List.foldl_cons, List.foldl_nil,
      UInt8.toNat_ofNat', Nat.pow_succ, Nat.mul_comm (256 ^ width) 256, Nat.mod_mul]
    omega

/-- A number below 65536 has two bytes. -/
theorem ofInt_two (value : Nat) (small : value < 65536) :
    ofInt 2 value = .ok [UInt8.ofNat (value / 256), UInt8.ofNat (value % 256)] := by
  have high : value / 256 % 256 = value / 256 := by omega
  rw [ofInt, if_pos (by omega)]
  simp only [bigEndian, Int.toNat_natCast, high, List.nil_append, List.cons_append]

/-- Decoding undoes UTF-8 encoding. -/
@[simp] theorem utf8Text_utf8 (text : String) : utf8Text (utf8 text) = .ok text := by
  have same : (⟨(utf8 text).toArray⟩ : ByteArray) = text.toByteArray := by simp [utf8]
  simp only [utf8Text, same, String.fromUTF8?, text.isValidUTF8, ↓reduceDIte]
  rfl

/-- Decoded bytes are the encoding of their text. -/
theorem utf8_utf8Text {bytes : Bytes} {text : String}
    (decoded : utf8Text bytes = .ok text) : utf8 text = bytes := by
  simp only [utf8Text, String.fromUTF8?] at decoded
  split at decoded
  · next other found =>
    cases decoded
    split at found
    · cases found
      simp [utf8, String.fromUTF8]
    · cases found
  · cases decoded

/-- Every character takes a byte or more. -/
theorem length_le_utf8 (text : String) : text.length ≤ (utf8 text).length := by
  have encoded : utf8 text = text.toList.flatMap String.utf8EncodeChar := by
    rw [utf8, ← String.utf8Encode_toList]
    simp [List.utf8Encode]
  have each (chars : List Char) : chars.length ≤ (chars.flatMap String.utf8EncodeChar).length := by
    induction chars with
    | nil => exact Nat.le_refl 0
    | cons char rest inductionHypothesis =>
      have one := List.length_pos_iff.mpr (String.utf8EncodeChar_ne_nil (c := char))
      simp only [List.length_cons, List.flatMap_cons, List.length_append]
      omega
  rw [encoded, ← String.length_toList]
  exact each text.toList

/-- A byte is the code of its character. -/
theorem latin1_char (byte : UInt8) : (Char.ofNat byte.toNat).toNat = byte.toNat := by
  have small := byte.toNat_lt
  have valid : byte.toNat.isValidChar := Or.inl (by omega)
  rw [Char.ofNat, dif_pos valid]
  rfl

/-- Encoding undoes ISO-8859-1 decoding. -/
@[simp] theorem latin1_latin1Text (bytes : Bytes) : latin1 (latin1Text bytes) = .ok bytes := by
  have codes : (latin1Text bytes).toList = bytes.map (fun byte => Char.ofNat byte.toNat) := by
    simp [latin1Text]
  have small : (latin1Text bytes).toList.all (fun char => char.toNat < 256) = true := by
    rw [codes, List.all_map, List.all_eq_true]
    intro byte _
    simp only [Function.comp_apply, latin1_char, decide_eq_true_eq]
    exact byte.toNat_lt
  have back : (latin1Text bytes).toList.map (fun char => UInt8.ofNat char.toNat) = bytes := by
    rw [codes, List.map_map]
    conv_rhs => rw [← List.map_id bytes]
    apply List.map_congr_left
    intro byte _
    simp only [Function.comp_apply, latin1_char, UInt8.ofNat_toNat, id_eq]
  rw [latin1, if_pos small, back]

end Bytes

/-- `value.encode("ISO-8859-1")`: only a text has this method. -/
def Value.encode : Value → Except Exn Bytes
  | .str text => Bytes.latin1 text
  | _ => .error .AttributeError

end QChat
