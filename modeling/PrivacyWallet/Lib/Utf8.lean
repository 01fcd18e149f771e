import Mathlib.Data.List.Basic

/-!
# Texts as UTF-8

The bytes of a text, and the text of any bytes. Where these are no UTF-8 the
reader puts a replacement character for the longest beginning of a character,
and goes on behind it. What was written it reads back (`decode_encode`).
-/

namespace PrivacyWallet

namespace Utf8

/-- `new TextEncoder().encode(text)` -/
def encode (text : String) : List UInt8 := text.toUTF8.data.toList

/-! ## Reading -/

def between (low high b : UInt8) : Bool := decide (low ≤ b) && decide (b ≤ high)

/-- `b` may follow the first byte `a` of a character of three or four. -/
def isSecond (a b : UInt8) : Bool :=
  if a = 0xE0 then between 0xA0 0xBF b
  else if a = 0xED then between 0x80 0x9F b
  else if a = 0xF0 then between 0x90 0xBF b
  else if a = 0xF4 then between 0x80 0x8F b
  else between 0x80 0xBF b

/-- How many bytes one replacement character stands for, where no character
begins. -/
def malformed : List UInt8 → Nat
  | a :: b :: rest =>
      if between 0xE0 0xF4 a && isSecond a b then
        if between 0xF0 0xF4 a && rest.head?.any (between 0x80 0xBF) then 3 else 2
      else 1
  | _ => 1

/-- The character at the front, and how many bytes it takes. -/
def front (bytes : List UInt8) : Char × Nat :=
  match bytes.toByteArray.utf8DecodeChar? 0 with
  | some c => (c, c.utf8Size)
  | none => ('\uFFFD', malformed bytes)

/-- The characters, after the next `skip` bytes. -/
def decodeFrom (skip : Nat) : List UInt8 → List Char
  | [] => []
  | b :: rest =>
      match skip with
      | skip + 1 => decodeFrom skip rest
      | 0 => (front (b :: rest)).1 :: decodeFrom ((front (b :: rest)).2 - 1) rest

/-- The text of the bytes, where a byte order mark is a character like any
other. -/
def decode (bytes : List UInt8) : String := String.ofList (decodeFrom 0 bytes)

/-- `new TextDecoder().decode(bytes)`: without the byte order mark. -/
def text (bytes : List UInt8) : String :=
  decode (if bytes.take 3 = [0xEF, 0xBB, 0xBF] then bytes.drop 3 else bytes)

/-! ## The round trip -/

theorem encode_eq (text : String) : encode text = text.toList.flatMap String.utf8EncodeChar := by
  have h : text.toUTF8 = text.toList.utf8Encode := String.utf8Encode_toList.symm
  rw [encode, h, List.utf8Encode]
  simp

theorem decodeFrom_append (l rest : List UInt8) :
    decodeFrom l.length (l ++ rest) = decodeFrom 0 rest := by
  induction l with
  | nil => rfl
  | cons b l ih => exact ih

theorem front_utf8EncodeChar (c : Char) (rest : List UInt8) :
    front (String.utf8EncodeChar c ++ rest) = (c, c.utf8Size) := by
  unfold front
  rw [List.toByteArray_append, ByteArray.utf8DecodeChar?_utf8EncodeChar_append]

theorem decodeFrom_utf8EncodeChar (c : Char) (rest : List UInt8) :
    decodeFrom 0 (String.utf8EncodeChar c ++ rest) = c :: decodeFrom 0 rest := by
  have hfront := front_utf8EncodeChar c rest
  have hlen := String.length_utf8EncodeChar c
  obtain ⟨b, l, hl⟩ := List.exists_cons_of_ne_nil (@String.utf8EncodeChar_ne_nil c)
  rw [hl] at hfront hlen ⊢
  rw [List.cons_append] at hfront ⊢
  rw [decodeFrom, hfront, ← hlen, List.length_cons, Nat.add_sub_cancel, decodeFrom_append]

theorem decodeFrom_flatMap (l : List Char) :
    decodeFrom 0 (l.flatMap String.utf8EncodeChar) = l := by
  induction l with
  | nil => rfl
  | cons c l ih => rw [List.flatMap_cons, decodeFrom_utf8EncodeChar, ih]

@[simp] theorem decode_encode (text : String) : decode (encode text) = text := by
  rw [decode, encode_eq, decodeFrom_flatMap, String.ofList_toList]

/-- A text that begins with a character of ASCII has no byte order mark. -/
theorem text_encode {t : String} {c : Char} {rest : List Char} (hc : c.toNat < 0x80)
    (ht : t.toList = c :: rest) : text (encode t) = t := by
  have hbyte : String.utf8EncodeChar c = [UInt8.ofNat c.toNat] := by
    have hle : ¬ 127 < c.toNat := by omega
    simp [String.utf8EncodeChar, hle]
  have hmark : (encode t).take 3 ≠ [0xEF, 0xBB, 0xBF] := by
    rw [encode_eq, ht, List.flatMap_cons, hbyte]
    intro htake
    have hhead : UInt8.ofNat c.toNat = 0xEF := by
      have := congrArg List.head? htake
      simpa using this
    have hnat := congrArg UInt8.toNat hhead
    rw [UInt8.toNat_ofNat', Nat.mod_eq_of_lt (by omega)] at hnat
    have hconst : (0xEF : UInt8).toNat = 239 := rfl
    omega
  rw [text, if_neg hmark, decode_encode]

end Utf8

end PrivacyWallet
