import Mathlib.Data.List.Basic
import PrivacyWallet.Lib.Utf8

/-!
# Base64 texts

Bytes as a text of six-bit digits, padded to a multiple of four, and back.
The reader is lenient: it looks at the low byte of each UTF-16 unit only,
stops at the padding, skips what is no digit, and takes the digits of the
alphabet for file names as well. What the writer wrote it reads back
(`decode_encode`), and so for texts in UTF-8 (`decodeText_encodeText`). The
strict reader takes white space and padding out, and refuses what else is no
digit; it too reads back what was written (`decode?_encode`).

Both round trips go by three bytes at a time: `sextets` and `octets` are
inverse (`octets_sextets`), each digit names its number (`value_digit`), and no
digit is the padding, a space, or a character of more than one byte.
-/

namespace PrivacyWallet

namespace Base64

def alphabet : List Char :=
  "ABCDEFGHIJKLMNOPQRSTUVWXYZabcdefghijklmnopqrstuvwxyz0123456789+/".toList

/-- The digit of a six-bit number. -/
def digit (n : Nat) : Char := alphabet.getD n '='

/-- The number of a digit. -/
def value? (c : Char) : Option Nat :=
  if c = '-' then some 62
  else if c = '_' then some 63
  else alphabet.idxOf? c

/-! ## Writing and reading -/

/-- The six-bit numbers that three bytes make; the last one is filled up with
zeros. -/
def sextets : List UInt8 → List Nat
  | a :: b :: c :: rest =>
      a.toNat / 4 :: (a.toNat % 4 * 16 + b.toNat / 16) ::
        (b.toNat % 16 * 4 + c.toNat / 64) :: c.toNat % 64 :: sextets rest
  | [a, b] => [a.toNat / 4, a.toNat % 4 * 16 + b.toNat / 16, b.toNat % 16 * 4]
  | [a] => [a.toNat / 4, a.toNat % 4 * 16]
  | [] => []

/-- The bytes of six-bit numbers. A single last one makes no byte. -/
def octets : List Nat → List UInt8
  | p :: q :: r :: s :: rest =>
      UInt8.ofNat (p * 4 + q / 16) :: UInt8.ofNat (q % 16 * 16 + r / 4) ::
        UInt8.ofNat (r % 4 * 64 + s) :: octets rest
  | [p, q, r] => [UInt8.ofNat (p * 4 + q / 16), UInt8.ofNat (q % 16 * 16 + r / 4)]
  | [p, q] => [UInt8.ofNat (p * 4 + q / 16)]
  | [_] => []
  | [] => []

def encode (bytes : List UInt8) : List Char :=
  (sextets bytes).map digit ++ List.replicate ((3 - bytes.length % 3) % 3) '='

/-- The low bytes of a character's UTF-16 units: two units, a surrogate pair,
above the first plane. -/
def lowBytes (c : Char) : List Char :=
  if c.toNat < 0x10000 then [Char.ofNat (c.toNat % 256)]
  else [Char.ofNat ((c.toNat - 0x10000) / 0x400 % 256), Char.ofNat (c.toNat % 256)]

def decode (text : List Char) : List UInt8 :=
  octets (((text.flatMap lowBytes).takeWhile fun c => decide (c ≠ '=')).filterMap value?)

/-! ## The round trip -/

theorem value_digit {n : Nat} (h : n < 64) : value? (digit n) = some n := by
  have hall : ∀ i : Fin 64, value? (digit i) = some i.val := by decide +kernel
  exact hall ⟨n, h⟩

theorem digit_ne_pad {n : Nat} (h : n < 64) : digit n ≠ '=' := by
  have hall : ∀ i : Fin 64, digit i ≠ '=' := by decide +kernel
  exact hall ⟨n, h⟩

theorem ofNat_eq {a : UInt8} {n : Nat} (h : n = a.toNat) : UInt8.ofNat n = a := by
  rw [h, UInt8.ofNat_toNat]

theorem sextets_lt : ∀ (bytes : List UInt8), ∀ n ∈ sextets bytes, n < 64
  | a :: b :: c :: rest, n, hn => by
      have ha := a.toNat_lt
      have hb := b.toNat_lt
      have hc := c.toNat_lt
      simp only [sextets, List.mem_cons] at hn
      rcases hn with rfl | rfl | rfl | rfl | hn
      · omega
      · omega
      · omega
      · omega
      · exact sextets_lt rest n hn
  | [a, b], n, hn => by
      have ha := a.toNat_lt
      have hb := b.toNat_lt
      simp only [sextets, List.mem_cons, List.not_mem_nil, or_false] at hn
      omega
  | [a], n, hn => by
      have ha := a.toNat_lt
      simp only [sextets, List.mem_cons, List.not_mem_nil, or_false] at hn
      omega
  | [], n, hn => by cases hn

theorem octets_sextets : ∀ bytes : List UInt8, octets (sextets bytes) = bytes
  | a :: b :: c :: rest => by
      have ha := a.toNat_lt
      have hb := b.toNat_lt
      have hc := c.toNat_lt
      rw [sextets, octets, octets_sextets rest, ofNat_eq (a := a) (by omega),
        ofNat_eq (a := b) (by omega), ofNat_eq (a := c) (by omega)]
  | [a, b] => by
      have ha := a.toNat_lt
      have hb := b.toNat_lt
      rw [sextets, octets, ofNat_eq (a := a) (by omega), ofNat_eq (a := b) (by omega)]
  | [a] => by
      have ha := a.toNat_lt
      rw [sextets, octets, ofNat_eq (a := a) (by omega)]
  | [] => rfl

theorem lowBytes_digit {n : Nat} (h : n < 64) : lowBytes (digit n) = [digit n] := by
  have hall : ∀ i : Fin 64, lowBytes (digit i) = [digit i] := by decide +kernel
  exact hall ⟨n, h⟩

/-- What the writer writes is one byte a character. -/
theorem flatMap_lowBytes {text : List Char} (h : ∀ c ∈ text, lowBytes c = [c]) :
    text.flatMap lowBytes = text := by
  induction text with
  | nil => rfl
  | cons c text ih =>
      rw [List.flatMap_cons, h c List.mem_cons_self, List.singleton_append,
        ih fun d hd => h d (List.mem_cons_of_mem _ hd)]

theorem lowBytes_encode (bytes : List UInt8) : (encode bytes).flatMap lowBytes = encode bytes := by
  refine flatMap_lowBytes fun c hc => ?_
  rcases List.mem_append.mp hc with hc | hc
  · obtain ⟨n, hn, rfl⟩ := List.mem_map.mp hc
    exact lowBytes_digit (sextets_lt bytes n hn)
  · rw [List.eq_of_mem_replicate hc]
    decide

/-- The digits of numbers are read back as they are, up to the padding. -/
theorem values_digits (l : List Nat) (hl : ∀ n ∈ l, n < 64) (pad : Nat) :
    ((l.map digit ++ List.replicate pad '=').takeWhile fun c => decide (c ≠ '=')).filterMap
      value? = l := by
  induction l with
  | nil =>
      cases pad with
      | zero => rfl
      | succ pad => simp [List.replicate_succ]
  | cons n l ih =>
      have hn := hl n List.mem_cons_self
      have hrest := ih fun m hm => hl m (List.mem_cons_of_mem _ hm)
      have hdigit : decide (digit n ≠ '=') = true := decide_eq_true (digit_ne_pad hn)
      rw [List.map_cons, List.cons_append, List.takeWhile_cons, hdigit,
        if_pos rfl, List.filterMap_cons_some (value_digit hn), hrest]

theorem decode_encode (bytes : List UInt8) : decode (encode bytes) = bytes := by
  unfold decode
  rw [lowBytes_encode, encode, values_digits _ (sextets_lt bytes), octets_sextets]

/-! ## Texts -/

/-- `Buffer.from(text, "utf8").toString("base64")` -/
def encodeText (text : String) : String := String.ofList (encode text.toUTF8.data.toList)

/-- `Buffer.from(text, "base64").toString("utf8")` -/
def decodeText (text : String) : String := Utf8.decode (decode text.toList)

theorem decodeText_encodeText (text : String) : decodeText (encodeText text) = text := by
  rw [decodeText, encodeText, String.toList_ofList, decode_encode]
  exact Utf8.decode_encode text

/-! ## The strict reader -/

/-- The white space of ASCII. -/
def isSpace (c : Char) : Bool := decide (c.toNat ∈ [0x9, 0xA, 0xC, 0xD, 0x20])

/-- Without the padding of a text of full length. -/
def unpad (text : List Char) : List Char :=
  if text.length % 4 = 0 then
    if text.reverse.take 2 = ['=', '='] then (text.reverse.drop 2).reverse
    else if text.reverse.take 1 = ['='] then (text.reverse.drop 1).reverse
    else text
  else text

/-- `atob(text)` -/
def decode? (text : List Char) : Option (List UInt8) :=
  let digits := unpad (text.filter fun c => !isSpace c)
  if digits.length % 4 = 1 then none else (digits.mapM alphabet.idxOf?).map octets

theorem idxOf_digit {n : Nat} (h : n < 64) : alphabet.idxOf? (digit n) = some n := by
  have hall : ∀ i : Fin 64, alphabet.idxOf? (digit i) = some i.val := by decide +kernel
  exact hall ⟨n, h⟩

theorem digit_not_space {n : Nat} (h : n < 64) : isSpace (digit n) = false := by
  have hall : ∀ i : Fin 64, isSpace (digit i) = false := by decide +kernel
  exact hall ⟨n, h⟩

theorem length_sextets : ∀ bytes : List UInt8,
    (sextets bytes).length + (3 - bytes.length % 3) % 3 = 4 * ((bytes.length + 2) / 3)
  | a :: b :: c :: rest => by
      have ih := length_sextets rest
      simp only [sextets, List.length_cons]
      omega
  | [_, _] => by simp [sextets]
  | [_] => by simp [sextets]
  | [] => rfl

theorem unpad_replicate {digits : List Char} (h : '=' ∉ digits) {pad : Nat} (hpad : pad ≤ 2)
    (hlen : (digits.length + pad) % 4 = 0) :
    unpad (digits ++ List.replicate pad '=') = digits := by
  have hlen' : (digits ++ List.replicate pad '=').length % 4 = 0 := by simpa using hlen
  have hne : ∀ c ∈ digits.reverse, c ≠ '=' := fun c hc heq =>
    h (heq ▸ List.mem_reverse.mp hc)
  rw [unpad, if_pos hlen', List.reverse_append, List.reverse_replicate]
  obtain rfl | rfl | rfl : pad = 0 ∨ pad = 1 ∨ pad = 2 := by omega
  · have htwo : digits.reverse.take 2 ≠ ['=', '='] := fun htake =>
      hne '=' (List.mem_of_mem_take (htake ▸ List.mem_cons_self)) rfl
    have hone : digits.reverse.take 1 ≠ ['='] := fun htake =>
      hne '=' (List.mem_of_mem_take (htake ▸ List.mem_cons_self)) rfl
    simp [htwo, hone]
  · have hone : digits.reverse.take 1 ≠ ['='] := fun htake =>
      hne '=' (List.mem_of_mem_take (htake ▸ List.mem_cons_self)) rfl
    simp [List.replicate, hone]
  · simp [List.replicate]

theorem mapM_idxOf_digits {l : List Nat} (hl : ∀ n ∈ l, n < 64) :
    (l.map digit).mapM alphabet.idxOf? = some l := by
  induction l with
  | nil => rfl
  | cons n l ih =>
      rw [List.map_cons, List.mapM_cons, idxOf_digit (hl n List.mem_cons_self),
        ih fun m hm => hl m (List.mem_cons_of_mem _ hm)]
      rfl

@[simp] theorem decode?_encode (bytes : List UInt8) : decode? (encode bytes) = some bytes := by
  have hlt := sextets_lt bytes
  have hlen := length_sextets bytes
  have hkeep : (encode bytes).filter (fun c => !isSpace c) = encode bytes := by
    refine List.filter_eq_self.mpr fun c hc => ?_
    rcases List.mem_append.mp hc with hc | hc
    · obtain ⟨n, hn, rfl⟩ := List.mem_map.mp hc
      rw [digit_not_space (hlt n hn)]
      rfl
    · rw [List.eq_of_mem_replicate hc]
      decide
  have hdigits : '=' ∉ (sextets bytes).map digit := by
    intro hmem
    obtain ⟨n, hn, heq⟩ := List.mem_map.mp hmem
    exact digit_ne_pad (hlt n hn) heq
  have hunpad : unpad (encode bytes) = (sextets bytes).map digit :=
    unpad_replicate hdigits (by omega) (by rw [List.length_map]; omega)
  unfold decode?
  dsimp only
  rw [hkeep, hunpad, if_neg (by rw [List.length_map]; omega), mapM_idxOf_digits hlt,
    Option.map_some, octets_sextets]

end Base64

end PrivacyWallet
