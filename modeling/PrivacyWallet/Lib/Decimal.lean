import Mathlib.Algebra.Order.Field.Rat
import Mathlib.Data.List.TakeWhile
import Mathlib.Tactic.FieldSimp
import Mathlib.Tactic.Ring
import PrivacyWallet.Lib.Text

/-!
# Decimal fractions as texts

A decimal is digits with or without a fraction behind a point. Padded with
zeros to a number of places, its digits are its value scaled by that power
of ten (`Decimal.scaled_eq`); zeros that were trimmed from the end come back
(`padEnd_trimZeros`). `threes` groups digits with commas, and taking the
commas out undoes it.
-/

namespace PrivacyWallet

namespace Text

/-! ## White space -/

/-- White space and line ends, as `trim()` takes them off. -/
def isSpace (c : Char) : Bool :=
  decide (c.toNat ∈ [0x9, 0xA, 0xB, 0xC, 0xD, 0x20, 0xA0, 0x1680, 0x2028, 0x2029, 0x202F, 0x205F,
    0x3000, 0xFEFF]) || (decide (0x2000 ≤ c.toNat) && decide (c.toNat ≤ 0x200A))

/-- `text.trim()`, where `space` tells white space and line ends. -/
def trim (space : Char → Bool) (text : String) : String :=
  String.ofList ((text.toList.dropWhile space).reverse.dropWhile space).reverse

theorem dropWhile_eq_self {α : Type} {p : α → Bool} {l : List α} (h : ∀ a ∈ l, p a = false) :
    l.dropWhile p = l := by
  cases l with
  | nil => rfl
  | cons a l => rw [List.dropWhile_cons_of_neg (by simp [h a List.mem_cons_self])]

theorem trim_eq_self {space : Char → Bool} {text : String}
    (h : ∀ c ∈ text.toList, space c = false) : trim space text = text := by
  rw [trim, dropWhile_eq_self h, dropWhile_eq_self (by simpa using h), List.reverse_reverse,
    String.ofList_toList]

/-! ## Zeros at the end -/

/-- `text.padEnd(width, "0")` -/
def padEnd (width : Nat) (l : List Char) : List Char :=
  l ++ List.replicate (width - l.length) '0'

/-- `text.replace(/0+$/, "")` -/
def trimZeros (l : List Char) : List Char :=
  (l.reverse.dropWhile fun c => decide (c = '0')).reverse

/-- The digits as a number. -/
def digitsValue (l : List Char) : Nat := Nat.ofDigitChars 10 l 0

theorem trimZeros_append (l : List Char) :
    trimZeros l ++ (l.reverse.takeWhile fun c => decide (c = '0')).reverse = l := by
  rw [trimZeros, ← List.reverse_append, List.takeWhile_append_dropWhile, List.reverse_reverse]

theorem padEnd_trimZeros (l : List Char) : padEnd l.length (trimZeros l) = l := by
  have hsplit := trimZeros_append l
  have hzeros : (l.reverse.takeWhile fun c => decide (c = '0')).reverse
      = List.replicate (l.length - (trimZeros l).length) '0' := by
    refine List.eq_replicate_iff.mpr ⟨?_, fun c hc => ?_⟩
    · have := congrArg List.length hsplit
      rw [List.length_append] at this
      omega
    · simpa using List.mem_takeWhile_imp (List.mem_reverse.mp hc)
  rw [padEnd, ← hzeros, hsplit]

theorem mem_of_mem_trimZeros {l : List Char} {c : Char} (h : c ∈ trimZeros l) : c ∈ l := by
  rw [← trimZeros_append l]
  exact List.mem_append_left _ h

theorem length_trimZeros_le (l : List Char) : (trimZeros l).length ≤ l.length := by
  have := congrArg List.length (trimZeros_append l)
  rw [List.length_append] at this
  omega

theorem digitsValue_padEnd (width : Nat) (l : List Char) :
    digitsValue (padEnd width l) = 10 ^ (width - l.length) * digitsValue l := by
  rw [padEnd, digitsValue, Nat.ofDigitChars_append, Nat.ofDigitChars_replicate_zero]
  rfl

@[simp] theorem digitsValue_toDigits (n : Nat) : digitsValue (Nat.toDigits 10 n) = n :=
  Nat.ofDigitChars_ten_toDigits

@[simp] theorem digitsValue_padZeros (width n : Nat) :
    digitsValue (padZeros width n).toList = n := by
  rw [padZeros_toList, digitsValue, Nat.ofDigitChars_append, Nat.ofDigitChars_replicate_zero]
  simp

theorem number_eq {text : String} (h : text.toList.all Char.isDigit = true) :
    number text = some (digitsValue text.toList) := by
  rw [number, if_pos h]
  rfl

/-- The characters of `padZeros`. -/
def paddedDigits (width n : Nat) : List Char :=
  List.replicate (width - (Nat.toDigits 10 n).length) '0' ++ Nat.toDigits 10 n

theorem padZeros_eq (width n : Nat) : (padZeros width n).toList = paddedDigits width n := by
  rw [padZeros_toList, paddedDigits, ← String.length_toList, Nat.toList_repr]

theorem digitsValue_paddedDigits (width n : Nat) : digitsValue (paddedDigits width n) = n := by
  rw [← padZeros_eq, digitsValue_padZeros]

theorem length_paddedDigits {width n : Nat} (hwidth : 0 < width) (hn : n < 10 ^ width) :
    (paddedDigits width n).length = width := by
  have hlen : (Nat.toDigits 10 n).length ≤ width :=
    (Nat.length_toDigits_le_iff (by decide) hwidth).mpr hn
  rw [paddedDigits, List.length_append, List.length_replicate]
  omega

theorem toDigits_digits (n : Nat) : (Nat.toDigits 10 n).all Char.isDigit = true :=
  List.all_eq_true.mpr fun _ hc => Nat.isDigit_of_mem_toDigits (by decide) (by decide) hc

theorem trimZeros_paddedDigits (width n : Nat) :
    (trimZeros (paddedDigits width n)).all Char.isDigit = true := by
  rw [← padZeros_eq]
  exact List.all_eq_true.mpr fun _ hc => isDigit_of_mem_padZeros (mem_of_mem_trimZeros hc)

/-! ## Decimals -/

/-- Digits, and those of a fraction. -/
structure Decimal where
  whole : List Char
  frac : List Char
  whole_ne : whole ≠ []
  whole_digits : whole.all Char.isDigit = true
  frac_digits : frac.all Char.isDigit = true

namespace Decimal

variable (d : Decimal)

def text : String :=
  if d.frac = [] then String.ofList d.whole
  else String.ofList d.whole ++ String.ofList ['.'] ++ String.ofList d.frac

def value : ℚ := digitsValue d.whole + digitsValue d.frac / 10 ^ d.frac.length

/-- The digits with the fraction filled up to `places`. -/
def scaled (places : Nat) : Nat :=
  digitsValue d.whole * 10 ^ places + digitsValue (padEnd places d.frac)

/-- Nothing is rounded. -/
theorem scaled_eq {places : Nat} (h : d.frac.length ≤ places) :
    (d.scaled places : ℚ) = d.value * 10 ^ places := by
  have hpow : (10 : ℚ) ^ places = 10 ^ (places - d.frac.length) * 10 ^ d.frac.length := by
    rw [← pow_add, Nat.sub_add_cancel h]
  rw [scaled, digitsValue_padEnd, value, hpow]
  push_cast
  rw [hpow]
  field_simp

theorem dot_notMem {l : List Char} (h : l.all Char.isDigit = true) : '.' ∉ l := by
  intro hmem
  have := List.all_eq_true.mp h _ hmem
  revert this
  decide

/-- The decimal with these whole units and this many of the last place. -/
def ofParts (places whole frac : Nat) : Decimal where
  whole := Nat.toDigits 10 whole
  frac := trimZeros (paddedDigits places frac)
  whole_ne := Nat.toDigits_ne_nil
  whole_digits := toDigits_digits whole
  frac_digits := trimZeros_paddedDigits places frac

section OfParts

variable {places whole frac : Nat} (hplaces : 0 < places) (hfrac : frac < 10 ^ places)
include hplaces hfrac

theorem ofParts_frac_le : (ofParts places whole frac).frac.length ≤ places := by
  have hle := length_trimZeros_le (paddedDigits places frac)
  rwa [length_paddedDigits hplaces hfrac] at hle

theorem ofParts_scaled :
    (ofParts places whole frac).scaled places = whole * 10 ^ places + frac := by
  have hpad := padEnd_trimZeros (paddedDigits places frac)
  rw [length_paddedDigits hplaces hfrac] at hpad
  rw [scaled, ofParts, hpad, digitsValue_paddedDigits, digitsValue_toDigits]

end OfParts

theorem ofParts_text (places whole frac : Nat) :
    (ofParts places whole frac).text
      = if String.ofList (trimZeros (padZeros places frac).toList) ≠ "" then
          whole.repr ++ "." ++ String.ofList (trimZeros (padZeros places frac).toList)
        else whole.repr := by
  have hwhole : String.ofList (Nat.toDigits 10 whole) = whole.repr := by
    rw [← Nat.toList_repr, String.ofList_toList]
  rw [text, ofParts, hwhole, padZeros_eq]
  by_cases hnil : trimZeros (paddedDigits places frac) = []
  · rw [if_pos hnil, if_neg]
    simp [hnil]
  · have hne : String.ofList (trimZeros (paddedDigits places frac)) ≠ "" := by
      simpa [String.ofList_eq_empty_iff] using hnil
    rw [if_neg hnil, if_pos hne]

end Decimal

/-! ## Commas between threes -/

/-- `\w` of a regular expression -/
def isWord (c : Char) : Bool := c.isAlphanum || decide (c = '_')

/-- `\B` between two characters; `none` is an end of the text. -/
def notBoundary (before after : Option Char) : Bool := before.any isWord == after.any isWord

/-- `(?=(\d{3})+(?!\d))`: digits lie ahead, in threes. -/
def threesAhead (rest : List Char) : Bool :=
  let digits := (rest.takeWhile Char.isDigit).length
  decide (0 < digits) && decide (digits % 3 = 0)

/-- `text.replace(/\B(?=(\d{3})+(?!\d))/g, ",")`, behind the character
`before`. -/
def threes (before : Option Char) : List Char → List Char
  | [] => []
  | c :: rest =>
      if notBoundary before (some c) && threesAhead (c :: rest) then
        ',' :: c :: threes (some c) rest
      else c :: threes (some c) rest

/-- `text.replaceAll(",", "")` -/
def removeCommas (l : List Char) : List Char := l.filter fun c => decide (c ≠ ',')

theorem removeCommas_threes {l : List Char} (h : ',' ∉ l) (before : Option Char) :
    removeCommas (threes before l) = l := by
  induction l generalizing before with
  | nil => rfl
  | cons c l ih =>
      have hc : c ≠ ',' := fun heq => h (heq ▸ List.mem_cons_self)
      have hrest := ih (fun hmem => h (List.mem_cons_of_mem _ hmem)) (some c)
      have hcons : removeCommas (c :: threes (some c) l)
          = c :: removeCommas (threes (some c) l) := by
        simp [removeCommas, hc]
      rw [hrest] at hcons
      rw [threes]
      split
      · rw [← hcons]
        simp [removeCommas]
      · exact hcons

end Text

end PrivacyWallet
