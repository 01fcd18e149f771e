import Mathlib.Data.Int.Log
import Mathlib.Data.Rat.Floor
import PrivacyWallet.Lib.Decimal

/-!
# Numerals and the numbers of 64 bits

What a text denotes as a numeral, exactly, and the double that is read for
it: the nearest one, of two the one with the even last place. Naturals below
2⁵³ are read as they are (`double_natCast`), and what is at least a power of
two stays so (`le_double`).
-/

namespace PrivacyWallet

namespace Numeral

open Text

/-! ## Doubles -/

/-- A double. Its two zeros are one. -/
inductive Double where
  | finite (q : ℚ)
  | infinite (negative : Bool)
  | nan
deriving DecidableEq

/-- The nearest integer, the even one of two. -/
def nearest (q : ℚ) : ℤ :=
  if q - ⌊q⌋ < 1 / 2 then ⌊q⌋
  else if 1 / 2 < q - ⌊q⌋ then ⌊q⌋ + 1
  else if ⌊q⌋ % 2 = 0 then ⌊q⌋
  else ⌊q⌋ + 1

/-- The exponent of the last place of the doubles around `q`. -/
def place (q : ℚ) : ℤ := max (Int.log 2 |q| - 52) (-1074)

def double (q : ℚ) : Double :=
  let d : ℚ := nearest (q / 2 ^ place q) * 2 ^ place q
  if 2 ^ 1024 ≤ |d| then .infinite (decide (q < 0)) else .finite d

/-! ## What rounding keeps -/

@[simp] theorem nearest_intCast (n : ℤ) : nearest n = n := by
  simp [nearest]

/-- Rounding does not cross an integer. -/
theorem le_nearest {n : ℤ} {q : ℚ} (h : (n : ℚ) ≤ q) : n ≤ nearest q := by
  have hfloor : n ≤ ⌊q⌋ := Int.le_floor.mpr h
  unfold nearest
  split_ifs
  · exact hfloor
  · exact Int.le_add_one hfloor
  · exact hfloor
  · exact Int.le_add_one hfloor

theorem double_natCast {n : ℕ} (h : n < 2 ^ 53) : double n = .finite n := by
  have hlog : Int.log 2 |(n : ℚ)| ≤ 52 := by
    rw [Nat.abs_cast, Int.log_natCast]
    rcases Nat.eq_zero_or_pos n with rfl | hn
    · simp
    · exact_mod_cast Nat.le_of_lt_succ ((Nat.log_lt_iff_lt_pow (by decide) hn.ne').mpr h)
  have hplace : place n ≤ 0 := max_le (by omega) (by decide)
  obtain ⟨e, he⟩ := Int.exists_eq_neg_ofNat hplace
  have hscaled : (n : ℚ) / 2 ^ place n = ((n * 2 ^ e : ℤ) : ℚ) := by
    rw [he]
    push_cast
    rw [zpow_neg, zpow_natCast, div_inv_eq_mul]
  have hback : ((n * 2 ^ e : ℤ) : ℚ) * 2 ^ place n = n := by
    rw [← hscaled]
    exact div_mul_cancel₀ _ (zpow_ne_zero _ (by norm_num))
  have hsmall : ¬ (2 : ℚ) ^ 1024 ≤ |(n : ℚ)| := by
    rw [Nat.abs_cast, not_le]
    exact_mod_cast h.trans (Nat.pow_lt_pow_right (by decide) (by decide))
  unfold double
  dsimp only
  rw [hscaled, nearest_intCast, hback, if_neg hsmall]

/-- What is at least a power of two is read as no less. -/
theorem le_double {k : ℕ} {q d : ℚ} (h : 2 ^ k ≤ q) (hd : double q = .finite d) : 2 ^ k ≤ d := by
  have hpos : 0 < q := lt_of_lt_of_le (by positivity) h
  have hk : (k : ℤ) ≤ Int.log 2 |q| := by
    rw [abs_of_pos hpos, ← Int.zpow_le_iff_le_log (by decide) hpos]
    exact_mod_cast h
  have hplace : place q = Int.log 2 |q| - 52 := max_eq_left (by omega)
  have hunit : (0 : ℚ) < 2 ^ place q := zpow_pos (by norm_num) _
  have hsplit : (2 : ℚ) ^ Int.log 2 |q| = ((2 ^ 52 : ℤ) : ℚ) * 2 ^ place q := by
    rw [hplace, zpow_sub₀ (by norm_num)]
    norm_num
    ring
  have hlow : ((2 ^ 52 : ℤ) : ℚ) ≤ q / 2 ^ place q := by
    rw [le_div_iff₀ hunit, ← hsplit]
    nth_rewrite 2 [← abs_of_pos hpos]
    exact_mod_cast Int.zpow_log_le_self (by decide) (abs_pos.mpr hpos.ne')
  have hnearest : ((2 ^ 52 : ℤ) : ℚ) ≤ nearest (q / 2 ^ place q) :=
    Int.cast_le.mpr (le_nearest hlow)
  unfold double at hd
  dsimp only at hd
  split at hd
  · cases hd
  · cases hd
    calc (2 : ℚ) ^ k ≤ 2 ^ Int.log 2 |q| := by
          rw [← zpow_natCast]
          exact zpow_le_zpow_right₀ (by norm_num) hk
      _ = ((2 ^ 52 : ℤ) : ℚ) * 2 ^ place q := hsplit
      _ ≤ _ := mul_le_mul_of_nonneg_right hnearest hunit.le

/-! ## Numerals -/

/-- What a numeral denotes. -/
inductive Literal where
  | number (q : ℚ)
  | infinite (negative : Bool)
deriving DecidableEq

def Literal.neg : Literal → Literal
  | .number q => .number (-q)
  | .infinite negative => .infinite !negative

/-- One digit or more, and nothing else. -/
def digits? (l : List Char) : Option Nat :=
  if l ≠ [] ∧ l.all Char.isDigit = true then some (digitsValue l) else none

/-- `e`, a sign, and digits; or nothing. -/
def exponent? : List Char → Option ℤ
  | [] => some 0
  | e :: rest =>
      if e = 'e' ∨ e = 'E' then
        match rest with
        | '+' :: rest => (digits? rest).map Nat.cast
        | '-' :: rest => (digits? rest).map fun n => -(n : ℤ)
        | rest => (digits? rest).map Nat.cast
      else none

/-- Digits with a point before, among or behind them, or without one, then an
exponent. -/
def decimal? (l : List Char) : Option ℚ :=
  let whole := l.takeWhile Char.isDigit
  let rest := l.dropWhile Char.isDigit
  let frac := if rest.head? = some '.' then (rest.drop 1).takeWhile Char.isDigit else []
  let rest := if rest.head? = some '.' then (rest.drop 1).dropWhile Char.isDigit else rest
  if whole = [] ∧ frac = [] then none
  else (exponent? rest).map fun e : ℤ =>
    (digitsValue (whole ++ frac) : ℚ) * 10 ^ (e - (frac.length : ℤ))

def unsigned? (l : List Char) : Option Literal :=
  if l = "Infinity".toList then some (.infinite false) else (decimal? l).map .number

/-- A digit of a base up to sixteen. -/
def digitOf? (base : Nat) (c : Char) : Option Nat :=
  ("0123456789abcdef".toList.take base).idxOf? c.toLower

/-- `0x`, `0o` or `0b` with digits behind it. -/
def radix? : List Char → Option Nat
  | '0' :: letter :: digits =>
      let base := match letter.toLower with
        | 'x' => some 16
        | 'o' => some 8
        | 'b' => some 2
        | _ => none
      base.bind fun base =>
        if digits = [] then none
        else (digits.mapM (digitOf? base)).map fun values =>
          values.foldl (fun n d => n * base + d) 0
  | _ => none

/-- What a text without white space around it denotes. -/
def literal? (l : List Char) : Option Literal :=
  match radix? l with
  | some n => some (.number n)
  | none =>
      match l with
      | '+' :: rest => unsigned? rest
      | '-' :: rest => (unsigned? rest).map .neg
      | rest => unsigned? rest

/-- The numeral in a text, exactly. A blank text holds none. -/
def denotes? (text : String) : Option Literal := literal? (trim isSpace text).toList

/-- `Number(text)` -/
def number (text : String) : Double :=
  if trim isSpace text = "" then .finite 0
  else match denotes? text with
    | none => .nan
    | some (.number q) => double q
    | some (.infinite negative) => .infinite negative

theorem denotes_blank {text : String} (h : trim isSpace text = "") : denotes? text = none := by
  rw [denotes?, h]
  rfl

/-- A numeral is read as the nearest double. -/
theorem number_of_denotes {text : String} {q : ℚ} (h : denotes? text = some (.number q)) :
    number text = double q := by
  have hblank : trim isSpace text ≠ "" := fun hblank => by
    rw [denotes_blank hblank] at h
    cases h
  rw [number, if_neg hblank, h]

/-! ## Writing doubles -/

/-- The fewest digits that are read back as the double `q > 0`, and the
exponent `n` of the first one: `q` is near `0.digits × 10ⁿ`. -/
def shortest (q : ℚ) : List Char × ℤ :=
  let n := Int.log 10 q + 1
  let digits := (List.range 17).findSome? fun i =>
    let unit : ℚ := 10 ^ (n - (i + 1 : ℤ))
    ([nearest (q / unit), ⌊q / unit⌋, ⌊q / unit⌋ + 1].find? fun s : ℤ =>
      decide (double (s * unit) = .finite q)).map fun s =>
        let digits := Nat.toDigits 10 s.toNat
        (trimZeros digits, n + (digits.length - (i + 1) : ℤ))
  digits.getD ([], n)

/-- The digits of a positive double, with a point or an exponent. -/
def positiveText (q : ℚ) : List Char :=
  let (digits, n) := shortest q
  let k := digits.length
  if (k : ℤ) ≤ n ∧ n ≤ 21 then digits ++ List.replicate (n - k).toNat '0'
  else if 0 < n ∧ n ≤ 21 then digits.take n.toNat ++ '.' :: digits.drop n.toNat
  else if -6 < n ∧ n ≤ 0 then '0' :: '.' :: (List.replicate (-n).toNat '0' ++ digits)
  else
    digits.take 1 ++ (if k = 1 then [] else '.' :: digits.drop 1) ++
      'e' :: (if n ≤ 0 then '-' else '+') :: Nat.toDigits 10 (n - 1).natAbs

/-- `String(number)` -/
def text : Double → String
  | .nan => "NaN"
  | .infinite negative => if negative then "-Infinity" else "Infinity"
  | .finite q =>
      if q = 0 then "0"
      else if q < 0 then String.ofList ('-' :: positiveText (-q))
      else String.ofList (positiveText q)

end Numeral

end PrivacyWallet
