import PrivacyWallet.Lib.Decimal

/-!
# Amounts as texts

Stroops are written as decimals of lumens, with seven places at most, and
read back. `Decimal` is what the reader accepts; it scales the decimal by ten
to the seventh and rounds nothing (`xlmToStroops_iff`). A balance card shows
the same amount with all seven places and the lumens in threes.

The pattern of the reader is taken apart first: a text matches it if and only
if it is the text of a decimal with up to seven places (`isXlmAmount_iff`).
On such a text the reader's arithmetic is the decimal's value scaled, as
padding the fraction with zeros multiplies it by the missing powers of ten
(`digits_padEnd`). So everything else is about decimals instead of texts:
the writer produces the text of one (`xlmDecimal`), of the value that it was
given (`xlmDecimal_scaled`), and the card's parts name the same number
without their commas (`stroops_splitStroops`, `xlm_splitStroops`).
-/

namespace PrivacyWallet

namespace Wallet

open Text

def stroopsPerXlm : Nat := 10000000

/-! ## Writing -/

def stroopsToXlm (stroops : Int) : String :=
  let abs := stroops.natAbs
  let whole := abs / stroopsPerXlm
  let frac := abs % stroopsPerXlm
  let fracStr := String.ofList (trimZeros (padZeros 7 frac).toList)
  let body := if fracStr ≠ "" then whole.repr ++ "." ++ fracStr else whole.repr
  if stroops < 0 then "-" ++ body else body

structure AmountParts where
  sign : String
  whole : String
  frac : String
deriving DecidableEq

def splitStroops (stroops : Int) : AmountParts :=
  let abs := stroops.natAbs
  { sign := if stroops < 0 then "-" else ""
    whole := String.ofList (threes none (abs / stroopsPerXlm).repr.toList)
    frac := padZeros 7 (abs % stroopsPerXlm) }

example : splitStroops (-12345678900000001) = ⟨"-", "1,234,567,890", "0000001"⟩ := by
  decide +kernel

/-! ## Reading -/

/-- `/^\d+(\.\d{1,7})?$/` -/
def isXlmAmount (text : String) : Bool :=
  let whole := text.toList.takeWhile Char.isDigit
  !whole.isEmpty && match text.toList.dropWhile Char.isDigit with
    | [] => true
    | point :: frac =>
        decide (point = '.') && frac.all Char.isDigit
          && decide (1 ≤ frac.length) && decide (frac.length ≤ 7)

/-- `const [whole, frac = ""] = parts` -/
def wholeAndFrac : List String → String × String
  | whole :: frac :: _ => (whole, frac)
  | [whole] => (whole, "")
  | [] => ("", "")

def xlmToStroops (input : String) : Except String Nat := do
  let trimmed := trim isSpace input
  if !isXlmAmount trimmed then
    throw s!"Invalid XLM amount: \"{input}\""
  let (whole, frac) := wholeAndFrac (split '.' trimmed)
  let whole ← bigInt whole
  let frac ← bigInt (String.ofList (padEnd 7 frac.toList))
  pure (whole * stroopsPerXlm + frac)

/-! ## What is read -/

theorem takeWhile_digits {l : List Char} (hl : l.all Char.isDigit = true) (rest : List Char)
    (hrest : ∀ c, rest.head? = some c → c.isDigit = false) :
    (l ++ rest).takeWhile Char.isDigit = l ∧ (l ++ rest).dropWhile Char.isDigit = rest := by
  have hl' := List.all_eq_true.mp hl
  rw [List.takeWhile_append_of_pos hl', List.dropWhile_append_of_pos hl']
  cases rest with
  | nil => simp
  | cons c rest => simp [hrest c rfl]

/-- The texts of decimals with up to seven places. -/
theorem isXlmAmount_iff {text : String} :
    isXlmAmount text = true ↔ ∃ d : Decimal, d.frac.length ≤ 7 ∧ text = d.text := by
  constructor
  · intro h
    obtain ⟨hne, hrest⟩ := Bool.and_eq_true_iff.mp h
    have hsplit : text.toList.takeWhile Char.isDigit ++ text.toList.dropWhile Char.isDigit
        = text.toList := List.takeWhile_append_dropWhile
    have hdigits : (text.toList.takeWhile Char.isDigit).all Char.isDigit = true :=
      List.all_eq_true.mpr fun c hc => List.mem_takeWhile_imp hc
    have hwhole : text.toList.takeWhile Char.isDigit ≠ [] := by simpa using hne
    generalize text.toList.takeWhile Char.isDigit = whole at hsplit hdigits hwhole
    generalize text.toList.dropWhile Char.isDigit = rest at hsplit hrest
    rw [← String.ofList_toList (s := text), ← hsplit]
    cases rest with
    | nil =>
        refine ⟨⟨whole, [], hwhole, hdigits, rfl⟩, Nat.zero_le _, ?_⟩
        simp [Decimal.text]
    | cons point frac =>
        simp only [Bool.and_eq_true, decide_eq_true_eq] at hrest
        obtain ⟨⟨⟨rfl, hfrac⟩, hone⟩, hseven⟩ := hrest
        refine ⟨⟨whole, frac, hwhole, hdigits, hfrac⟩, hseven, ?_⟩
        have hnil : frac ≠ [] := List.length_pos_iff.mp hone
        rw [Decimal.text, if_neg hnil, ← String.ofList_append, ← String.ofList_append,
          List.append_assoc]
        rfl
  · rintro ⟨d, hseven, rfl⟩
    unfold isXlmAmount
    by_cases hfrac : d.frac = []
    · have hlist : d.text.toList = d.whole ++ [] := by simp [Decimal.text, hfrac]
      obtain ⟨htake, hdrop⟩ := takeWhile_digits d.whole_digits [] (by simp)
      rw [hlist, htake, hdrop]
      simpa using d.whole_ne
    · have hlist : d.text.toList = d.whole ++ '.' :: d.frac := by simp [Decimal.text, hfrac]
      obtain ⟨htake, hdrop⟩ := takeWhile_digits d.whole_digits ('.' :: d.frac)
        (by simp)
      rw [hlist, htake, hdrop]
      have hpos : 1 ≤ d.frac.length := List.length_pos_iff.mpr hfrac
      simp [d.whole_ne, d.frac_digits, hpos, hseven]

theorem bigInt_eq {l : List Char} (h : l.all Char.isDigit = true) :
    bigInt (String.ofList l) = .ok (digitsValue l) := by
  rw [bigInt, number_eq (by simpa using h), String.toList_ofList]

theorem wholeAndFrac_split (d : Decimal) :
    wholeAndFrac (split '.' d.text) = (String.ofList d.whole, String.ofList d.frac) := by
  have hwhole : '.' ∉ (String.ofList d.whole).toList := by
    simpa using Decimal.dot_notMem d.whole_digits
  have hfrac : '.' ∉ (String.ofList d.frac).toList := by
    simpa using Decimal.dot_notMem d.frac_digits
  rw [Decimal.text]
  split
  next hnil =>
    rw [split, List.splitOn_eq_singleton hwhole, hnil]
    simp [wholeAndFrac]
  next =>
    rw [split_eq hwhole hfrac]
    rfl

theorem digits_padEnd {width : Nat} {l : List Char} (h : l.all Char.isDigit = true) :
    (padEnd width l).all Char.isDigit = true := by
  rw [padEnd, List.all_append, h, List.all_replicate]
  simp

theorem xlmToStroops_text {input : String} {d : Decimal} (h : trim isSpace input = d.text)
    (hseven : d.frac.length ≤ 7) : xlmToStroops input = .ok (d.scaled 7) := by
  have hamount := isXlmAmount_iff.mpr ⟨d, hseven, rfl⟩
  simp only [xlmToStroops, h, hamount, wholeAndFrac_split, String.toList_ofList,
    bigInt_eq d.whole_digits, bigInt_eq (digits_padEnd d.frac_digits)]
  rfl

/-- A text is read if and only if it is that of a decimal, as its value. -/
theorem xlmToStroops_iff {input : String} {n : Nat} :
    xlmToStroops input = .ok n ↔ ∃ d : Decimal, d.frac.length ≤ 7 ∧ trim isSpace input = d.text ∧
      (n : ℚ) = d.value * 10 ^ 7 := by
  constructor
  · intro h
    by_cases hamount : isXlmAmount (trim isSpace input) = true
    · obtain ⟨d, hseven, htext⟩ := isXlmAmount_iff.mp hamount
      rw [xlmToStroops_text htext hseven] at h
      cases h
      exact ⟨d, hseven, htext, d.scaled_eq hseven⟩
    · simp only [xlmToStroops, hamount] at h
      cases h
  · rintro ⟨d, hseven, htext, hn⟩
    rw [← d.scaled_eq hseven, Nat.cast_inj] at hn
    rw [xlmToStroops_text htext hseven, hn]

/-! ## What is written -/

/-- The decimal that an amount is written as. -/
def xlmDecimal (n : Nat) : Decimal := .ofParts 7 (n / stroopsPerXlm) (n % stroopsPerXlm)

theorem mod_stroopsPerXlm_lt (n : Nat) : n % stroopsPerXlm < 10 ^ 7 := Nat.mod_lt n (by decide)

theorem xlmDecimal_frac_le (n : Nat) : (xlmDecimal n).frac.length ≤ 7 :=
  Decimal.ofParts_frac_le (by decide) (mod_stroopsPerXlm_lt n)

theorem xlmDecimal_scaled (n : Nat) : (xlmDecimal n).scaled 7 = n := by
  rw [xlmDecimal, Decimal.ofParts_scaled (by decide) (mod_stroopsPerXlm_lt n)]
  exact Nat.div_add_mod' n stroopsPerXlm

theorem stroopsToXlm_natCast (n : Nat) : stroopsToXlm n = (xlmDecimal n).text := by
  have hneg : ¬((n : Int) < 0) := by omega
  rw [stroopsToXlm, if_neg hneg, Int.natAbs_natCast, xlmDecimal, Decimal.ofParts_text]

theorem isDigit_not_space {c : Char} (h : c.isDigit = true) : isSpace c = false := by
  have hrange : 48 ≤ c.toNat ∧ c.toNat ≤ 57 := Char.isDigit_iff_toNat.mp h
  rw [isSpace, Bool.or_eq_false_iff, decide_eq_false_iff_not, Bool.and_eq_false_iff,
    decide_eq_false_iff_not]
  refine ⟨?_, by omega⟩
  simp only [List.mem_cons, List.not_mem_nil, or_false]
  omega

theorem trim_text (d : Decimal) : trim isSpace d.text = d.text := by
  refine trim_eq_self fun c hc => ?_
  have hwhole := List.all_eq_true.mp d.whole_digits
  have hfrac := List.all_eq_true.mp d.frac_digits
  rw [Decimal.text] at hc
  split at hc
  · exact isDigit_not_space (hwhole c (by simpa using hc))
  · simp only [String.toList_append, String.toList_ofList, List.mem_append,
      List.mem_singleton] at hc
    rcases hc with (hc | rfl) | hc
    · exact isDigit_not_space (hwhole c hc)
    · decide
    · exact isDigit_not_space (hfrac c hc)

theorem xlmToStroops_stroopsToXlm (n : Nat) : xlmToStroops (stroopsToXlm n) = .ok n := by
  rw [stroopsToXlm_natCast, xlmToStroops_text (trim_text _) (xlmDecimal_frac_le n),
    xlmDecimal_scaled]

/-! ## The parts of a balance -/

namespace AmountParts

/-- The lumens without their commas. -/
def plainWhole (p : AmountParts) : String := String.ofList (removeCommas p.whole.toList)

/-- The number that the parts make. -/
def stroops (p : AmountParts) : Option Int := do
  let whole ← number p.plainWhole
  let frac ← number p.frac
  let abs : Int := whole * stroopsPerXlm + frac
  pure (if p.sign = "-" then -abs else abs)

/-- The text that the parts make, without the zeros at the end. -/
def xlm (p : AmountParts) : String :=
  let frac := String.ofList (trimZeros p.frac.toList)
  p.sign ++ (if frac ≠ "" then p.plainWhole ++ "." ++ frac else p.plainWhole)

end AmountParts

theorem plainWhole_splitStroops (n : Int) :
    (splitStroops n).plainWhole = (n.natAbs / stroopsPerXlm).repr := by
  have hcomma : ',' ∉ (n.natAbs / stroopsPerXlm).repr.toList := by
    intro hmem
    rw [Nat.toList_repr] at hmem
    have hdigit := Nat.isDigit_of_mem_toDigits (by decide) (by decide) hmem
    revert hdigit
    decide
  rw [AmountParts.plainWhole, splitStroops, String.toList_ofList, removeCommas_threes hcomma,
    String.ofList_toList]

theorem stroops_splitStroops (n : Int) : (splitStroops n).stroops = some n := by
  have habs : (n.natAbs / stroopsPerXlm) * stroopsPerXlm + n.natAbs % stroopsPerXlm = n.natAbs :=
    Nat.div_add_mod' _ _
  have hfrac : (splitStroops n).frac = padZeros 7 (n.natAbs % stroopsPerXlm) := rfl
  simp only [AmountParts.stroops, plainWhole_splitStroops, number_repr, hfrac, number_padZeros,
    Option.bind_eq_bind, Option.bind_some, Option.pure_def, Option.some.injEq]
  rw [← Nat.cast_mul, ← Nat.cast_add, habs]
  by_cases hneg : n < 0
  · have hsign : (splitStroops n).sign = "-" := if_pos hneg
    rw [if_pos hsign]
    omega
  · have hsign : (splitStroops n).sign = "" := if_neg hneg
    rw [hsign, if_neg (by decide)]
    omega

theorem xlm_splitStroops (n : Int) : (splitStroops n).xlm = stroopsToXlm n := by
  have hfrac : (splitStroops n).frac = padZeros 7 (n.natAbs % stroopsPerXlm) := rfl
  rw [AmountParts.xlm, plainWhole_splitStroops, hfrac, stroopsToXlm, splitStroops]
  by_cases hneg : n < 0
  · simp [hneg]
  · simp [hneg]

/-- Writing and reading of amounts: what is written is read back; a text is
read if and only if it is, without the space around it, a decimal with up to
seven places, and then as its exact value; and the parts of a balance make up
its number and its text. -/
theorem amounts_as_texts :
    (∀ n : Nat, xlmToStroops (stroopsToXlm n) = .ok n) ∧
    (∀ (input : String) (n : Nat), xlmToStroops input = .ok n ↔
      ∃ d : Decimal, d.frac.length ≤ 7 ∧ trim isSpace input = d.text ∧
        (n : ℚ) = d.value * 10 ^ 7) ∧
    ∀ n : Int, (splitStroops n).stroops = some n ∧ (splitStroops n).xlm = stroopsToXlm n :=
  ⟨xlmToStroops_stroopsToXlm, fun _ _ => xlmToStroops_iff,
    fun n => ⟨stroops_splitStroops n, xlm_splitStroops n⟩⟩

end Wallet

end PrivacyWallet
