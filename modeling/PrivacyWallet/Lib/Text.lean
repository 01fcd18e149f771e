import Mathlib.Data.List.Basic

/-!
# Tagged texts, separated texts and numerals

A text with a tag in front is recognised by `startsWith` and read by
`slice`; two tags of which neither begins the other never meet
(`startsWith_append_of_apart`). A text is cut at its last separator by
`beforeLast` and `afterLast`. A number written in decimal, with leading
zeros or without, is read back by `number`.
-/

namespace PrivacyWallet

namespace Text

/-- `text.startsWith(pre)` -/
def startsWith (text pre : String) : Bool := pre.toList.isPrefixOf text.toList

/-- `text.slice(n)` -/
def slice (text : String) (n : Nat) : String := String.ofList (text.toList.drop n)

theorem startsWith_iff {text pre : String} :
    startsWith text pre = true ↔ pre.toList <+: text.toList :=
  List.isPrefixOf_iff_prefix

@[simp] theorem startsWith_append (pre rest : String) :
    startsWith (pre ++ rest) pre = true := by
  rw [startsWith_iff, String.toList_append]
  exact List.prefix_append ..

@[simp] theorem slice_append (pre rest : String) :
    slice (pre ++ rest) pre.length = rest := by
  rw [slice, String.toList_append, ← String.length_toList, List.drop_left,
    String.ofList_toList]

/-- Neither text begins with the other. -/
def Apart (p q : String) : Prop := startsWith p q = false ∧ startsWith q p = false

instance (p q : String) : Decidable (Apart p q) := inferInstanceAs (Decidable (_ ∧ _))

/-- A text tagged `q` is not tagged `p`. -/
theorem startsWith_append_of_apart {p q : String} (h : Apart p q) (rest : String) :
    startsWith (q ++ rest) p = false := by
  rw [Bool.eq_false_iff]
  intro hp
  rw [startsWith_iff, String.toList_append] at hp
  rcases List.prefix_or_prefix_of_prefix hp (List.prefix_append ..) with hpq | hqp
  · rw [← startsWith_iff, h.2] at hpq
    cases hpq
  · rw [← startsWith_iff, h.1] at hqp
    cases hqp

/-! ## Numerals -/

/-- `Number(text)` of a text of decimal digits, the empty one included.
`none` is `NaN`. -/
def number (text : String) : Option Nat :=
  if text.toList.all Char.isDigit then some (Nat.ofDigitChars 10 text.toList 0) else none

/-- `BigInt(text)` of a decimal text -/
def bigInt (text : String) : Except String Nat :=
  match number text with
  | some n => .ok n
  | none => .error s!"Cannot convert {text} to a BigInt"

@[simp] theorem number_repr (n : Nat) : number n.repr = some n := by
  have hdigits : (Nat.toDigits 10 n).all Char.isDigit = true :=
    List.all_eq_true.mpr fun c hc => Nat.isDigit_of_mem_toDigits (by decide) (by decide) hc
  rw [number, Nat.toList_repr, if_pos hdigits,
    Nat.ofDigitChars_ten_toDigits]

/-- The digits of `n`, with zeros in front up to `width`. -/
def padZeros (width n : Nat) : String :=
  String.ofList (List.replicate (width - n.repr.length) '0') ++ n.repr

theorem padZeros_toList (width n : Nat) :
    (padZeros width n).toList
      = List.replicate (width - n.repr.length) '0' ++ Nat.toDigits 10 n := by
  rw [padZeros, String.toList_append, String.toList_ofList, Nat.toList_repr]

theorem isDigit_of_mem_padZeros {width n : Nat} {c : Char} (hc : c ∈ (padZeros width n).toList) :
    c.isDigit = true := by
  rw [padZeros_toList, List.mem_append] at hc
  rcases hc with hc | hc
  · rw [List.eq_of_mem_replicate hc]
    decide
  · exact Nat.isDigit_of_mem_toDigits (by decide) (by decide) hc

@[simp] theorem number_padZeros (width n : Nat) : number (padZeros width n) = some n := by
  have hdigits : (padZeros width n).toList.all Char.isDigit = true :=
    List.all_eq_true.mpr fun c hc => isDigit_of_mem_padZeros hc
  rw [number, if_pos hdigits, padZeros_toList, Nat.ofDigitChars_append,
    Nat.ofDigitChars_replicate_zero, Nat.mul_zero, Nat.ofDigitChars_ten_toDigits]

theorem repr_injective : Function.Injective Nat.repr := by
  intro a b hab
  have hnumber := congrArg number hab
  rwa [number_repr, number_repr, Option.some.injEq] at hnumber

/-- A text that begins with a numeral has no tag that begins otherwise. -/
theorem startsWith_repr_append {tag : String} {c : Char} (htag : tag.toList.head? = some c)
    (hc : c.isDigit = false) (n : Nat) (rest : String) :
    startsWith (n.repr ++ rest) tag = false := by
  rw [Bool.eq_false_iff]
  intro h
  obtain ⟨suf, hsuf⟩ := startsWith_iff.mp h
  rw [String.toList_append, Nat.toList_repr] at hsuf
  obtain ⟨d, digits, hdigits⟩ := List.exists_cons_of_ne_nil (@Nat.toDigits_ne_nil n 10)
  have hd : d.isDigit = true :=
    @Nat.isDigit_of_mem_toDigits 10 n d (by decide) (by decide) (hdigits ▸ List.mem_cons_self)
  have hhead := congrArg List.head? hsuf
  rw [hdigits, List.head?_append, htag] at hhead
  cases hhead
  rw [hc] at hd
  cases hd

/-! ## Separators -/

/-- `text.split(sep)` -/
def split (sep : Char) (text : String) : List String := (text.toList.splitOn sep).map String.ofList

/-- What follows the last `sep`; all of the text if there is none. It is the
last part of `text.split(sep)`. -/
def afterLast (sep : Char) (text : String) : String :=
  String.ofList (text.toList.reverse.takeWhile (· ≠ sep)).reverse

/-- What precedes the last `sep`, `text.slice(0, text.lastIndexOf(sep))`. -/
def beforeLast (sep : Char) (text : String) : Option String :=
  if sep ∈ text.toList then
    some (String.ofList ((text.toList.reverse.dropWhile (· ≠ sep)).drop 1).reverse)
  else none

section Separated

variable {sep : Char} {pre suf : String} (hsuf : sep ∉ suf.toList)
include hsuf

theorem ne_of_mem_reverse : ∀ c ∈ suf.toList.reverse, decide (c ≠ sep) = true := by
  intro c hc
  rw [decide_eq_true_eq]
  rintro rfl
  exact hsuf (List.mem_reverse.mp hc)

theorem afterLast_eq : afterLast sep (pre ++ String.ofList [sep] ++ suf) = suf := by
  have hlist : (pre ++ String.ofList [sep] ++ suf).toList.reverse
      = suf.toList.reverse ++ sep :: pre.toList.reverse := by
    simp
  rw [afterLast, hlist, List.takeWhile_append_of_pos (ne_of_mem_reverse hsuf),
    List.takeWhile_cons_of_neg (by simp), List.append_nil, List.reverse_reverse,
    String.ofList_toList]

theorem beforeLast_eq :
    beforeLast sep (pre ++ String.ofList [sep] ++ suf) = some pre := by
  have hlist : (pre ++ String.ofList [sep] ++ suf).toList.reverse
      = suf.toList.reverse ++ sep :: pre.toList.reverse := by
    simp
  have hmem : sep ∈ (pre ++ String.ofList [sep] ++ suf).toList := by simp
  rw [beforeLast, if_pos hmem, hlist, List.dropWhile_append_of_pos (ne_of_mem_reverse hsuf),
    List.dropWhile_cons_of_neg (by simp), List.drop_one, List.tail_cons, List.reverse_reverse,
    String.ofList_toList]

end Separated

/-- A text with one separator has two parts. -/
theorem split_eq {sep : Char} {pre suf : String} (hpre : sep ∉ pre.toList)
    (hsuf : sep ∉ suf.toList) :
    split sep (pre ++ String.ofList [sep] ++ suf) = [pre, suf] := by
  have hlist : (pre ++ String.ofList [sep] ++ suf).toList = pre.toList ++ sep :: suf.toList := by
    simp
  rw [split, hlist, List.splitOn_append_cons_self, List.splitOn_eq_singleton hpre,
    List.splitOn_eq_singleton hsuf]
  simp

/-- Two texts cut at their last separator agree piece by piece. -/
theorem separated_inj {sep : Char} {pre pre' suf suf' : String} (hsuf : sep ∉ suf.toList)
    (hsuf' : sep ∉ suf'.toList)
    (h : pre ++ String.ofList [sep] ++ suf = pre' ++ String.ofList [sep] ++ suf') :
    pre = pre' ∧ suf = suf' := by
  have hafter := congrArg (afterLast sep) h
  have hbefore := congrArg (beforeLast sep) h
  rw [afterLast_eq hsuf, afterLast_eq hsuf'] at hafter
  rw [beforeLast_eq hsuf, beforeLast_eq hsuf', Option.some.injEq] at hbefore
  exact ⟨hbefore, hafter⟩

end Text

end PrivacyWallet
