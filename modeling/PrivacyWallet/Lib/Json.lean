import Mathlib.Data.List.Chain
import PrivacyWallet.Lib.Numeral

/-!
# JSON texts

Values, their texts, and the reader. A text is cut into tokens, and these are
read by a machine with a stack: each open array or object waits on it for
its next value. What was written is read back, if its numbers are
(`parse_stringify`).
-/

namespace PrivacyWallet

/-- A value of JSON. An object's members stand as they were written; of two
with one key the last counts. -/
inductive Json where
  | null
  | bool (b : Bool)
  | num (d : Numeral.Double)
  | str (s : String)
  | arr (items : List Json)
  | obj (members : List (String × Json))

namespace Json

open Text

/-! ## Tokens -/

inductive Token where
  | null
  | bool (b : Bool)
  | num (d : Numeral.Double)
  | str (s : String)
  | openArr
  | closeArr
  | openObj
  | closeObj
  | comma
  | colon
deriving DecidableEq

mutual

/-- The tokens of a value. -/
def tokens : Json → List Token
  | .null => [.null]
  | .bool b => [.bool b]
  | .num d => [.num d]
  | .str s => [.str s]
  | .arr [] => [.openArr, .closeArr]
  | .arr (v :: items) => .openArr :: (tokens v ++ (itemTokens items ++ [.closeArr]))
  | .obj [] => [.openObj, .closeObj]
  | .obj ((key, v) :: members) =>
      .openObj :: .str key :: .colon :: (tokens v ++ (memberTokens members ++ [.closeObj]))

def itemTokens : List Json → List Token
  | [] => []
  | v :: items => .comma :: (tokens v ++ itemTokens items)

def memberTokens : List (String × Json) → List Token
  | [] => []
  | (key, v) :: members => .comma :: .str key :: .colon :: (tokens v ++ memberTokens members)

end

/-! ## Reading tokens -/

/-- An array or object that is open, with what was read of it; in an object,
the value of `key` is being read. -/
inductive Frame where
  | arr (items : List Json)
  | obj (members : List (String × Json)) (key : String)

/-- What may come next: a value; a value or the end of the array just opened;
a key or the end of the object just opened; a key; a colon; or what may stand
behind the value that was read. -/
inductive Expect where
  | value
  | item
  | firstKey
  | key (members : List (String × Json))
  | colon (members : List (String × Json)) (key : String)
  | after (v : Json)

/-- The first token of a value. -/
def start (stack : List Frame) : Token → Option (Expect × List Frame)
  | .null => some (.after .null, stack)
  | .bool b => some (.after (.bool b), stack)
  | .num d => some (.after (.num d), stack)
  | .str s => some (.after (.str s), stack)
  | .openArr => some (.item, .arr [] :: stack)
  | .openObj => some (.firstKey, stack)
  | _ => none

/-- The end of an array without items. -/
def closeEmpty : List Frame → Option (Expect × List Frame)
  | .arr [] :: stack => some (.after (.arr []), stack)
  | _ => none

def step : Expect × List Frame → Token → Option (Expect × List Frame)
  | (.value, stack), t => start stack t
  | (.item, stack), .closeArr => closeEmpty stack
  | (.item, stack), t => start stack t
  | (.firstKey, stack), .closeObj => some (.after (.obj []), stack)
  | (.firstKey, stack), .str key => some (.colon [] key, stack)
  | (.key members, stack), .str key => some (.colon members key, stack)
  | (.colon members key, stack), .colon => some (.value, .obj members key :: stack)
  | (.after v, .arr items :: stack), .comma => some (.value, .arr (items ++ [v]) :: stack)
  | (.after v, .arr items :: stack), .closeArr => some (.after (.arr (items ++ [v])), stack)
  | (.after v, .obj members key :: stack), .comma => some (.key (members ++ [(key, v)]), stack)
  | (.after v, .obj members key :: stack), .closeObj =>
      some (.after (.obj (members ++ [(key, v)])), stack)
  | _, _ => none

/-- The value of all the tokens. -/
def run : List Token → Expect × List Frame → Option Json
  | [], (.after v, []) => some v
  | [], _ => none
  | t :: ts, s => (step s t).bind (run ts)

/-- Where a value may stand. -/
inductive Expect.Starts : Expect → Prop where
  | value : Expect.value.Starts
  | item : Expect.item.Starts

theorem run_start {e : Expect} (he : e.Starts) {stack : List Frame} {t : Token} {ts : List Token}
    {s : Expect × List Frame} (h : start stack t = some s) :
    run (t :: ts) (e, stack) = run ts s := by
  have hstep : step (e, stack) t = some s := by
    cases he with
    | value => exact h
    | item =>
        cases t with
        | closeArr => cases h
        | null | bool | num | str | openArr | openObj | closeObj | comma | colon => exact h
  rw [run, hstep, Option.bind_some]

mutual

/-- The tokens of a value are read as that value. -/
theorem run_tokens (v : Json) {e : Expect} (he : e.Starts) (stack : List Frame) (ts : List Token) :
    run (tokens v ++ ts) (e, stack) = run ts (.after v, stack) := by
  match v with
  | .null => exact run_start he rfl
  | .bool b => exact run_start he rfl
  | .num d => exact run_start he rfl
  | .str s => exact run_start he rfl
  | .arr [] =>
      rw [tokens, List.cons_append, run_start he rfl]
      rfl
  | .arr (v :: items) =>
      rw [tokens, List.cons_append, run_start he rfl, List.append_assoc,
        run_tokens v .item, List.append_assoc]
      exact run_itemTokens items [] v stack ts
  | .obj [] =>
      rw [tokens, List.cons_append, run_start he rfl]
      rfl
  | .obj ((key, v) :: members) =>
      rw [tokens, List.cons_append, run_start he rfl]
      change run (tokens v ++ _ ++ ts) (.value, .obj [] key :: stack) = _
      rw [List.append_assoc, run_tokens v .value, List.append_assoc]
      exact run_memberTokens members [] key v stack ts

theorem run_itemTokens (items done : List Json) (v : Json) (stack : List Frame)
    (ts : List Token) :
    run (itemTokens items ++ ([.closeArr] ++ ts)) (.after v, .arr done :: stack)
      = run ts (.after (.arr (done ++ v :: items)), stack) := by
  match items with
  | [] => rfl
  | w :: items =>
      rw [itemTokens, List.cons_append]
      change run (tokens w ++ _ ++ _) (.value, .arr (done ++ [v]) :: stack) = _
      rw [List.append_assoc, run_tokens w .value, run_itemTokens items (done ++ [v]) w stack ts,
        List.append_assoc]
      rfl

theorem run_memberTokens (members done : List (String × Json)) (key : String) (v : Json)
    (stack : List Frame) (ts : List Token) :
    run (memberTokens members ++ ([.closeObj] ++ ts)) (.after v, .obj done key :: stack)
      = run ts (.after (.obj (done ++ (key, v) :: members)), stack) := by
  match members with
  | [] => rfl
  | (key', w) :: members =>
      rw [memberTokens, List.cons_append]
      change run (tokens w ++ _ ++ _) (.value, .obj (done ++ [(key, v)]) key' :: stack) = _
      rw [List.append_assoc, run_tokens w .value,
        run_memberTokens members (done ++ [(key, v)]) key' w stack ts, List.append_assoc]
      rfl

end

/-! ## Strings -/

def hexDigit (n : Nat) : Char := "0123456789abcdef".toList.getD n '0'

/-- A character within quotes. -/
def escape (c : Char) : List Char :=
  if c = '"' then ['\\', '"']
  else if c = '\\' then ['\\', '\\']
  else if c.toNat = 0x8 then ['\\', 'b']
  else if c.toNat = 0xC then ['\\', 'f']
  else if c = '\n' then ['\\', 'n']
  else if c = '\r' then ['\\', 'r']
  else if c = '\t' then ['\\', 't']
  else if c.toNat < 0x20 then
    ['\\', 'u', '0', '0', hexDigit (c.toNat / 16), hexDigit (c.toNat % 16)]
  else [c]

/-- The character behind a backslash. -/
def unescape? (c : Char) : Option Nat :=
  if c = '"' ∨ c = '\\' ∨ c = '/' then some c.toNat
  else if c = 'b' then some 0x8
  else if c = 'f' then some 0xC
  else if c = 'n' then some 0xA
  else if c = 'r' then some 0xD
  else if c = 't' then some 0x9
  else none

def hex4 (a b c d : Char) : Option Nat := do
  let a ← Numeral.digitOf? 16 a
  let b ← Numeral.digitOf? 16 b
  let c ← Numeral.digitOf? 16 c
  let d ← Numeral.digitOf? 16 d
  pure (((a * 16 + b) * 16 + c) * 16 + d)

/-- The numbers of the characters up to the quote, and what follows it. An
escaped one may be half of a pair. -/
def readString : List Char → Option (List Nat × List Char)
  | [] => none
  | '"' :: rest => some ([], rest)
  | '\\' :: 'u' :: a :: b :: c :: d :: rest =>
      (hex4 a b c d).bind fun unit =>
        (readString rest).map fun (units, rest) => (unit :: units, rest)
  | '\\' :: c :: rest =>
      (unescape? c).bind fun unit =>
        (readString rest).map fun (units, rest) => (unit :: units, rest)
  | c :: rest =>
      if c.toNat < 0x20 ∨ c = '\\' then none
      else (readString rest).map fun (units, rest) => (c.toNat :: units, rest)

def isHigh (n : Nat) : Bool := decide (0xD800 ≤ n) && decide (n < 0xDC00)

def isLow (n : Nat) : Bool := decide (0xDC00 ≤ n) && decide (n < 0xE000)

/-- A half without its other half stands as a replacement character. -/
def single (n : Nat) : Char := if isHigh n || isLow n then '\uFFFD' else Char.ofNat n

/-- The characters, with the pairs joined. -/
def join : List Nat → List Char
  | [] => []
  | [n] => [single n]
  | n :: m :: rest =>
      if isHigh n && isLow m then
        Char.ofNat (0x10000 + (n - 0xD800) * 0x400 + (m - 0xDC00)) :: join rest
      else single n :: join (m :: rest)

/-! ## Texts -/

/-- The characters that numbers are made of. -/
def isNumeric (c : Char) : Bool := c.isDigit || decide (c ∈ ['-', '+', '.', 'e', 'E'])

/-- A number: no sign but a minus, no zero before a digit, digits on both
sides of a point. -/
def number? (l : List Char) : Option Numeral.Double :=
  let unsigned := if l.head? = some '-' then l.drop 1 else l
  let whole := unsigned.takeWhile Char.isDigit
  let rest := unsigned.dropWhile Char.isDigit
  if whole = [] ∨ (whole.head? = some '0' ∧ whole ≠ ['0']) ∨
      (rest.head? = some '.' ∧ (rest.drop 1).head?.any Char.isDigit = false) then none
  else (Numeral.decimal? unsigned).map fun q =>
    Numeral.double (if l.head? = some '-' then -q else q)

/-- A token that is no number, or white space. -/
def symbol? : List Char → Option (Option Token × List Char)
  | '[' :: rest => some (some .openArr, rest)
  | ']' :: rest => some (some .closeArr, rest)
  | '{' :: rest => some (some .openObj, rest)
  | '}' :: rest => some (some .closeObj, rest)
  | ',' :: rest => some (some .comma, rest)
  | ':' :: rest => some (some .colon, rest)
  | '"' :: rest =>
      (readString rest).map fun (units, rest) => (some (.str (String.ofList (join units))), rest)
  | 'n' :: 'u' :: 'l' :: 'l' :: rest => some (some .null, rest)
  | 't' :: 'r' :: 'u' :: 'e' :: rest => some (some (.bool true), rest)
  | 'f' :: 'a' :: 'l' :: 's' :: 'e' :: rest => some (some (.bool false), rest)
  | c :: rest => if c ∈ [' ', '\t', '\n', '\r'] then some (none, rest) else none
  | [] => none

/-- What stands at the front. -/
def lexeme? (l : List Char) : Option (Option Token × List Char) :=
  if l.takeWhile isNumeric = [] then symbol? l
  else (number? (l.takeWhile isNumeric)).map fun d => (some (.num d), l.dropWhile isNumeric)

/-- The tokens of a text, of which there are no more than `n`. -/
def lex (n : Nat) (l : List Char) : Option (List Token) :=
  match n, l with
  | _, [] => some []
  | 0, _ => none
  | n + 1, l => (lexeme? l).bind fun (t, rest) => (lex n rest).map (t.toList ++ ·)

/-- `JSON.parse(text)` -/
def parse (text : String) : Option Json :=
  (lex text.toList.length text.toList).bind fun ts => run ts (.value, [])

def Token.chars : Token → List Char
  | .null => "null".toList
  | .bool b => (if b then "true" else "false").toList
  | .num d => (Numeral.text d).toList
  | .str s => '"' :: (s.toList.flatMap escape ++ ['"'])
  | .openArr => ['[']
  | .closeArr => [']']
  | .openObj => ['{']
  | .closeObj => ['}']
  | .comma => [',']
  | .colon => [':']

/-- `JSON.stringify(value)`, of a value with finite numbers -/
def stringify (v : Json) : String := String.ofList ((tokens v).flatMap Token.chars)

/-! ## Strings are read back -/

theorem hex4_control {n : Nat} (h : n < 32) :
    hex4 '0' '0' (hexDigit (n / 16)) (hexDigit (n % 16)) = some n := by
  have hall : ∀ i : Fin 32,
      hex4 '0' '0' (hexDigit (i.val / 16)) (hexDigit (i.val % 16)) = some i.val := by
    decide +kernel
  exact hall ⟨n, h⟩

theorem eq_ofNat {c : Char} {n : Nat} (h : c.toNat = n) : c = Char.ofNat n := by
  rw [← h, Char.ofNat_toNat]

theorem readString_plain {c : Char} (hquote : c ≠ '"') (hback : c ≠ '\\') (hlow : ¬ c.toNat < 0x20)
    (l : List Char) :
    readString (c :: l) = (readString l).map fun (units, rest) => (c.toNat :: units, rest) := by
  rw [readString, if_neg (by simp [hback, hlow])]
  all_goals simp_all

theorem readString_escape (c : Char) (l : List Char) :
    readString (escape c ++ l)
      = (readString l).map fun (units, rest) => (c.toNat :: units, rest) := by
  unfold escape
  split_ifs with hquote hback hb hf hn hr ht hcontrol
  · subst hquote
    rfl
  · subst hback
    rfl
  · rw [eq_ofNat hb]
    rfl
  · rw [eq_ofNat hf]
    rfl
  · subst hn
    rfl
  · subst hr
    rfl
  · subst ht
    rfl
  · change (hex4 '0' '0' (hexDigit (c.toNat / 16)) (hexDigit (c.toNat % 16))).bind _ = _
    rw [hex4_control hcontrol, Option.bind_some]
    rfl
  · exact readString_plain hquote hback hcontrol l

theorem readString_flatMap (s rest : List Char) :
    readString (s.flatMap escape ++ '"' :: rest) = some (s.map Char.toNat, rest) := by
  induction s with
  | nil => rfl
  | cons c s ih =>
      rw [List.flatMap_cons, List.append_assoc, readString_escape, ih]
      rfl

theorem single_toNat (c : Char) : isHigh c.toNat = false ∧ isLow c.toNat = false := by
  have hvalid := c.valid
  have hnat : c.toNat < 0xD800 ∨ 0xDFFF < c.toNat ∧ c.toNat < 0x110000 := hvalid
  constructor
  · rw [isHigh, Bool.and_eq_false_iff, decide_eq_false_iff_not, decide_eq_false_iff_not]
    omega
  · rw [isLow, Bool.and_eq_false_iff, decide_eq_false_iff_not, decide_eq_false_iff_not]
    omega

theorem join_map_toNat (l : List Char) : join (l.map Char.toNat) = l := by
  induction l with
  | nil => rfl
  | cons c l ih =>
      obtain ⟨hhigh, hlow⟩ := single_toNat c
      have hsingle : single c.toNat = c := by
        rw [single, hhigh, hlow, Bool.or_false, if_neg Bool.false_ne_true, Char.ofNat_toNat]
      cases l with
      | nil => rw [List.map_cons, List.map_nil, join, hsingle]
      | cons d l =>
          rw [List.map_cons] at ih ⊢
          rw [List.map_cons, join, hhigh, Bool.false_and, if_neg Bool.false_ne_true, hsingle, ih]

/-! ## Cutting a text into tokens -/

theorem readString_length {l rest : List Char} {units : List Nat}
    (h : readString l = some (units, rest)) : rest.length < l.length := by
  fun_induction readString l generalizing units rest with
  | case1 => cases h
  | case2 tail =>
      cases h
      simp
  | case3 a b c d tail ih =>
      obtain ⟨unit, -, h⟩ := Option.bind_eq_some_iff.mp h
      obtain ⟨⟨units', rest'⟩, hread, heq⟩ := Option.map_eq_some_iff.mp h
      cases heq
      have := ih hread
      simp only [List.length_cons]
      omega
  | case4 c tail hne ih =>
      obtain ⟨unit, -, h⟩ := Option.bind_eq_some_iff.mp h
      obtain ⟨⟨units', rest'⟩, hread, heq⟩ := Option.map_eq_some_iff.mp h
      cases heq
      have := ih hread
      simp only [List.length_cons]
      omega
  | case5 c tail => cases h
  | case6 c tail hquote hhex hback hplain ih =>
      obtain ⟨⟨units', rest'⟩, hread, heq⟩ := Option.map_eq_some_iff.mp h
      cases heq
      have := ih hread
      simp only [List.length_cons]
      omega

/-- A lexeme has a character at least. -/
theorem symbol?_length {l rest : List Char} {t : Option Token} (h : symbol? l = some (t, rest)) :
    rest.length < l.length := by
  unfold symbol? at h
  split at h
  case h_7 tail =>
    obtain ⟨⟨units, rest'⟩, hread, heq⟩ := Option.map_eq_some_iff.mp h
    cases heq
    exact Nat.lt_succ_of_lt (readString_length hread)
  case h_11 =>
    split at h
    · cases h
      simp
    · cases h
  case h_12 => cases h
  all_goals
    cases h
    simp only [List.length_cons]
    omega

theorem lexeme?_length {l rest : List Char} {t : Option Token} (h : lexeme? l = some (t, rest)) :
    rest.length < l.length := by
  unfold lexeme? at h
  split at h
  · exact symbol?_length h
  · rename_i hne
    obtain ⟨d, -, heq⟩ := Option.map_eq_some_iff.mp h
    cases heq
    have hsplit := congrArg List.length (List.takeWhile_append_dropWhile (p := isNumeric) (l := l))
    rw [List.length_append] at hsplit
    have := List.length_pos_of_ne_nil hne
    omega

/-- The text's length is enough, and more does not matter. -/
theorem lex_of_le {n m : Nat} {l : List Char} (hn : l.length ≤ n) (hm : l.length ≤ m) :
    lex n l = lex m l := by
  induction n generalizing m l with
  | zero =>
      obtain rfl : l = [] := List.eq_nil_of_length_eq_zero (by omega)
      cases m <;> rfl
  | succ n ih =>
      cases l with
      | nil => cases m <;> rfl
      | cons c l =>
          cases m with
          | zero => simp at hm
          | succ m =>
              rw [lex, lex]
              · cases hlex : lexeme? (c :: l) with
                | none => rfl
                | some p =>
                    obtain ⟨t, rest⟩ := p
                    have hlt := lexeme?_length hlex
                    rw [List.length_cons] at hlt hn hm
                    have hrest : rest.length ≤ m := by omega
                    rw [Option.bind_some, Option.bind_some]
                    dsimp only
                    rw [ih (by omega) hrest]
              · simp
              · simp

/-! ## The round trip -/

def Token.isNum : Token → Bool
  | .num _ => true
  | _ => false

/-- A number's text is read as that number. -/
def Token.readable : Token → Bool
  | .num d => (Numeral.text d).toList.all isNumeric
      && decide (number? (Numeral.text d).toList = some d)
  | _ => true

/-- The value's numbers are read back. -/
def Readable (v : Json) : Prop := (tokens v).all Token.readable = true

/-- No number stands before a number. -/
def Apart (ts : List Token) : Prop := ts.IsChain fun t u => (t.isNum && u.isNum) = false

theorem takeWhile_chars {t : Token} (h : t.isNum = false) (rest : List Char) :
    (t.chars ++ rest).takeWhile isNumeric = [] := by
  cases t with
  | num d => cases h
  | bool b => cases b <;> rfl
  | null | str | openArr | closeArr | openObj | closeObj | comma | colon => rfl

theorem lexeme?_symbol {t : Token} (h : t.isNum = false) (rest : List Char) :
    lexeme? (t.chars ++ rest) = some (some t, rest) := by
  rw [lexeme?, if_pos (takeWhile_chars h rest)]
  cases t with
  | num d => cases h
  | str s =>
      have hread := readString_flatMap s.toList rest
      rw [Token.chars, List.cons_append, List.append_assoc, List.singleton_append]
      change (readString _).map _ = _
      rw [hread, Option.map_some]
      dsimp only
      rw [join_map_toNat, String.ofList_toList]
  | bool b => cases b <;> rfl
  | null | openArr | closeArr | openObj | closeObj | comma | colon => rfl

theorem lexeme?_num {d : Numeral.Double} (h : (Token.num d).readable = true) {rest : List Char}
    (hrest : rest.takeWhile isNumeric = []) :
    lexeme? ((Token.num d).chars ++ rest) = some (some (.num d), rest) := by
  rw [Token.readable, Bool.and_eq_true, decide_eq_true_eq, List.all_eq_true] at h
  obtain ⟨hall, hnumber⟩ := h
  have htake : ((Numeral.text d).toList ++ rest).takeWhile isNumeric = (Numeral.text d).toList := by
    rw [List.takeWhile_append_of_pos hall, hrest, List.append_nil]
  have hdrop : ((Numeral.text d).toList ++ rest).dropWhile isNumeric = rest := by
    have hsplit := List.takeWhile_append_dropWhile (p := isNumeric)
      (l := (Numeral.text d).toList ++ rest)
    rw [htake] at hsplit
    exact List.append_cancel_left hsplit
  have hne : (Numeral.text d).toList ≠ [] := by
    intro hnil
    rw [hnil] at hnumber
    cases hnumber
  rw [Token.chars, lexeme?, htake, if_neg hne, hnumber, hdrop]
  rfl

theorem chars_ne_nil {t : Token} (h : t.readable = true) : t.chars ≠ [] := by
  cases t with
  | num d =>
      intro hnil
      have hnumber : number? (Token.num d).chars = some d := by
        rw [Token.readable, Bool.and_eq_true, decide_eq_true_eq] at h
        exact h.2
      rw [hnil] at hnumber
      cases hnumber
  | bool b => cases b <;> exact List.cons_ne_nil _ _
  | null | str | openArr | closeArr | openObj | closeObj | comma | colon =>
      exact List.cons_ne_nil _ _

/-- What tokens are written as is cut into these tokens. -/
theorem lex_chars {ts : List Token} (hread : ts.all Token.readable = true) (hapart : Apart ts)
    {n : Nat} (hn : (ts.flatMap Token.chars).length ≤ n) :
    lex n (ts.flatMap Token.chars) = some ts := by
  induction ts generalizing n with
  | nil => cases n <;> rfl
  | cons t ts ih =>
      rw [List.all_cons, Bool.and_eq_true] at hread
      rw [List.flatMap_cons] at hn ⊢
      have hhead : lexeme? (t.chars ++ ts.flatMap Token.chars)
          = some (some t, ts.flatMap Token.chars) := by
        by_cases hnum : t.isNum = false
        · exact lexeme?_symbol hnum _
        · cases t with
          | num d =>
              refine lexeme?_num hread.1 ?_
              cases ts with
              | nil => rfl
              | cons u ts =>
                  have hu : u.isNum = false := (List.isChain_cons_cons.mp hapart).1
                  exact takeWhile_chars hu _
          | null | bool | str | openArr | closeArr | openObj | closeObj | comma | colon =>
              exact absurd rfl hnum
      have hpos := List.length_pos_of_ne_nil (chars_ne_nil hread.1)
      rw [List.length_append] at hn
      cases n with
      | zero => omega
      | succ n =>
          rw [lex, hhead, Option.bind_some]
          · dsimp only
            rw [ih hread.2 hapart.of_cons (by omega)]
            rfl
          · simp [chars_ne_nil hread.1]

/-- What may stand behind a value: no number. -/
def Follows (ts : List Token) : Prop := Apart ts ∧ ∀ u ∈ ts.head?, u.isNum = false

theorem follows_symbol {t : Token} (ht : t.isNum = false) {ts : List Token} (h : Apart ts) :
    Follows (t :: ts) := by
  refine ⟨List.isChain_cons.mpr ⟨fun u _ => by rw [ht, Bool.false_and], h⟩, fun u hu => ?_⟩
  cases hu
  exact ht

mutual

theorem apart_tokens (v : Json) {ts : List Token} (h : Follows ts) : Apart (tokens v ++ ts) := by
  match v with
  | .null => exact (follows_symbol rfl h.1).1
  | .bool b => exact (follows_symbol rfl h.1).1
  | .num d =>
      exact List.isChain_cons.mpr ⟨fun u hu => by rw [h.2 u hu, Bool.and_false], h.1⟩
  | .str s => exact (follows_symbol rfl h.1).1
  | .arr [] => exact (follows_symbol rfl (follows_symbol rfl h.1).1).1
  | .arr (v :: items) =>
      have hclose : Follows (.closeArr :: ts) := follows_symbol rfl h.1
      rw [tokens, List.cons_append, List.append_assoc, List.append_assoc]
      exact (follows_symbol rfl (apart_tokens v (follows_itemTokens items hclose))).1
  | .obj [] => exact (follows_symbol rfl (follows_symbol rfl h.1).1).1
  | .obj ((key, v) :: members) =>
      have hclose : Follows (.closeObj :: ts) := follows_symbol rfl h.1
      have hvalue := apart_tokens v (follows_memberTokens members hclose)
      rw [tokens, List.cons_append, List.cons_append, List.cons_append, List.append_assoc,
        List.append_assoc]
      exact (follows_symbol rfl (follows_symbol rfl (follows_symbol rfl hvalue).1).1).1

theorem follows_itemTokens (items : List Json) {ts : List Token} (h : Follows ts) :
    Follows (itemTokens items ++ ts) := by
  match items with
  | [] => exact h
  | v :: items =>
      rw [itemTokens, List.cons_append, List.append_assoc]
      exact follows_symbol rfl (apart_tokens v (follows_itemTokens items h))

theorem follows_memberTokens (members : List (String × Json)) {ts : List Token}
    (h : Follows ts) : Follows (memberTokens members ++ ts) := by
  match members with
  | [] => exact h
  | (key, v) :: members =>
      have hvalue := apart_tokens v (follows_memberTokens members h)
      rw [memberTokens, List.cons_append, List.cons_append, List.cons_append, List.append_assoc]
      exact follows_symbol rfl (follows_symbol rfl (follows_symbol rfl hvalue).1).1

end

theorem parse_stringify {v : Json} (h : Readable v) : parse (stringify v) = some v := by
  have hapart : Apart (tokens v) := by
    have hnil : Follows [] := ⟨List.isChain_nil, fun u hu => by cases hu⟩
    simpa using apart_tokens v hnil
  have hrun := run_tokens v .value [] []
  rw [List.append_nil] at hrun
  rw [parse, stringify, String.toList_ofList, lex_chars h hapart le_rfl, Option.bind_some, hrun]
  rfl

/-! ## Values in the language -/

/-- `value[key]`; `none` is undefined. -/
def get (key : String) : Json → Option Json
  | .obj members => (members.reverse.find? fun m => decide (m.1 = key)).map Prod.snd
  | _ => none

/-- Whether a value counts as true. -/
def truthy : Json → Bool
  | .null => false
  | .bool b => b
  | .num d => decide (d ≠ .finite 0) && decide (d ≠ .nan)
  | .str s => decide (s ≠ "")
  | .arr _ => true
  | .obj _ => true

mutual

/-- `String(value)`; `none` is the error on an object that has a `toString` of
its own, as no value of JSON can be called. -/
def toText : Json → Option String
  | .null => some "null"
  | .bool b => some (if b then "true" else "false")
  | .num d => some (Numeral.text d)
  | .str s => some s
  | .arr items => (itemTexts items).map fun texts => String.intercalate "," texts
  | .obj members =>
      if (members.any fun m => decide (m.1 = "toString")) = true then none
      else some "[object Object]"

/-- The items' texts, where null is none. -/
def itemTexts : List Json → Option (List String)
  | [] => some []
  | .null :: items => (itemTexts items).map ("" :: ·)
  | v :: items => (toText v).bind fun text => (itemTexts items).map (text :: ·)

end

end Json

end PrivacyWallet
