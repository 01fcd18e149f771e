import Mathlib.Algebra.Order.Ring.Int
import Mathlib.Order.Basic
import Mathlib.Tactic.NormNum

/-!
# Machine integers

The integer types of the contract language carry their range, so a value
out of range cannot be built and an operation that could leave the range
says so in its type: the checked operations return an option. A caller
turns `none` into the error it names, or into the trap of an overflow
check.
-/

namespace PrivacyWallet

/-! ## Signed words -/

/-- A signed integer of `n` bits. -/
structure Signed (n : Nat) where
  val : Int
  lo : -2 ^ (n - 1) ≤ val
  hi : val < 2 ^ (n - 1)
deriving DecidableEq

abbrev I128 : Type := Signed 128

abbrev I256 : Type := Signed 256

namespace Signed

variable {n : Nat} {a b c : Signed n}

theorem val_injective : Function.Injective (val : Signed n → Int) := by
  rintro ⟨a, _, _⟩ ⟨b, _, _⟩ rfl
  rfl

instance : LinearOrder (Signed n) := LinearOrder.lift' val val_injective

instance : Zero (Signed n) :=
  ⟨0, by have : (0 : Int) < 2 ^ (n - 1) := by positivity
         omega, by positivity⟩

@[simp] theorem le_def : a ≤ b ↔ a.val ≤ b.val := Iff.rfl

@[simp] theorem lt_def : a < b ↔ a.val < b.val := Iff.rfl

@[simp] theorem val_zero : (0 : Signed n).val = 0 := rfl

theorem ext_val (h : a.val = b.val) : a = b := val_injective h

@[simp] theorem val_max : (max a b).val = max a.val b.val := by
  rcases le_total a b with h | h
  · rw [max_eq_right h, max_eq_right (le_def.mp h)]
  · rw [max_eq_left h, max_eq_left (le_def.mp h)]

@[simp] theorem val_min : (min a b).val = min a.val b.val := by
  rcases le_total a b with h | h
  · rw [min_eq_left h, min_eq_left (le_def.mp h)]
  · rw [min_eq_right h, min_eq_right (le_def.mp h)]

/-- The word with a given value, if there is one. -/
def ofInt? (v : Int) : Option (Signed n) :=
  if h : -2 ^ (n - 1) ≤ v ∧ v < 2 ^ (n - 1) then some ⟨v, h.1, h.2⟩ else none

theorem ofInt?_eq_some {v : Int} : ofInt? v = some a ↔ a.val = v := by
  unfold ofInt?
  constructor
  · intro h
    split at h
    · exact (congrArg val (Option.some.inj h)).symm
    · cases h
  · rintro rfl
    rw [dif_pos ⟨a.lo, a.hi⟩]

theorem ofInt?_eq_none {v : Int} :
    (ofInt? v : Option (Signed n)) = none ↔ v < -2 ^ (n - 1) ∨ 2 ^ (n - 1) ≤ v := by
  unfold ofInt?
  split
  · simp; omega
  · simp; omega

def checkedAdd (a b : Signed n) : Option (Signed n) := ofInt? (a.val + b.val)

def checkedSub (a b : Signed n) : Option (Signed n) := ofInt? (a.val - b.val)

def checkedMul (a b : Signed n) : Option (Signed n) := ofInt? (a.val * b.val)

@[simp] theorem checkedAdd_eq_some :
    checkedAdd a b = some c ↔ c.val = a.val + b.val := ofInt?_eq_some

@[simp] theorem checkedSub_eq_some :
    checkedSub a b = some c ↔ c.val = a.val - b.val := ofInt?_eq_some

@[simp] theorem checkedMul_eq_some :
    checkedMul a b = some c ↔ c.val = a.val * b.val := ofInt?_eq_some

end Signed

/-! ## Casts between `i128` and `u128` -/

/-- `v as u128`: the same 128 bits. -/
def Signed.asU128 (v : I128) : Nat := (v.val % 2 ^ 128).toNat

/-- `n as i128`: the same 128 bits. -/
def Signed.ofU128 (n : Nat) : I128 where
  val := Int.bmod n (2 ^ 128)
  lo := by have := Int.le_bmod (x := (n : Int)) (m := 2 ^ 128) (by norm_num); omega
  hi := by have := Int.bmod_lt (x := (n : Int)) (m := 2 ^ 128) (by norm_num); omega

/-- `u128::div_ceil` -/
def divCeil (a b : Nat) : Nat := if a % b = 0 then a / b else a / b + 1

theorem Signed.asU128_val {v : I128} (h : 0 ≤ v.val) : (v.asU128 : Int) = v.val := by
  have hhi : v.val < 2 ^ 128 := v.hi.trans (by norm_num)
  simp only [asU128, Int.emod_eq_of_lt h hhi, Int.toNat_of_nonneg h]

theorem Signed.ofU128_val {n : Nat} (h : n < 2 ^ 127) : (ofU128 n).val = n := by
  unfold ofU128
  dsimp only
  rw [Int.bmod_def]
  norm_num
  omega

/-- Rounding up is adjoint to multiplication. -/
theorem divCeil_le_iff {a b k : Nat} (hb : 0 < b) : divCeil a b ≤ k ↔ a ≤ k * b := by
  have hdiv := Nat.div_add_mod a b
  have hmod := Nat.mod_lt a hb
  unfold divCeil
  split
  · rename_i hz
    rw [hz, Nat.add_zero] at hdiv
    rw [← hdiv, Nat.mul_comm k b, Nat.mul_div_cancel_left _ hb]
    exact (Nat.mul_le_mul_left_iff hb).symm
  · rename_i hz
    rw [Nat.add_one_le_iff, Nat.div_lt_iff_lt_mul hb]
    refine ⟨Nat.le_of_lt, fun hle => lt_of_le_of_ne hle fun heq => hz ?_⟩
    rw [heq, Nat.mul_mod_left]

theorem le_divCeil_mul {a b : Nat} (hb : 0 < b) : a ≤ divCeil a b * b :=
  (divCeil_le_iff hb).mp (le_refl _)

theorem divCeil_pos {a b : Nat} (ha : 0 < a) (hb : 0 < b) : 0 < divCeil a b := by
  rw [Nat.pos_iff_ne_zero]
  intro hz
  have hle := le_divCeil_mul (a := a) hb
  rw [hz, Nat.zero_mul] at hle
  omega

theorem divCeil_le_self {a b : Nat} (hb : 0 < b) : divCeil a b ≤ a :=
  (divCeil_le_iff hb).mpr (Nat.le_mul_of_pos_right a hb)

/-! ## Unsigned 256-bit words -/

structure U256 where
  val : Nat
  lt : val < 2 ^ 256
deriving DecidableEq

namespace U256

variable {a b c : U256}

theorem val_injective : Function.Injective val := by
  rintro ⟨a, _⟩ ⟨b, _⟩ rfl
  rfl

instance : LinearOrder U256 := LinearOrder.lift' val val_injective

instance : Zero U256 := ⟨0, by norm_num⟩

@[simp] theorem le_def : a ≤ b ↔ a.val ≤ b.val := Iff.rfl

@[simp] theorem lt_def : a < b ↔ a.val < b.val := Iff.rfl

theorem ext_val (h : a.val = b.val) : a = b := val_injective h

/-- `U256::from_parts`: four limbs of 64 bits, the highest first. -/
def fromParts (hiHi hiLo loHi loLo : UInt64) : U256 where
  val := ((hiHi.toNat * 2 ^ 64 + hiLo.toNat) * 2 ^ 64 + loHi.toNat) * 2 ^ 64
    + loLo.toNat
  lt := by
    have h1 := hiHi.toNat_lt
    have h2 := hiLo.toNat_lt
    have h3 := loHi.toNat_lt
    have h4 := loLo.toNat_lt
    omega

def checkedSub (a b : U256) : Option U256 :=
  if b.val ≤ a.val then some ⟨a.val - b.val, by have := a.lt; omega⟩ else none

theorem checkedSub_eq_some :
    checkedSub a b = some c ↔ b.val ≤ a.val ∧ c.val = a.val - b.val := by
  unfold checkedSub
  split
  · rename_i h
    constructor
    · rintro h'
      exact ⟨h, (congrArg val (Option.some.inj h')).symm⟩
    · rintro ⟨-, hc⟩
      exact congrArg some (ext_val hc.symm)
  · rename_i h
    simp [h]

end U256

/-- The 32 bytes of an `I256` read as a `U256`. -/
def Signed.toU256 (v : I256) : U256 where
  val := (v.val % 2 ^ 256).toNat
  lt := by have := Int.emod_lt_of_pos v.val (b := 2 ^ 256) (by norm_num); omega

theorem Signed.toU256_val {v : I256} (h : 0 ≤ v.val) : (v.toU256.val : Int) = v.val := by
  have hhi := v.hi
  have : v.val % 2 ^ 256 = v.val := Int.emod_eq_of_lt h (by norm_num at hhi ⊢; omega)
  simp only [toU256, this]
  omega

/-- `I256::to_i128` -/
def Signed.toI128 (v : I256) : Option I128 := Signed.ofInt? v.val

@[simp] theorem Signed.toI128_eq_some {v : I256} {a : I128} :
    v.toI128 = some a ↔ a.val = v.val := Signed.ofInt?_eq_some

/-! ## The scalar field of BN254 -/

/-- `BN256_MOD_BYTES` -/
def bn256ModBytes : List UInt8 :=
  [48, 100, 78, 114, 225, 49, 160, 41, 184, 80, 69, 182, 129, 129, 88, 93, 40,
    51, 232, 72, 121, 185, 112, 145, 67, 225, 245, 147, 240, 0, 0, 1]

/-- The number a big-endian byte string stands for. -/
def beNat (bytes : List UInt8) : Nat :=
  bytes.foldl (fun n b => n * 256 + b.toNat) 0

/-- `bn256_modulus` -/
def bn256Modulus : U256 := ⟨beNat bn256ModBytes, by decide⟩

theorem bn256Modulus_pos : 0 < bn256Modulus.val := by decide

/-- Amounts of up to 253 bits are far below the modulus. -/
theorem two_pow_253_lt_modulus : 2 ^ 253 < bn256Modulus.val := by decide

/-- A residue modulo `bn256Modulus`. -/
structure Bn254Fr where
  val : Nat
  lt : val < bn256Modulus.val
deriving DecidableEq

theorem Bn254Fr.ext_val {a b : Bn254Fr} (h : a.val = b.val) : a = b := by
  cases a; cases b; cases h; rfl

/-- `U256::rem_euclid` by the modulus. -/
def U256.reduce (v : U256) : U256 where
  val := v.val % bn256Modulus.val
  lt := (Nat.mod_lt _ bn256Modulus_pos).trans bn256Modulus.lt

/-- `Bn254Fr::from_bytes` on the 32 bytes of a `U256`. -/
def Bn254Fr.fromBytes (v : U256) : Bn254Fr :=
  ⟨v.val % bn256Modulus.val, Nat.mod_lt _ bn256Modulus_pos⟩

/-- The canonical encoding of a residue. -/
def Bn254Fr.toU256 (v : Bn254Fr) : U256 := ⟨v.val, v.lt.trans bn256Modulus.lt⟩

@[simp] theorem Bn254Fr.fromBytes_toU256 (v : Bn254Fr) : fromBytes v.toU256 = v :=
  ext_val (Nat.mod_eq_of_lt v.lt)

theorem Bn254Fr.toU256_fromBytes {a : U256} (ha : a < bn256Modulus) :
    (fromBytes a).toU256 = a :=
  U256.ext_val (Nat.mod_eq_of_lt (U256.lt_def.mp ha))

theorem Bn254Fr.toU256_injective : Function.Injective toU256 :=
  Function.LeftInverse.injective fromBytes_toU256

/-- Canonical encodings of one residue are equal. -/
theorem Bn254Fr.fromBytes_injOn {a b : U256} (ha : a < bn256Modulus)
    (hb : b < bn256Modulus) (h : fromBytes a = fromBytes b) : a = b := by
  rw [← toU256_fromBytes ha, ← toU256_fromBytes hb, h]

end PrivacyWallet
