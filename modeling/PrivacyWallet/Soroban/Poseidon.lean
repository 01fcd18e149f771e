import PrivacyWallet.Soroban.Words

/-!
# Poseidon2 over BN254

The hash functions of `soroban-utils`. The permutation is a function of
the host; what the contracts add is the range check of the inputs and, in
compression mode, the feed-forward of the left input.
-/

namespace PrivacyWallet

/-- `U256::add`, which traps on overflow. -/
def U256.checkedAdd (a b : U256) : Option U256 :=
  if h : a.val + b.val < 2 ^ 256 then some ⟨a.val + b.val, h⟩ else none

def U256.one : U256 := ⟨1, by decide⟩

/-- `CryptoHazmat::poseidon2_permutation` over BN254 with the parameters
for two and for three elements: the first element of its result, which is
a field element. -/
structure Poseidon2 where
  permuteT2 : U256 → U256 → U256
  permuteT3 : U256 → U256 → U256 → U256
  permuteT2_lt : ∀ a b, permuteT2 a b < bn256Modulus
  permuteT3_lt : ∀ a b c, permuteT3 a b c < bn256Modulus

namespace Poseidon2

variable (p : Poseidon2)

/-- `poseidon2_compress`; a panic is `none`. -/
def compress (left right : U256) : Option U256 :=
  if left ≥ bn256Modulus ∨ right ≥ bn256Modulus then none
  else do
    let compressed0 ← (p.permuteT2 left right).checkedAdd left
    if compressed0 ≥ bn256Modulus then some compressed0.reduce else some compressed0

/-- `poseidon2_hash2` -/
def hash2 (a b : U256) (sep : Option U256) : Option U256 :=
  let sep := sep.getD 0
  if a ≥ bn256Modulus ∨ b ≥ bn256Modulus ∨ sep ≥ bn256Modulus then none
  else some (p.permuteT3 a b sep)

/-- The compression as a function of field elements. -/
def compressed (left right : U256) : U256 :=
  (⟨((p.permuteT2 left right).val + left.val) % bn256Modulus.val,
    (Nat.mod_lt _ bn256Modulus_pos).trans bn256Modulus.lt⟩ : U256)

theorem compressed_lt (left right : U256) : p.compressed left right < bn256Modulus :=
  Nat.mod_lt _ bn256Modulus_pos

/-- Two field elements never overflow a word. -/
theorem two_moduli_fit : bn256Modulus.val + bn256Modulus.val < 2 ^ 256 := by decide

theorem compress_eq {left right : U256} (hl : left < bn256Modulus) (hr : right < bn256Modulus) :
    p.compress left right = some (p.compressed left right) := by
  have hout := U256.lt_def.mp (p.permuteT2_lt left right)
  have hsum := two_moduli_fit
  have hleft := U256.lt_def.mp hl
  have hfit : (p.permuteT2 left right).val + left.val < 2 ^ 256 := by omega
  rw [compress, if_neg fun h => h.elim (not_le_of_gt hl) (not_le_of_gt hr)]
  show (U256.checkedAdd _ _).bind _ = _
  rw [U256.checkedAdd, dif_pos hfit, Option.bind_some]
  split
  · rfl
  · rename_i hlt
    rw [ge_iff_le, not_le, U256.lt_def] at hlt
    exact congrArg some (U256.ext_val (Nat.mod_eq_of_lt hlt).symm)

theorem compress_eq_some {left right u : U256} : p.compress left right = some u ↔
    left < bn256Modulus ∧ right < bn256Modulus ∧ u = p.compressed left right := by
  constructor
  · intro h
    by_cases hrange : left ≥ bn256Modulus ∨ right ≥ bn256Modulus
    · rw [compress, if_pos hrange] at h
      cases h
    · rw [not_or, ge_iff_le, ge_iff_le, not_le, not_le] at hrange
      rw [p.compress_eq hrange.1 hrange.2, Option.some.injEq] at h
      exact ⟨hrange.1, hrange.2, h.symm⟩
  · rintro ⟨hl, hr, rfl⟩
    exact p.compress_eq hl hr

theorem hash2_eq {a b : U256} (ha : a < bn256Modulus) (hb : b < bn256Modulus) {sep : U256}
    (hs : sep < bn256Modulus) : p.hash2 a b (some sep) = some (p.permuteT3 a b sep) :=
  if_neg fun h => h.elim (not_le_of_gt ha) fun h => h.elim (not_le_of_gt hb) (not_le_of_gt hs)

theorem hash2_eq_some {a b sep u : U256} : p.hash2 a b (some sep) = some u ↔
    a < bn256Modulus ∧ b < bn256Modulus ∧ sep < bn256Modulus ∧ u = p.permuteT3 a b sep := by
  rw [hash2, Option.getD_some]
  constructor
  · intro h
    split at h
    · cases h
    · rename_i hrange
      rw [not_or, not_or] at hrange
      exact ⟨lt_of_not_ge hrange.1, lt_of_not_ge hrange.2.1, lt_of_not_ge hrange.2.2,
        (Option.some.inj h).symm⟩
  · rintro ⟨ha, hb, hs, rfl⟩
    exact if_neg fun h =>
      h.elim (not_le_of_gt ha) fun h => h.elim (not_le_of_gt hb) (not_le_of_gt hs)

end Poseidon2

/-- A hash for runs on small numbers. -/
def smallHash : Poseidon2 where
  permuteT2 a b := ⟨(a.val * 7919 + b.val * 104729 + a.val * b.val * 31 + 17) % 1000003,
    (Nat.mod_lt _ (by decide)).trans (by decide)⟩
  permuteT3 a b c := ⟨(a.val * 104723 + b.val * 1299709 + c.val + 99) % 1000003,
    (Nat.mod_lt _ (by decide)).trans (by decide)⟩
  permuteT2_lt _ _ := (Nat.mod_lt _ (by decide)).trans (by decide)
  permuteT3_lt _ _ _ := (Nat.mod_lt _ (by decide)).trans (by decide)

end PrivacyWallet
