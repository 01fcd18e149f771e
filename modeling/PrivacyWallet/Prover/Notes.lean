import PrivacyWallet.Circuits.Templates
import PrivacyWallet.Planner.Session

/-!
# Notes of the wallet

The hashes of the prover crate, the amounts as field elements, and
`try_decrypt_and_derive_user_note`, which finds the notes addressed to an
account. The permutation is the one of the circuits; keys are the number of
their 32 bytes.
-/

namespace PrivacyWallet

namespace Prover

open Circuits Planner

/-! ## Hashes -/

/-- `bytes_to_scalar` -/
def bytesToScalar (bytes : U256) : Fr := .fromBytes bytes

variable (P : Permutation)

/-- `derive_public_key` -/
def derivePublicKey (privateKey : U256) : Fr := P.t3 (bytesToScalar privateKey) 0 (.ofNat 3)

/-- `compute_commitment` -/
def computeCommitment (amount publicKey blinding : Fr) : Fr :=
  P.t4 amount publicKey blinding (.ofNat 1)

/-- `compute_signature` -/
def computeSignature (privateKey : U256) (commitment merklePath : Fr) : Fr :=
  P.t4 (bytesToScalar privateKey) commitment merklePath (.ofNat 4)

/-- `compute_nullifier` -/
def computeNullifier (commitment pathIndices signature : Fr) : Fr :=
  P.t4 commitment pathIndices signature (.ofNat 2)

/-- The nullifier of a note at a position. -/
def noteNullifier (privateKey : U256) (commitment pathIndices : Fr) : Fr :=
  computeNullifier P commitment pathIndices
    (computeSignature P privateKey commitment pathIndices)

/-! ## Amounts as field elements -/

/-- `Field::from(NoteAmount)` -/
def fieldOfNote (amount : NoteAmount) : Fr := .ofNat amount.val

/-- `Field::try_from(ExtAmount)`: a negative amount from the modulus down. -/
def fieldOfExt (amount : I128) : Option Fr :=
  let abs := amount.val.natAbs
  if bn256Modulus.val ≤ abs then none
  else if 0 ≤ amount.val then some (.ofNat abs)
  else some (.ofNat (bn256Modulus.val - abs))

/-- `NoteAmount::try_from(ExtAmount)` -/
def noteOfExt (amount : I128) : Option NoteAmount :=
  if h : 0 ≤ amount.val then
    some ⟨amount.val.toNat, by have := amount.hi; omega⟩
  else none

theorem two_pow_128_lt_modulus : 2 ^ 128 < bn256Modulus.val :=
  lt_of_lt_of_le (by norm_num) two_pow_253_lt_modulus.le

theorem fieldOfNote_val (amount : NoteAmount) : (fieldOfNote amount).val = amount.val :=
  Nat.mod_eq_of_lt (amount.lt.trans two_pow_128_lt_modulus)

theorem noteOfExt_eq_some {amount : I128} {note : NoteAmount} (h : noteOfExt amount = some note) :
    (note.val : Int) = amount.val := by
  unfold noteOfExt at h
  split at h
  · cases h
    show ((amount.val.toNat : Nat) : Int) = _
    omega
  · cases h

/-- The residue of the amount. -/
theorem fieldOfExt_eq_some {amount : I128} {f : Fr} (h : fieldOfExt amount = some f) :
    (f.val : Int) = amount.val % bn256Modulus.val := by
  have hmod := two_pow_128_lt_modulus
  unfold fieldOfExt at h
  dsimp only at h
  split at h
  · cases h
  split at h
  · cases h
    rw [Bn254Fr.val_ofNat, Nat.mod_eq_of_lt (by omega), Int.emod_eq_of_lt (by omega) (by omega)]
    omega
  · cases h
    rw [Bn254Fr.val_ofNat, Nat.mod_eq_of_lt (by omega), ← Int.add_emod_right,
      Int.emod_eq_of_lt (by omega) (by omega)]
    omega

/-! ## Finding notes -/

/-- `NoteKeyPair` -/
structure NoteKeyPair where
  privateKey : U256
  publicKey : U256
deriving DecidableEq

/-- `DerivedUserNote` -/
structure DerivedUserNote where
  amount : NoteAmount
  blinding : Fr
  expectedNullifier : Fr
deriving DecidableEq

/-- `try_decrypt_and_derive_user_note`; `decrypted` is the answer of
`decrypt_output_note`, `none` if the output is for somebody else. -/
def tryDeriveUserNote (keys : NoteKeyPair) (decrypted : Option (NoteAmount × Fr))
    (commitment : Fr) (leafIndex : Nat) : Option DerivedUserNote :=
  decrypted.bind fun (amount, blinding) =>
    if amount.val = 0 then none
    else if computeCommitment P (fieldOfNote amount) (bytesToScalar keys.publicKey) blinding
        ≠ commitment then none
    else
      some
        { amount, blinding
          expectedNullifier := noteNullifier P keys.privateKey commitment (.ofNat leafIndex) }

/-- A derived note is worth something, and opens its commitment; the nullifier
that is expected of it is the circuit's. -/
theorem tryDeriveUserNote_eq_some {keys : NoteKeyPair} {decrypted : Option (NoteAmount × Fr)}
    {commitment : Fr} {leafIndex : Nat} {derived : DerivedUserNote}
    (h : tryDeriveUserNote P keys decrypted commitment leafIndex = some derived) :
    derived.amount.val ≠ 0 ∧
      P.commitment (fieldOfNote derived.amount) (bytesToScalar keys.publicKey) derived.blinding
        = commitment ∧
      derived.expectedNullifier
        = P.nullifier (bytesToScalar keys.privateKey) commitment (.ofNat leafIndex) := by
  obtain ⟨⟨amount, blinding⟩, -, h⟩ := Option.bind_eq_some_iff.mp h
  dsimp only at h
  split at h
  · cases h
  · rename_i hamount
    split at h
    · cases h
    · rename_i hcommitment
      cases h
      exact ⟨hamount, not_not.mp hcommitment, rfl⟩

end Prover

end PrivacyWallet
