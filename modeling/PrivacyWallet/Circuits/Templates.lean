import PrivacyWallet.Lib.BinaryTree
import PrivacyWallet.Soroban.Words

/-!
# The templates of the transaction circuits

Signals are residues modulo the scalar field, and a template is the
relation that its constraints put on its signals. A signal that the template
assigns as a function of others (`<==` on a hash) is that function; the
inner signals of the library templates stay relations.

The library of gates the circuits include is not part of the repository:
`Circomlib` has the relations of the gates that are used and `Documented`
what their documentation says of them. The permutation is a parameter too,
with the first element of its output for each width.
-/

namespace PrivacyWallet

namespace Bn254Fr

def ofNat (n : Nat) : Bn254Fr := ⟨n % bn256Modulus.val, Nat.mod_lt _ bn256Modulus_pos⟩

instance : Zero Bn254Fr := ⟨ofNat 0⟩

instance : One Bn254Fr := ⟨ofNat 1⟩

instance : Add Bn254Fr := ⟨fun a b => ofNat (a.val + b.val)⟩

instance : Mul Bn254Fr := ⟨fun a b => ofNat (a.val * b.val)⟩

instance : Sub Bn254Fr := ⟨fun a b => ofNat (a.val + (bn256Modulus.val - b.val))⟩

@[simp] theorem val_ofNat (n : Nat) : (ofNat n).val = n % bn256Modulus.val := rfl

@[simp] theorem val_zero : (0 : Bn254Fr).val = 0 := rfl

@[simp] theorem val_add (a b : Bn254Fr) : (a + b).val = (a.val + b.val) % bn256Modulus.val := rfl

theorem zero_ne_one : (0 : Bn254Fr) ≠ 1 := by decide

theorem ofNat_val (a : Bn254Fr) : ofNat a.val = a := ext_val (Nat.mod_eq_of_lt a.lt)

@[simp] theorem add_zero (a : Bn254Fr) : a + 0 = a := ofNat_val a

@[simp] theorem zero_add (a : Bn254Fr) : 0 + a = a := by
  refine ext_val ?_
  rw [val_add, val_zero, Nat.zero_add, Nat.mod_eq_of_lt a.lt]

@[simp] theorem mul_zero (a : Bn254Fr) : a * 0 = 0 := rfl

@[simp] theorem mul_one (a : Bn254Fr) : a * 1 = a := by
  change ofNat (a.val * 1) = a
  rw [Nat.mul_one, ofNat_val]

/-- `var sum = 0; for (..) sum += xs[i]` -/
def sum (xs : List Bn254Fr) : Bn254Fr := xs.foldl (· + ·) 0

theorem foldl_val (xs : List Bn254Fr) : ∀ acc : Bn254Fr,
    (xs.foldl (· + ·) acc).val = (acc.val + (xs.map val).sum) % bn256Modulus.val := by
  induction xs with
  | nil =>
      intro acc
      rw [List.map_nil, List.sum_nil, Nat.add_zero]
      exact (Nat.mod_eq_of_lt acc.lt).symm
  | cons x xs ih =>
      intro acc
      rw [List.foldl_cons, ih, List.map_cons, List.sum_cons, val_add, Nat.mod_add_mod,
        Nat.add_assoc]

theorem sum_val (xs : List Bn254Fr) :
    (sum xs).val = (xs.map val).sum % bn256Modulus.val := by
  rw [sum, foldl_val, val_zero, Nat.zero_add]

end Bn254Fr

namespace Circuits

abbrev Fr : Type := Bn254Fr

/-- The bit of a number as a signal. -/
def bitSignal (b : Bool) : Fr := if b then 1 else 0

theorem bitSignal_injective : Function.Injective bitSignal := by
  intro a b h
  cases a with
  | false =>
      cases b with
      | false => rfl
      | true => exact absurd h Bn254Fr.zero_ne_one
  | true =>
      cases b with
      | false => exact absurd h.symm Bn254Fr.zero_ne_one
      | true => rfl

/-! ## The library -/

/-- The signals of the sparse tree's state machine at one level. -/
structure SMTState where
  top : Fr
  i0 : Fr
  iold : Fr
  inew : Fr
  na : Fr

/-- The gates, as relations between their signals in the order of their
declaration. -/
structure Circomlib where
  Num2Bits : (n : Nat) → Fr → (Fin n → Fr) → Prop
  /-- `Num2Bits_strict`, with the signals `out[i]` for `i < 254` -/
  Num2BitsStrict : Fr → (Nat → Fr) → Prop
  Switcher : (sel L R outL outR : Fr) → Prop
  IsEqual : (in0 in1 out : Fr) → Prop
  ForceEqualIfEnabled : (enabled in0 in1 : Fr) → Prop
  /-- `MultiAND(n)` of `n` inputs -/
  MultiAND : List Fr → Fr → Prop
  SMTLevIns : (nLevels : Nat) → (enabled : Fr) → (siblings levIns : Fin nLevels → Fr) → Prop
  SMTVerifierSM : (levIns is0 fnc : Fr) → (prev st : SMTState) → Prop

/-- What the gates are documented to do. -/
structure Circomlib.Documented (C : Circomlib) : Prop where
  /-- `out` are the bits of `in`, unique below the size of the field -/
  num2Bits : ∀ {n : Nat} {a : Fr} {out : Fin n → Fr}, n ≤ 253 → C.Num2Bits n a out →
    a.val < 2 ^ n ∧ ∀ i, out i = bitSignal (a.val.testBit i)
  /-- `sel` swaps the two inputs -/
  switcher : ∀ {sel L R outL outR : Fr}, C.Switcher sel L R outL outR →
    (sel = 0 → outL = L ∧ outR = R) ∧ (sel = 1 → outL = R ∧ outR = L)
  isEqual : ∀ {a b out : Fr}, C.IsEqual a b out → out = if a = b then 1 else 0
  forceEqualIfEnabled : ∀ {enabled a b : Fr}, C.ForceEqualIfEnabled enabled a b →
    enabled ≠ 0 → a = b

/-- What the gates are documented to accept. -/
structure Circomlib.Complete (C : Circomlib) : Prop where
  num2Bits : ∀ {n : Nat} {a : Fr}, a.val < 2 ^ n →
    C.Num2Bits n a fun i => bitSignal (a.val.testBit i)
  switcher : ∀ (b : Bool) (L R : Fr),
    C.Switcher (bitSignal b) L R (if b then R else L) (if b then L else R)
  isEqual : ∀ a b : Fr, C.IsEqual a b (if a = b then 1 else 0)
  forceEqualIfEnabled : ∀ {enabled a b : Fr}, (enabled ≠ 0 → a = b) →
    C.ForceEqualIfEnabled enabled a b

/-- The state of the sparse tree's verifier at a level. -/
inductive SMTStatus where
  | top
  | i0
  | iold
  | inew
  | na
deriving DecidableEq

/-- One signal is set. -/
def SMTStatus.signals : SMTStatus → SMTState
  | .top => ⟨1, 0, 0, 0, 0⟩
  | .i0 => ⟨0, 1, 0, 0, 0⟩
  | .iold => ⟨0, 0, 1, 0, 0⟩
  | .inew => ⟨0, 0, 0, 1, 0⟩
  | .na => ⟨0, 0, 0, 0, 1⟩

/-- The state of the level below, in a proof that a key is not there. -/
def SMTStatus.next (levIns is0 : Bool) : SMTStatus → SMTStatus
  | .top => if levIns then (if is0 then .i0 else .iold) else .top
  | _ => .na

/-- `levIns` for each level: all siblings from there on are zero, and the one
above is not. The root counts as having such a one above. -/
def levInsOf : (above : Bool) → List Fr → List Bool
  | _, [] => []
  | above, sibling :: rest =>
      (above && (sibling :: rest).all fun s => decide (s = 0))
        :: levInsOf (decide (sibling ≠ 0)) rest

/-- What the gates of the sparse tree are documented to do, where the tree is
enabled and the key is to be absent. -/
structure Circomlib.SmtDocumented (C : Circomlib) : Prop where
  num2BitsStrict : ∀ {a : Fr} {out : Nat → Fr}, C.Num2BitsStrict a out →
    ∀ i < 254, out i = bitSignal (a.val.testBit i)
  multiAND : ∀ {bits : List Bool} {out : Fr}, C.MultiAND (bits.map bitSignal) out →
    out = bitSignal (bits.all id)
  /-- the last sibling must be zero -/
  smtLevIns : ∀ {nLevels : Nat} {siblings levIns : Fin nLevels → Fr},
    C.SMTLevIns nLevels 1 siblings levIns →
      (∀ last ∈ (List.ofFn siblings).getLast?, last = 0) ∧
        List.ofFn levIns = (levInsOf true (List.ofFn siblings)).map bitSignal
  smtVerifierSM : ∀ {levIns is0 : Bool} {prev : SMTStatus} {st : SMTState},
    C.SMTVerifierSM (bitSignal levIns) (bitSignal is0) 1 prev.signals st →
      st = (prev.next levIns is0).signals

/-- What they are documented to accept. -/
structure Circomlib.SmtComplete (C : Circomlib) : Prop where
  num2BitsStrict : ∀ a : Fr, C.Num2BitsStrict a fun i => bitSignal (a.val.testBit i)
  multiAND : ∀ bits : List Bool, C.MultiAND (bits.map bitSignal) (bitSignal (bits.all id))
  smtLevIns : ∀ {nLevels : Nat} {siblings levIns : Fin nLevels → Fr},
    (∀ last ∈ (List.ofFn siblings).getLast?, last = 0) →
    List.ofFn levIns = (levInsOf true (List.ofFn siblings)).map bitSignal →
      C.SMTLevIns nLevels 1 siblings levIns
  smtVerifierSM : ∀ (levIns is0 : Bool) (prev : SMTStatus),
    C.SMTVerifierSM (bitSignal levIns) (bitSignal is0) 1 prev.signals
      (prev.next levIns is0).signals

/-- The gates as their documentation has them. -/
def Circomlib.plain : Circomlib where
  Num2Bits n a out := a.val < 2 ^ n ∧ ∀ i, out i = bitSignal (a.val.testBit i)
  Num2BitsStrict a out := ∀ i < 254, out i = bitSignal (a.val.testBit i)
  MultiAND signals out := ∀ bits : List Bool, signals = bits.map bitSignal →
    out = bitSignal (bits.all id)
  SMTLevIns _ enabled siblings levIns := enabled = 1 →
    (∀ last ∈ (List.ofFn siblings).getLast?, last = 0) ∧
      List.ofFn levIns = (levInsOf true (List.ofFn siblings)).map bitSignal
  SMTVerifierSM levIns is0 fnc prev st := ∀ (l z : Bool) (s : SMTStatus),
    levIns = bitSignal l → is0 = bitSignal z → fnc = 1 → prev = s.signals →
      st = (s.next l z).signals
  Switcher sel L R outL outR :=
    outL = (if sel = 1 then R else L) ∧ outR = (if sel = 1 then L else R)
  IsEqual a b out := out = if a = b then 1 else 0
  ForceEqualIfEnabled enabled a b := enabled ≠ 0 → a = b

theorem Circomlib.plain_documented : Circomlib.plain.Documented where
  num2Bits _ h := h
  switcher := by
    rintro sel L R outL outR ⟨rfl, rfl⟩
    refine ⟨fun hsel => ?_, fun hsel => ?_⟩
    · simp [hsel, Bn254Fr.zero_ne_one]
    · simp [hsel]
  isEqual h := h
  forceEqualIfEnabled h := h

theorem Circomlib.plain_complete : Circomlib.plain.Complete where
  num2Bits h := ⟨h, fun _ => rfl⟩
  switcher b L R := by
    cases b with
    | false => exact ⟨(if_neg Bn254Fr.zero_ne_one).symm, (if_neg Bn254Fr.zero_ne_one).symm⟩
    | true => exact ⟨(if_pos rfl).symm, (if_pos rfl).symm⟩
  isEqual _ _ := rfl
  forceEqualIfEnabled h := h

theorem Circomlib.plain_smtDocumented : Circomlib.plain.SmtDocumented where
  num2BitsStrict h := h
  multiAND h := h _ rfl
  smtLevIns h := h rfl
  smtVerifierSM h := h _ _ _ rfl rfl rfl rfl

theorem SMTStatus.signals_injective : Function.Injective SMTStatus.signals := by
  intro s s' h
  have hsignals : ∀ s s' : SMTStatus, s.signals.top = s'.signals.top →
      s.signals.i0 = s'.signals.i0 → s.signals.iold = s'.signals.iold →
        s.signals.inew = s'.signals.inew → s = s' := by
    intro s s'
    cases s <;> cases s' <;> decide
  refine hsignals s s' ?_ ?_ ?_ ?_ <;> rw [h]

theorem Circomlib.plain_smtComplete : Circomlib.plain.SmtComplete where
  num2BitsStrict _ _ _ := rfl
  multiAND bits bits' h := by
    have hbits : bits = bits' := (List.map_inj_right fun _ _ hab => bitSignal_injective hab).mp h
    rw [hbits]
  smtLevIns hlast hlevIns _ := ⟨hlast, hlevIns⟩
  smtVerifierSM levIns is0 prev l z s hl hz _ hs := by
    rw [bitSignal_injective hl, bitSignal_injective hz, SMTStatus.signals_injective hs]

/-- The first element of the output of `Permutation(t)`. -/
structure Permutation where
  t2 : Fr → Fr → Fr
  t3 : Fr → Fr → Fr → Fr
  t4 : Fr → Fr → Fr → Fr → Fr

namespace Permutation

variable (P : Permutation)

/-- `Poseidon2(2)` -/
def hash2 (a b domainSeparation : Fr) : Fr := P.t3 a b domainSeparation

/-- `Poseidon2(3)` -/
def hash3 (a b c domainSeparation : Fr) : Fr := P.t4 a b c domainSeparation

/-- `PoseidonCompress` -/
def compress (a b : Fr) : Fr := P.t2 a b + a

/-! ## Keys, notes and nullifiers -/

/-- `Keypair` -/
def keypair (privateKey : Fr) : Fr := P.hash2 privateKey 0 (.ofNat 0x03)

/-- `Signature` -/
def signature (privateKey commitment merklePath : Fr) : Fr :=
  P.hash3 privateKey commitment merklePath (.ofNat 0x04)

/-- The commitment to a note. -/
def commitment (amount publicKey blinding : Fr) : Fr :=
  P.hash3 amount publicKey blinding (.ofNat 0x01)

/-- The nullifier of a note at a position, for the holder of its key. -/
def nullifier (privateKey commitment pathIndices : Fr) : Fr :=
  P.hash3 commitment pathIndices (P.signature privateKey commitment pathIndices) (.ofNat 0x02)

end Permutation

/-! ## Paths -/

section Paths

variable (C : Circomlib) (P : Permutation)

/-- The switchers and hashers of `MerkleProof` from one level on; `cur` is
the output of the hasher below. -/
def MerkleChain : Fr → List (Fr × Fr) → Fr → Prop
  | cur, [], root => root = cur
  | cur, (sel, pathElement) :: rest, root =>
      ∃ outL outR, C.Switcher sel cur pathElement outL outR ∧
        MerkleChain (P.compress outL outR) rest root

/-- `MerkleProof(levels)` -/
def MerkleProof (levels : Nat) (leaf : Fr) (pathElements : Fin levels → Fr)
    (pathIndices root : Fr) : Prop :=
  ∃ indexBits : Fin levels → Fr, C.Num2Bits levels pathIndices indexBits ∧
    MerkleChain C P leaf (List.ofFn fun i => (indexBits i, pathElements i)) root

variable {C P}

open PrivacyWallet.BinaryTree

/-- The chain over bits is a climb. -/
theorem MerkleChain.climb (hC : C.Documented) : ∀ {path : List (Bool × Fr)} {cur root : Fr},
    MerkleChain C P cur (path.map fun q => (bitSignal q.1, q.2)) root →
      root = climb P.compress path cur
  | [], _, _, h => h
  | (b, sib) :: path, cur, root, h => by
      obtain ⟨outL, outR, hsw, hrest⟩ := h
      have hup := MerkleChain.climb hC hrest
      cases b with
      | false =>
          obtain ⟨rfl, rfl⟩ := (hC.switcher hsw).1 rfl
          exact hup
      | true =>
          obtain ⟨rfl, rfl⟩ := (hC.switcher hsw).2 rfl
          exact hup

/-- The path of a position with its siblings. -/
def pathOf {levels : Nat} (i : Nat) (pathElements : Fin levels → Fr) : List (Bool × Fr) :=
  List.ofFn fun k : Fin levels => (i.testBit k, pathElements k)

theorem pathOf_follows {levels : Nat} (i : Nat) (pathElements : Fin levels → Fr) :
    Follows i (pathOf i pathElements) := by
  intro k hk
  simp [pathOf]

@[simp] theorem pathOf_length {levels : Nat} (i : Nat) (pathElements : Fin levels → Fr) :
    (pathOf i pathElements).length = levels := List.length_ofFn

/-- What the template proves: a climb along the bits of the position. -/
theorem MerkleProof.climb (hC : C.Documented) {levels : Nat} (hlevels : levels ≤ 253)
    {leaf pathIndices root : Fr} {pathElements : Fin levels → Fr}
    (h : MerkleProof C P levels leaf pathElements pathIndices root) :
    pathIndices.val < 2 ^ levels ∧
      root = BinaryTree.climb P.compress (pathOf pathIndices.val pathElements) leaf := by
  obtain ⟨indexBits, hbits, hchain⟩ := h
  obtain ⟨hlt, hout⟩ := hC.num2Bits hlevels hbits
  refine ⟨hlt, MerkleChain.climb hC ?_⟩
  rw [pathOf, List.map_ofFn]
  simp only [hout] at hchain
  exact hchain

/-- The leaf of a proof under the root of a tree is the leaf at its
position. -/
theorem MerkleProof.leaf_eq (hC : C.Documented) {levels : Nat} (hlevels : levels ≤ 253)
    {leaf pathIndices : Fr} {pathElements : Fin levels → Fr} {leaves : Nat → Fr}
    {S : Set (Fr × Fr)} (hinj : Set.InjOn (fun q : Fr × Fr => P.compress q.1 q.2) S)
    (htree : fullInputs P.compress leaves levels ⊆ S)
    (hpath : ∀ q ∈ climbInputs P.compress (pathOf pathIndices.val pathElements) leaf, q ∈ S)
    (h : MerkleProof C P levels leaf pathElements pathIndices (full P.compress leaves levels 0)) :
    leaf = leaves pathIndices.val := by
  obtain ⟨hlt, hclimb⟩ := h.climb hC hlevels
  refine climb_sound hinj htree (l := 0) (pathOf_follows _ _) (by simp) hpath ?_
  rw [pathOf_length, Nat.div_eq_of_lt hlt]
  exact hclimb.symm

end Paths

end Circuits

end PrivacyWallet
