import PrivacyWallet.Lib.SparseStore
import PrivacyWallet.Circuits.Templates

/-!
# The sparse tree's verifier

`SMTVerifier` over the gates it includes, and `AspNonMembership`, which runs it
for the public key of each input. The verifier walks the levels of the tree
from the root down with a state machine: while it is at the `top` it hashes on,
at the level where `levIns` is set it ends in an empty place (`i0`) or in
another leaf (`iold`), and below it nothing counts any more (`na`).

What it proves of an absent key is a path (`ShowsAbsent`): the siblings above
the first level from which on they are all zero lead from an empty place, or
from the leaf of another key, to the root. The way there:

- **below the end** (`SMTLevels.below`): once a level is not at the `top`, all
  levels under it are `na`, and their output is zero whatever their siblings;
- **the levels** (`smtLevels_iff`): by induction on the siblings, from the state
  `top`, the output is the climb of the path. A level whose sibling is zero,
  with another one below that is not, is no end and no exception: `levIns`
  looks at all siblings below it;
- **the verifier** (`SMTVerifier.iff_showsAbsent`): with the checks around the
  levels, an equivalence.
-/

namespace PrivacyWallet

namespace Circuits

open PrivacyWallet.SparseTree

variable {nIns nLevels : Nat}

/-! ## Templates -/

/-- `SMTHash1`, of a leaf -/
def Permutation.smtHash1 (P : Permutation) (key value : Fr) : Fr := P.hash2 key value (.ofNat 1)

section Templates

variable (C : Circomlib) (P : Permutation)

/-- `SMTVerifierLevel`; `SMTHash2` is the compression. -/
def SMTVerifierLevel (st : SMTState) (sibling old1leaf new1leaf lrbit child root : Fr) : Prop :=
  ∃ outL outR, C.Switcher lrbit child sibling outL outR ∧
    root = P.compress outL outR * st.top + old1leaf * st.iold + new1leaf * st.inew

/-- The state machines and the levels of `SMTVerifier` from level `i` on, with
the `levIns` and the sibling of each; `prev` is the state above, and `root` the
output of the highest of them. -/
def SMTLevels (isOld0 fnc old1leaf new1leaf : Fr) (lrbits : Nat → Fr) :
    Nat → SMTState → List (Fr × Fr) → Fr → Prop
  | _, prev, [], root => prev.na + prev.iold + prev.inew + prev.i0 = 1 ∧ root = 0
  | i, prev, (levIns, sibling) :: rest, root =>
      ∃ st child, C.SMTVerifierSM levIns isOld0 fnc prev st ∧
        SMTLevels isOld0 fnc old1leaf new1leaf lrbits (i + 1) st rest child ∧
        SMTVerifierLevel C P st sibling old1leaf new1leaf (lrbits i) child root

/-- `SMTVerifier(nLevels)` -/
def SMTVerifier (nLevels : Nat) (enabled root : Fr) (siblings : Fin nLevels → Fr)
    (oldKey oldValue isOld0 key value fnc : Fr) : Prop :=
  ∃ (n2bOld n2bNew : Nat → Fr) (levIns : Fin nLevels → Fr) (computed areKeyEquals keysOk : Fr),
    C.Num2BitsStrict oldKey n2bOld ∧ C.Num2BitsStrict key n2bNew ∧
    C.SMTLevIns nLevels enabled siblings levIns ∧
    SMTLevels C P isOld0 fnc (P.smtHash1 oldKey oldValue) (P.smtHash1 key value) n2bNew 0
      ⟨enabled, 0, 0, 0, 1 - enabled⟩ ((List.ofFn levIns).zip (List.ofFn siblings)) computed ∧
    C.IsEqual oldKey key areKeyEquals ∧
    C.MultiAND [fnc, 1 - isOld0, areKeyEquals, enabled] keysOk ∧ keysOk = 0 ∧
    C.ForceEqualIfEnabled enabled computed root

/-- The input signals of `AspNonMembership(nIns, nNonMembershipProofs,
smtLevels)` but the public keys. -/
structure NonMembershipSignals (nIns nNonMembershipProofs smtLevels : Nat) where
  roots : Fin nIns → Fin nNonMembershipProofs → Fr
  key : Fin nIns → Fin nNonMembershipProofs → Fr
  siblings : Fin nIns → Fin nNonMembershipProofs → Fin smtLevels → Fr
  oldKey : Fin nIns → Fin nNonMembershipProofs → Fr
  oldValue : Fin nIns → Fin nNonMembershipProofs → Fr
  isOld0 : Fin nIns → Fin nNonMembershipProofs → Fr

/-- The constraints of `AspNonMembership(nIns, nNonMembershipProofs,
smtLevels)`. -/
structure AspNonMembership {nNonMembershipProofs smtLevels : Nat} (inPublicKey : Fin nIns → Fr)
    (m : NonMembershipSignals nIns nNonMembershipProofs smtLevels) : Prop where
  keys : ∀ tx i, m.key tx i = inPublicKey tx
  /-- the verifier is always enabled, and proves that the key is not there -/
  verifiers : ∀ tx i, ∃ n2b : Fin 1 → Fr, C.Num2Bits 1 (m.isOld0 tx i) n2b ∧
    SMTVerifier C P smtLevels 1 (m.roots tx i) (m.siblings tx i) (m.oldKey tx i)
      (m.oldValue tx i) (n2b 0) (m.key tx i) (m.key tx i) 1

end Templates

/-! ## What it proves -/

/-- The hashes of the sparse tree. -/
def Permutation.smtDigests (P : Permutation) : Digests Fr Fr Fr where
  zero := 0
  ofLeaf := P.smtHash1
  ofNode := P.compress

/-- The bits of a key. -/
def frKeying : Keying Fr where
  bit key i := key.val.testBit i
  depth := 254
  ext := by
    intro key key' h
    refine Bn254Fr.ext_val (Nat.eq_of_testBit_eq fun i => ?_)
    by_cases hi : i < 254
    · exact h i hi
    · have hpow : 2 ^ 254 ≤ 2 ^ i := Nat.pow_le_pow_right Nat.two_pos (Nat.le_of_not_lt hi)
      have hlt : ∀ a : Fr, a.val < 2 ^ i := fun a =>
        (a.lt.trans (by decide : bn256Modulus.val < 2 ^ 254)).trans_le hpow
      rw [Nat.testBit_lt_two_pow (hlt key), Nat.testBit_lt_two_pow (hlt key')]

/-- All siblings are zero. -/
def allZero (siblings : List Fr) : Bool := siblings.all fun s => decide (s = 0)

/-- The siblings above the first level from which on all are zero. -/
def pathSiblings : List Fr → List Fr
  | [] => []
  | sibling :: rest => if allZero (sibling :: rest) then [] else sibling :: pathSiblings rest

/-- Where the path ends: in an empty place, or in the leaf of the old key. -/
def pathEnd (P : Permutation) (isOld0 : Bool) (oldKey oldValue : Fr) : Fr :=
  if isOld0 then 0 else P.smtHash1 oldKey oldValue

/-- The siblings lead to the root along the bits of the key, from an empty
place or from the leaf of another key. -/
structure ShowsAbsent (P : Permutation) (root : Fr) (siblings : List Fr) (oldKey oldValue : Fr)
    (isOld0 : Bool) (key : Fr) : Prop where
  last : siblings.getLast? = some 0
  other : isOld0 = false → oldKey ≠ key
  leads : P.smtDigests.climb frKeying key 0 (pathSiblings siblings)
    (pathEnd P isOld0 oldKey oldValue) = root

/-! ## The levels -/

section Levels

variable {C : Circomlib} {P : Permutation} {isOld0 : Bool} {old1leaf new1leaf key : Fr}
  {lrbits : Nat → Fr}

theorem levInsOf_cons (above : Bool) (sibling : Fr) (rest : List Fr) :
    levInsOf above (sibling :: rest)
      = (above && allZero (sibling :: rest)) :: levInsOf (decide (sibling ≠ 0)) rest := rfl

/-- The level above matters only for siblings that are all zero. -/
theorem levInsOf_of_not_allZero {siblings : List Fr} (h : allZero siblings = false) (above : Bool) :
    levInsOf above siblings = levInsOf true siblings := by
  cases siblings with
  | nil => rfl
  | cons sibling rest => rw [levInsOf_cons, levInsOf_cons, h, Bool.and_false, Bool.and_false]

/-- The output of a level at the `top`. -/
theorem SMTVerifierLevel.top_iff (hC : C.Documented) (hC' : C.Complete) (b : Bool)
    {sibling child root : Fr} :
    SMTVerifierLevel C P SMTStatus.top.signals sibling old1leaf new1leaf (bitSignal b) child root ↔
      P.smtDigests.image (Digests.branchInput b sibling child) = root := by
  have hroot : ∀ outL outR : Fr, P.compress outL outR * SMTStatus.top.signals.top
      + old1leaf * SMTStatus.top.signals.iold + new1leaf * SMTStatus.top.signals.inew
        = P.compress outL outR := by
    intro outL outR
    simp [SMTStatus.signals]
  constructor
  · rintro ⟨outL, outR, hswitch, rfl⟩
    rw [hroot]
    cases b with
    | false =>
        obtain ⟨rfl, rfl⟩ := (hC.switcher hswitch).1 rfl
        rfl
    | true =>
        obtain ⟨rfl, rfl⟩ := (hC.switcher hswitch).2 rfl
        rfl
  · rintro rfl
    refine ⟨_, _, hC'.switcher b child sibling, ?_⟩
    rw [hroot]
    cases b with
    | false => rfl
    | true => rfl

/-- The output of a level that ends the path or is below its end. -/
theorem SMTVerifierLevel.end_iff (hC' : C.Complete) {st : SMTStatus} (hst : st ≠ .top) (b : Bool)
    {sibling child root : Fr} :
    SMTVerifierLevel C P st.signals sibling old1leaf new1leaf (bitSignal b) child root ↔
      old1leaf * st.signals.iold + new1leaf * st.signals.inew = root := by
  have htop : st.signals.top = 0 := by
    cases st with
    | top => exact absurd rfl hst
    | i0 | iold | inew | na => rfl
  constructor
  · rintro ⟨outL, outR, -, rfl⟩
    rw [htop, Bn254Fr.mul_zero, Bn254Fr.zero_add]
  · rintro rfl
    refine ⟨_, _, hC'.switcher b child sibling, ?_⟩
    rw [htop, Bn254Fr.mul_zero, Bn254Fr.zero_add]

theorem SMTStatus.next_of_ne_top {prev : SMTStatus} (h : prev ≠ .top) (levIns is0 : Bool) :
    prev.next levIns is0 = .na := by
  cases prev with
  | top => exact absurd rfl h
  | i0 | iold | inew | na => rfl

/-- The signals of the levels. -/
def levelSignals (levels : List (Bool × Fr)) : List (Fr × Fr) :=
  levels.map fun q => (bitSignal q.1, q.2)

/-- Below the end of the path the levels take any siblings, and put out zero. -/
theorem SMTLevels.below (hC' : C.Complete) (hS : C.SmtDocumented) (hS' : C.SmtComplete)
    (hlrbits : ∀ i < 254, lrbits i = bitSignal (frKeying.bit key i)) :
    ∀ (levels : List (Bool × Fr)) (i : Nat) {prev : SMTStatus} {root : Fr},
      i + levels.length ≤ 254 → prev ≠ .top →
      (SMTLevels C P (bitSignal isOld0) 1 old1leaf new1leaf lrbits i prev.signals
        (levelSignals levels) root ↔ root = 0)
  | [], i, prev, root, _, hprev => by
      refine and_iff_right ?_
      cases prev with
      | top => exact absurd rfl hprev
      | i0 | iold | inew | na => rfl
  | (levIns, sibling) :: rest, i, prev, root, hlen, hprev => by
      rw [List.length_cons] at hlen
      have hbit : lrbits i = bitSignal (frKeying.bit key i) := hlrbits i (by omega)
      have hne : SMTStatus.na ≠ .top := by decide
      have hna : ∀ child, SMTVerifierLevel C P SMTStatus.na.signals sibling old1leaf new1leaf
          (lrbits i) child root ↔ root = 0 := by
        intro child
        rw [hbit, SMTVerifierLevel.end_iff hC' hne]
        exact eq_comm
      constructor
      · rintro ⟨st, child, hsm, -, hlevel⟩
        rw [hS.smtVerifierSM hsm, SMTStatus.next_of_ne_top hprev] at hlevel
        exact (hna child).mp hlevel
      · intro hroot
        have hsm := hS'.smtVerifierSM levIns isOld0 prev
        rw [SMTStatus.next_of_ne_top hprev] at hsm
        exact ⟨_, 0, hsm, (SMTLevels.below hC' hS hS' hlrbits rest (i + 1) (by omega) hne).mpr rfl,
          (hna 0).mpr hroot⟩

theorem getLast?_of_allZero {sibling : Fr} {rest : List Fr}
    (h : allZero (sibling :: rest) = true) : (sibling :: rest).getLast? = some 0 := by
  have hall := List.all_eq_true.mp h
  rw [List.getLast?_eq_some_getLast (List.cons_ne_nil _ _)]
  exact congrArg some (of_decide_eq_true (hall _ (List.getLast_mem _)))

/-- A sibling that is not the last of zeros leaves the last one where it is. -/
theorem getLast?_cons_of_not_allZero {sibling : Fr} {rest : List Fr}
    (h : allZero (sibling :: rest) = false) :
    (sibling :: rest).getLast? = some 0 ↔ rest.getLast? = some 0 := by
  cases rest with
  | nil =>
      have hne : sibling ≠ 0 := by
        rintro rfl
        cases h
      simp [hne]
  | cons next rest => rw [List.getLast?_cons_cons]

/-- The level that ends the path: it takes the end as its output, and the levels
below count for nothing. -/
theorem SMTLevels.end_iff (hC' : C.Complete) (hS : C.SmtDocumented) (hS' : C.SmtComplete)
    (hlrbits : ∀ i < 254, lrbits i = bitSignal (frKeying.bit key i)) {sibling : Fr}
    {rest : List Fr} {i : Nat} {root : Fr} (hlen : i + (rest.length + 1) ≤ 254)
    (hall : allZero (sibling :: rest) = true) :
    SMTLevels C P (bitSignal isOld0) 1 old1leaf new1leaf lrbits i SMTStatus.top.signals
        (levelSignals ((levInsOf true (sibling :: rest)).zip (sibling :: rest))) root ↔
      (if isOld0 then 0 else old1leaf) = root := by
  have hbit : lrbits i = bitSignal (frKeying.bit key i) := hlrbits i (by omega)
  have hlevels : levelSignals ((levInsOf true (sibling :: rest)).zip (sibling :: rest))
      = (bitSignal true, sibling)
        :: levelSignals ((levInsOf (decide (sibling ≠ 0)) rest).zip rest) := by
    rw [levInsOf_cons, hall]
    rfl
  have hlen' : i + 1 + ((levInsOf (decide (sibling ≠ 0)) rest).zip rest).length ≤ 254 := by
    rw [List.length_zip]
    omega
  have hnext : SMTStatus.top.next true isOld0 ≠ .top := by
    cases isOld0 with
    | false => nofun
    | true => nofun
  have hend : old1leaf * (SMTStatus.top.next true isOld0).signals.iold
      + new1leaf * (SMTStatus.top.next true isOld0).signals.inew
        = if isOld0 then 0 else old1leaf := by
    cases isOld0 with
    | false => simp [SMTStatus.next, SMTStatus.signals]
    | true => simp [SMTStatus.next, SMTStatus.signals]
  rw [hlevels, ← hend]
  constructor
  · rintro ⟨st, child, hsm, -, hlevel⟩
    rw [hS.smtVerifierSM hsm, hbit, SMTVerifierLevel.end_iff hC' hnext] at hlevel
    exact hlevel
  · intro hroot
    refine ⟨_, 0, hS'.smtVerifierSM true isOld0 .top,
      (SMTLevels.below hC' hS hS' hlrbits _ (i + 1) hlen' hnext).mpr rfl, ?_⟩
    rw [hbit, SMTVerifierLevel.end_iff hC' hnext]
    exact hroot

/-- The levels from the `top` on: some level ends the path, and the output is
its climb.

By induction on the siblings. If all from here on are zero the path ends at
this level (`SMTLevels.end_iff`). Otherwise the level hashes what comes from
below, in the state `top` again. -/
theorem smtLevels_iff (hC : C.Documented) (hC' : C.Complete) (hS : C.SmtDocumented)
    (hS' : C.SmtComplete) (hlrbits : ∀ i < 254, lrbits i = bitSignal (frKeying.bit key i)) :
    ∀ (siblings : List Fr) (i : Nat) {root : Fr}, i + siblings.length ≤ 254 →
      (SMTLevels C P (bitSignal isOld0) 1 old1leaf new1leaf lrbits i SMTStatus.top.signals
          (levelSignals ((levInsOf true siblings).zip siblings)) root ↔
        siblings.getLast? = some 0 ∧
          P.smtDigests.climb frKeying key i (pathSiblings siblings)
            (if isOld0 then 0 else old1leaf) = root)
  | [], i, root, _ => by
      refine ⟨fun h => ?_, fun h => ?_⟩
      · exact absurd h.1 (by decide)
      · cases h.1
  | sibling :: rest, i, root, hlen => by
      rw [List.length_cons] at hlen
      have hbit : lrbits i = bitSignal (frKeying.bit key i) := hlrbits i (by omega)
      cases hall : allZero (sibling :: rest) with
      | true =>
          rw [SMTLevels.end_iff hC' hS hS' hlrbits hlen hall, pathSiblings, if_pos hall,
            Digests.climb, and_iff_right (getLast?_of_allZero hall)]
      | false =>
          -- the level hashes what comes from below
          have hrest : levInsOf (decide (sibling ≠ 0)) rest = levInsOf true rest := by
            by_cases hzero : sibling = 0
            · refine levInsOf_of_not_allZero ?_ _
              subst hzero
              exact hall
            · rw [decide_eq_true hzero]
          have hlevels : levelSignals ((levInsOf true (sibling :: rest)).zip (sibling :: rest))
              = (bitSignal false, sibling) :: levelSignals ((levInsOf true rest).zip rest) := by
            rw [levInsOf_cons, hall, hrest]
            rfl
          have ih := fun child => @smtLevels_iff hC hC' hS hS' hlrbits rest (i + 1) child (by omega)
          rw [hlevels, getLast?_cons_of_not_allZero hall, pathSiblings, hall,
            if_neg Bool.false_ne_true, Digests.climb]
          constructor
          · rintro ⟨st, child, hsm, hbelow, hlevel⟩
            rw [hS.smtVerifierSM hsm] at hbelow hlevel
            obtain ⟨hlast, hchild⟩ := (ih child).mp hbelow
            rw [hbit] at hlevel
            rw [hchild]
            exact ⟨hlast, (SMTVerifierLevel.top_iff hC hC' _).mp hlevel⟩
          · rintro ⟨hlast, hroot⟩
            refine ⟨_, _, hS'.smtVerifierSM false isOld0 .top, (ih _).mpr ⟨hlast, rfl⟩, ?_⟩
            rw [hbit]
            exact (SMTVerifierLevel.top_iff hC hC' _).mpr hroot

theorem length_levInsOf : ∀ (above : Bool) (siblings : List Fr),
    (levInsOf above siblings).length = siblings.length
  | _, [] => rfl
  | _, _ :: rest => congrArg (· + 1) (length_levInsOf _ rest)

/-- The keys are told apart where the path ends in a leaf. -/
theorem keysOk_iff (hC : C.Documented) (hC' : C.Complete) (hS : C.SmtDocumented)
    (hS' : C.SmtComplete) {oldKey : Fr} :
    (∃ areKeyEquals keysOk, C.IsEqual oldKey key areKeyEquals ∧
      C.MultiAND [1, 1 - bitSignal isOld0, areKeyEquals, 1] keysOk ∧ keysOk = 0) ↔
        (isOld0 = false → oldKey ≠ key) := by
  have hbits : ∀ areKeyEquals : Fr, areKeyEquals = (if oldKey = key then 1 else 0) →
      [1, 1 - bitSignal isOld0, areKeyEquals, 1]
        = [true, !isOld0, decide (oldKey = key), true].map bitSignal := by
    rintro areKeyEquals rfl
    have hnot : 1 - bitSignal isOld0 = bitSignal (!isOld0) := by
      cases isOld0 with
      | false => decide
      | true => decide
    have heq : (if oldKey = key then (1 : Fr) else 0) = bitSignal (decide (oldKey = key)) := by
      by_cases h : oldKey = key
      · rw [if_pos h, decide_eq_true h]
        rfl
      · rw [if_neg h, decide_eq_false h]
        rfl
    rw [hnot, heq]
    rfl
  have hall : bitSignal ([true, !isOld0, decide (oldKey = key), true].all id) = 0 ↔
      (isOld0 = false → oldKey ≠ key) := by
    rw [show (0 : Fr) = bitSignal false from rfl, bitSignal_injective.eq_iff]
    cases isOld0 with
    | false => simp
    | true => simp
  constructor
  · rintro ⟨areKeyEquals, keysOk, hequal, hand, hzero⟩
    rw [hbits _ (hC.isEqual hequal)] at hand
    exact hall.mp ((hS.multiAND hand).symm.trans hzero)
  · intro hother
    refine ⟨_, _, hC'.isEqual oldKey key, ?_, hall.mpr hother⟩
    rw [hbits _ rfl]
    exact hS'.multiAND _

/-- The verifier of an absent key accepts the paths that show it absent. Its
levels are those of `smtLevels_iff`, from the root on; the checks around them
tell the key from the one at the path's end (`keysOk_iff`). -/
theorem SMTVerifier.iff_showsAbsent (hC : C.Documented) (hC' : C.Complete)
    (hS : C.SmtDocumented) (hS' : C.SmtComplete) (hlevels : nLevels ≤ 254) {root : Fr}
    {siblings : Fin nLevels → Fr} {oldKey oldValue value : Fr} :
    SMTVerifier C P nLevels 1 root siblings oldKey oldValue (bitSignal isOld0) key value 1 ↔
      ShowsAbsent P root (List.ofFn siblings) oldKey oldValue isOld0 key := by
  have hlen : 0 + (List.ofFn siblings).length ≤ 254 := by
    rw [List.length_ofFn, Nat.zero_add]
    exact hlevels
  have hzip : ((levInsOf true (List.ofFn siblings)).map bitSignal).zip (List.ofFn siblings)
      = levelSignals ((levInsOf true (List.ofFn siblings)).zip (List.ofFn siblings)) := by
    rw [List.zip_map_left]
    rfl
  have htop : (⟨1, 0, 0, 0, 1 - 1⟩ : SMTState) = SMTStatus.top.signals := by
    rw [show (1 : Fr) - 1 = 0 from by decide]
    rfl
  constructor
  · rintro ⟨n2bOld, n2bNew, levIns, computed, areKeyEquals, keysOk, -, hnew, hlevIns, hsm, hequal,
      hand, hzero, hforce⟩
    rw [(hS.smtLevIns hlevIns).2, hzip, htop,
      smtLevels_iff hC hC' hS hS' (hS.num2BitsStrict hnew) _ 0 hlen] at hsm
    refine ⟨hsm.1, (keysOk_iff hC hC' hS hS').mp ⟨_, _, hequal, hand, hzero⟩, ?_⟩
    exact hsm.2.trans (hC.forceEqualIfEnabled hforce Bn254Fr.zero_ne_one.symm)
  · intro h
    obtain ⟨areKeyEquals, keysOk, hequal, hand, hzero⟩ :=
      (keysOk_iff hC hC' hS hS').mpr h.other
    have hlevIns : List.ofFn (fun i : Fin nLevels =>
        ((levInsOf true (List.ofFn siblings)).map bitSignal).getD i 0)
          = (levInsOf true (List.ofFn siblings)).map bitSignal := by
      refine List.ext_getElem ?_ fun i hi hi' => ?_
      · rw [List.length_ofFn, List.length_map, length_levInsOf, List.length_ofFn]
      · rw [List.getElem_ofFn, List.getD_eq_getElem _ _ hi']
    refine ⟨_, _, _, root, areKeyEquals, keysOk, hS'.num2BitsStrict oldKey,
      hS'.num2BitsStrict key, hS'.smtLevIns (fun last hlast => ?_) hlevIns, ?_, hequal, hand, hzero,
      hC'.forceEqualIfEnabled fun _ => rfl⟩
    · rw [h.last] at hlast
      exact (Option.some.inj hlast).symm
    · rw [hlevIns, hzip, htop]
      exact (smtLevels_iff hC hC' hS hS' (fun _ _ => rfl) _ 0 hlen).mpr ⟨h.last, h.leads⟩

end Levels

end Circuits

end PrivacyWallet
