import PrivacyWallet.Lib.Run
import PrivacyWallet.Pool.Transact

/-!
# Runs of the pool

A run starts from a constructed pool and takes any calls in any order. A
call that fails is undone. Between two calls the rest of the world may
change in any way that does not debit the pool, since only the pool's own
code can authorize that. `accepted` is the list of the transactions that
succeeded.
-/

namespace PrivacyWallet

namespace Pool

open InvokeM

variable {A L X : Type}

/-- The state-changing entry points. -/
inductive Call (A : Type) where
  | transact (proof : Proof) (extData : ExtData A) (sender : A)
  | collectYield (dst : A)
  | updateInvestParams (threshold buffer : I128)
  | updateAdmin (newAdmin : A)
  | updateAspMembership (newAsp : A)
  | updateAspNonMembership (newAsp : A)

/-- One step of a run: a call with its authorizations, or a change of the
world around the pool. -/
inductive Step (A L X : Type) where
  | call (auth : List A) (c : Call A)
  | outside (l : L) (x : X)

/-- A transaction, as it was submitted. -/
structure Tx (A : Type) where
  proof : Proof
  extData : ExtData A

variable [DecidableEq A] (h : Host A L X)

/-- The entry point behind a call. -/
def callBody (auth : List A) : Call A → PoolM A L X Unit
  | .transact proof extData sender => transact h auth proof extData sender
  | .collectYield dst => do
      let _ ← collectYield h auth dst
      pure ()
  | .updateInvestParams threshold buffer => updateInvestParams h auth threshold buffer
  | .updateAdmin newAdmin => updateAdmin h auth newAdmin
  | .updateAspMembership newAsp => updateAspMembership h auth newAsp
  | .updateAspNonMembership newAsp => updateAspNonMembership h auth newAsp

/-- The ledger `l` does not hold less of the pool's token for the pool. -/
def keepsIdle (w : World A L X) (l : L) : Bool :=
  match w.storage.token with
  | some token => decide (idle h token w.ledger ≤ idle h token l)
  | none => true

/-- One step. A failing call leaves the world as it was. -/
def exec (w : World A L X) : Step A L X → World A L X
  | .call auth c => (revert (callBody h auth c) w).2
  | .outside l x => if keepsIdle h w l then w.moved .outside (l, x) else w

/-- The transaction a step accepts, if any. -/
def acceptedBy (w : World A L X) : Step A L X → List (Tx A)
  | .call auth (.transact proof extData sender) =>
      match (transact h auth proof extData sender w).1 with
      | .ok _ => [⟨proof, extData⟩]
      | .error _ => []
  | _ => []

/-- The world after the steps. -/
def runs (w : World A L X) (steps : List (Step A L X)) : World A L X :=
  Run.run (exec h) w steps

/-- The transactions that the steps accept, in order. -/
def accepted (w : World A L X) (steps : List (Step A L X)) : List (Tx A) :=
  Run.history (exec h) (acceptedBy h) w steps

/-- The world in which a pool is deployed. -/
def World.deploy (l : L) (x : X) : World A L X where
  storage := .empty
  ledger := l
  others := x
  events := []
  log := []

/-- `w` is what a successful construction left. -/
def Constructed (c : Config A) (w : World A L X) : Prop :=
  ∃ l x, constructor h c (.deploy l x) = (.ok (), w)

variable {h}

@[simp] theorem runs_snoc (w : World A L X) (l : List (Step A L X)) (s : Step A L X) :
    runs h w (l ++ [s]) = exec h (runs h w l) s := Run.run_snoc ..

@[simp] theorem accepted_snoc (w : World A L X) (l : List (Step A L X))
    (s : Step A L X) :
    accepted h w (l ++ [s]) = accepted h w l ++ acceptedBy h (runs h w l) s :=
  Run.history_snoc ..

theorem accepted_prefix (w : World A L X) {l m : List (Step A L X)} (hl : l <+: m) :
    accepted h w l <+: accepted h w m := Run.history_prefix _ _ w hl

/-! ## What one step can do -/

/-- What a call that changes no balance may write: the admin, the
association sets, the invest parameters. -/
structure Administered (w w' : World A L X) : Prop where
  outside : w'.outside = w.outside
  events : w'.events = w.events
  log : w'.log = w.log
  token : w'.storage.token = w.storage.token
  vault : w'.storage.vault = w.storage.vault
  verifier : w'.storage.verifier = w.storage.verifier
  policyFlags : w'.storage.policyFlags = w.storage.policyFlags
  maximumDepositAmount :
    w'.storage.maximumDepositAmount = w.storage.maximumDepositAmount
  nullifier : w'.storage.nullifier = w.storage.nullifier
  totalLiabilities : w'.storage.totalLiabilities = w.storage.totalLiabilities
  merkle : w'.storage.merkle = w.storage.merkle

/-- Every step of a run is one of these. -/
inductive StepCases (h : Host A L X) (w : World A L X) :
    Step A L X → World A L X → List (Tx A) → Prop where
  /-- The call failed, or the change outside was refused. -/
  | nothing {s : Step A L X} : StepCases h w s w []
  | transact {auth : List A} {proof : Proof} {extData : ExtData A} {sender : A}
      {w₁ w₂ w₃ w' : World A L X}
      (ht : Transacted h auth proof extData sender w w₁ w₂ w₃ w') :
      StepCases h w (.call auth (.transact proof extData sender)) w' [⟨proof, extData⟩]
  | collectYield {auth : List A} {dst : A} {pay : I128} {w' : World A L X}
      (hy : YieldPaid h dst w pay w') :
      StepCases h w (.call auth (.collectYield dst)) w' []
  | administer {auth : List A} {c : Call A} {w' : World A L X}
      (ha : Administered w w') : StepCases h w (.call auth c) w' []
  | outside {l : L} {x : X} (hidle : keepsIdle h w l = true) :
      StepCases h w (.outside l x) (w.moved .outside (l, x)) []

theorem acceptedBy_ok {auth : List A} {proof : Proof} {extData : ExtData A} {sender : A}
    {w w' : World A L X} {u : Unit}
    (hok : transact h auth proof extData sender w = (.ok u, w')) :
    acceptedBy h w (.call auth (.transact proof extData sender)) = [⟨proof, extData⟩] := by
  rw [acceptedBy, hok]

theorem acceptedBy_error {auth : List A} {proof : Proof} {extData : ExtData A} {sender : A}
    {w w' : World A L X} {e : Fail Error}
    (hfail : transact h auth proof extData sender w = (.error e, w')) :
    acceptedBy h w (.call auth (.transact proof extData sender)) = [] := by
  rw [acceptedBy, hfail]

theorem adminStore_ok {auth : List A} {f : Storage A → Storage A} {w w' : World A L X}
    {u : Unit} (hok : (do
      let admin ← getAdmin
      requireAuth h auth admin
      store f : PoolM A L X Unit) w = (.ok u, w')) : w' = w.store f := by
  obtain ⟨admin, w₁, h1, hok⟩ := bind_eq_ok.mp hok
  obtain ⟨-, rfl⟩ := load_eq_ok.mp h1
  obtain ⟨_, w₂, h2, hok⟩ := bind_eq_ok.mp hok
  obtain ⟨-, rfl⟩ := requireAuth_eq_ok.mp h2
  exact (store_eq_ok.mp hok).symm

theorem updateInvestParams_ok {auth : List A} {threshold buffer : I128}
    {w w' : World A L X} {u : Unit}
    (hok : updateInvestParams h auth threshold buffer w = (.ok u, w')) :
    ¬investParamsInvalid threshold buffer ∧
      w' = w.store fun s => { s with
        investThreshold := some threshold
        liquidityBuffer := some buffer } := by
  obtain ⟨admin, w₁, h1, hok⟩ := bind_eq_ok.mp hok
  obtain ⟨-, rfl⟩ := load_eq_ok.mp h1
  obtain ⟨_, w₂, h2, hok⟩ := bind_eq_ok.mp hok
  obtain ⟨-, rfl⟩ := requireAuth_eq_ok.mp h2
  obtain ⟨_, w₃, h3, hok⟩ := bind_eq_ok.mp hok
  obtain ⟨hvalid, rfl⟩ := rejectIf_eq_ok.mp h3
  exact ⟨hvalid, (store_eq_ok.mp hok).symm⟩

theorem step_cases (w : World A L X) (s : Step A L X) :
    StepCases h w s (exec h w s) (acceptedBy h w s) := by
  cases s with
  | outside l x =>
      rw [exec]
      split
      · rename_i hidle
        exact .outside hidle
      · exact .nothing
  | call auth c =>
      rcases hrun : callBody h auth c w with ⟨e | u, w'⟩
      · -- a failing call is undone
        have hexec : exec h w (.call auth c) = w := by
          rw [exec, revert_of_error hrun]
        rw [hexec]
        cases c with
        | transact proof extData sender =>
            rw [acceptedBy_error hrun]
            exact .nothing
        | collectYield dst => exact .nothing
        | updateInvestParams threshold buffer => exact .nothing
        | updateAdmin newAdmin => exact .nothing
        | updateAspMembership newAsp => exact .nothing
        | updateAspNonMembership newAsp => exact .nothing
      · have hexec : exec h w (.call auth c) = w' := by
          rw [exec, revert, hrun]
        rw [hexec]
        cases c with
        | transact proof extData sender =>
            obtain ⟨w₁, w₂, w₃, ht⟩ := transact_ok hrun
            rw [acceptedBy_ok hrun]
            exact .transact ht
        | collectYield dst =>
            obtain ⟨pay, w₁, h1, h2⟩ := bind_eq_ok.mp hrun
            obtain ⟨-, rfl⟩ := pure_eq_ok.mp h2
            exact .collectYield (collectYield_ok h1)
        | updateInvestParams threshold buffer =>
            obtain ⟨-, rfl⟩ := updateInvestParams_ok hrun
            exact .administer ⟨rfl, rfl, rfl, rfl, rfl, rfl, rfl, rfl, rfl, rfl, rfl⟩
        | updateAdmin newAdmin =>
            obtain rfl := adminStore_ok hrun
            exact .administer ⟨rfl, rfl, rfl, rfl, rfl, rfl, rfl, rfl, rfl, rfl, rfl⟩
        | updateAspMembership newAsp =>
            obtain rfl := adminStore_ok hrun
            exact .administer ⟨rfl, rfl, rfl, rfl, rfl, rfl, rfl, rfl, rfl, rfl, rfl⟩
        | updateAspNonMembership newAsp =>
            obtain rfl := adminStore_ok hrun
            exact .administer ⟨rfl, rfl, rfl, rfl, rfl, rfl, rfl, rfl, rfl, rfl, rfl⟩

/-- The start of every run. -/
theorem constructed_ok {c : Config A} {w : World A L X} (hc : Constructed h c w) :
    w.storage.token = some c.token ∧ w.storage.vault = some c.vault ∧
      w.storage.verifier = some c.verifier ∧
      w.storage.policyFlags = some c.policyFlags ∧
      w.storage.totalLiabilities = some 0 ∧
      w.storage.nullifier = (fun _ => false) ∧ w.log = [] ∧
      w.storage.investThreshold = some c.investThreshold ∧
      w.storage.liquidityBuffer = some c.liquidityBuffer ∧
      ¬investParamsInvalid c.investThreshold c.liquidityBuffer ∧
      Merkle.init h.getZeroes c.levels .empty = (.ok (), w.storage.merkle) := by
  obtain ⟨l, x, hok⟩ := hc
  obtain ⟨_, w₁, h1, hok⟩ := bind_eq_ok.mp hok
  obtain ⟨-, rfl⟩ := rejectIf_eq_ok.mp h1
  obtain ⟨_, w₂, h2, hok⟩ := bind_eq_ok.mp hok
  obtain rfl := store_eq_ok.mp h2
  obtain ⟨_, w₃, h3, hok⟩ := bind_eq_ok.mp hok
  obtain ⟨hvalid, rfl⟩ := rejectIf_eq_ok.mp h3
  obtain ⟨_, w₄, h4, hok⟩ := bind_eq_ok.mp hok
  obtain rfl := store_eq_ok.mp h4
  obtain ⟨t, ht, rfl⟩ := onMerkle_eq_ok.mp hok
  exact ⟨rfl, rfl, rfl, rfl, rfl, rfl, rfl, rfl, rfl, hvalid, ht⟩

/-- The entries that no call changes after the construction. -/
structure Configured (c : Config A) (s : Storage A) : Prop where
  token : s.token = some c.token
  vault : s.vault = some c.vault
  verifier : s.verifier = some c.verifier
  policyFlags : s.policyFlags = some c.policyFlags

omit [DecidableEq A] in
theorem Configured.of_withoutLiabilities {c : Config A} {s s' : Storage A}
    (hc : Configured c s) (hs : s'.withoutLiabilities = s.withoutLiabilities) :
    Configured c s' where
  token := (congrArg Storage.token hs).trans hc.token
  vault := (congrArg Storage.vault hs).trans hc.vault
  verifier := (congrArg Storage.verifier hs).trans hc.verifier
  policyFlags := (congrArg Storage.policyFlags hs).trans hc.policyFlags

theorem Configured.exec {c : Config A} {w : World A L X} (hc : Configured c w.storage)
    (s : Step A L X) : Configured c (exec h w s).storage := by
  have hcases := step_cases (h := h) w s
  generalize Pool.exec h w s = w' at hcases ⊢
  generalize acceptedBy h w s = txs at hcases
  cases hcases with
  | nothing => exact hc
  | @transact _ proof _ _ _ _ _ _ ht =>
      obtain ⟨index, t, -, hs⟩ := ht.storage
      exact Configured.of_withoutLiabilities
        (s := { w.storage.spend proof.inputNullifiers with merkle := t })
        ⟨hc.token, hc.vault, hc.verifier, hc.policyFlags⟩ hs
  | collectYield hy => rw [hy.storage]; exact hc
  | administer ha =>
      exact ⟨ha.token.trans hc.token, ha.vault.trans hc.vault,
        ha.verifier.trans hc.verifier, ha.policyFlags.trans hc.policyFlags⟩
  | outside => exact hc

theorem Constructed.configured {c : Config A} {w₀ : World A L X}
    (hc : Constructed h c w₀) (steps : List (Step A L X)) :
    Configured c (runs h w₀ steps).storage := by
  obtain ⟨htoken, hvault, hverifier, hflags, -⟩ := constructed_ok hc
  have h0 : Configured c w₀.storage := ⟨htoken, hvault, hverifier, hflags⟩
  exact @Run.invariant _ _ (exec h) (fun w => Configured c w.storage) w₀ steps h0
    fun _ s hc => hc.exec s

/-! ## A small instance of the surroundings -/

/-- A vault that pays one token for one share. Its outside state is the
number of shares the pool holds. -/
def parVault (token : Nat) : Vault Nat (Nat → Nat → Nat) Nat where
  balance _ _ o := .value (Token.tableBalance o.2)
  getAssetAmountsPerShares _ shares _ := .value [shares]
  deposit vault amountsDesired _ source _ o :=
    match amountsDesired with
    | amount :: _ =>
        .value (o.2 + amount.val.toNat, [⟨token, source, vault, amount⟩], ())
    | [] => .error
  withdraw vault shares _ source o :=
    .value (o.2 - shares.val.toNat, [⟨token, vault, source, shares⟩], some [shares])

/-- The nullifiers in a vector of public inputs without association sets. -/
def nullifierInputs (inputs : List Bn254Fr) : List Bn254Fr :=
  (inputs.drop 3).dropLast.dropLast

/-! The words of the small runs are in range. -/

theorem zero_fits : 0 < 2 ^ 256 := by norm_num

theorem one_fits : 1 < 2 ^ 256 := by norm_num

theorem twentyOne_fits : 21 < 2 ^ 256 := by norm_num

theorem twentyTwo_fits : 22 < 2 ^ 256 := by norm_num

theorem deposited_fits : 150 < 2 ^ 256 := by norm_num

theorem compressed_fits (a b : U256) : (a.val + 2 * b.val + 1) % 2 ^ 64 < 2 ^ 256 := by omega

/-- A host with the table token, the vault at par, and a verifier that only
checks that the nullifiers are distinct. -/
def tableHost : Host Nat (Nat → Nat → Nat) Nat where
  this := 0
  token := Token.table Nat
  vault := parVault 1
  verify _ _ inputs _ := .value (decide (nullifierInputs inputs).Nodup)
  aspGetRoot _ _ := .value 0
  poseidon2Compress a b := some ⟨(a.val + 2 * b.val + 1) % 2 ^ 64, compressed_fits a b⟩
  getZeroes := List.replicate 33 ⟨1, one_fits⟩
  keccakXdr _ := 0

/-- Token `1`, verifier `2`, vault `3`, association sets `4` and `5`, admin
`6`; a threshold of `100` and a buffer of `20`. -/
def tableConfig : Config Nat where
  admin := 6
  token := 1
  verifier := 2
  aspMembership := 4
  aspNonMembership := 5
  maximumDepositAmount := ⟨1000, by norm_num⟩
  levels := 2
  policyFlags := 0
  vault := 3
  investThreshold := ⟨100, by norm_num, by norm_num⟩
  liquidityBuffer := ⟨20, by norm_num, by norm_num⟩

/-- The world in which everyone holds `500` of every token. -/
def tableWorld : World Nat (Nat → Nat → Nat) Nat :=
  (constructor tableHost tableConfig (.deploy (fun _ _ => 500) 0)).2

theorem tableWorld_constructed : Constructed tableHost tableConfig tableWorld :=
  ⟨fun _ _ => 500, 0, Prod.ext (by rfl) rfl⟩

/-- A deposit of `150` into the fresh pool, against its initial root. -/
def tableProof : Proof where
  proof := ⟨Vector.replicate 64 0, Vector.replicate 128 0, Vector.replicate 64 0⟩
  root := ⟨1, one_fits⟩
  inputNullifiers := [⟨11, by norm_num⟩, ⟨12, by norm_num⟩]
  outputCommitment0 := ⟨150, deposited_fits⟩
  outputCommitment1 := ⟨0, zero_fits⟩
  publicAmount := ⟨150, deposited_fits⟩
  extDataHash := 0
  aspMembershipRoot := 0
  aspNonMembershipRoot := 0

def tableExt : ExtData Nat where
  recipient := 8
  extAmount := ⟨150, by norm_num, by norm_num⟩
  encryptedOutput0 := []
  encryptedOutput1 := []

def tableDeposit : Step Nat (Nat → Nat → Nat) Nat :=
  .call [7] (.transact tableProof tableExt 7)

theorem tableDeposit_accepted :
    accepted tableHost tableWorld [tableDeposit] = [⟨tableProof, tableExt⟩] := by
  rfl

/-- A withdrawal of `100` from what was deposited. -/
def tableWithdrawalProof : Proof :=
  { tableProof with
    inputNullifiers := [⟨21, twentyOne_fits⟩, ⟨22, twentyTwo_fits⟩]
    publicAmount := ⟨bn256Modulus.val - 100, by decide⟩ }

def tableWithdrawalExt : ExtData Nat :=
  { tableExt with extAmount := ⟨-100, by norm_num, by norm_num⟩ }

end Pool

end PrivacyWallet
