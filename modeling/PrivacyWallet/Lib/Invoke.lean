import Mathlib.Data.List.Basic
import Mathlib.Tactic.Common

/-!
# Computations that read and write a state and may fail

`InvokeM σ ε α` is the shape of a smart-contract function: it runs on a
state, may write it, and ends in a value, in an error of the contract's
own error type, or in a trap. The state at the point of failure stays
visible; undoing it is the business of whoever called (`revert`), not of
the failing function.

Two ways to reason about such a function, both compositional:

- **inversion**: what a *successful* run did, peeled apart at each bind
  (`bind_eq_ok` and the `_eq_ok` lemmas of the primitives);
- **frames**: a part of the state that no run of the function changes,
  successful or not (`Frame`, closed under bind and branching).

Nothing here mentions a particular contract.
-/

namespace PrivacyWallet

/-- How an invocation ends without a value: with an error of the contract,
or with a trap of the host (a panic, a failed call that is not a `try_`
call, an arithmetic overflow). -/
inductive Fail (ε : Type) where
  | err (e : ε)
  | trap
deriving DecidableEq, Repr

/-- A function on a state `σ` with contract errors `ε` and value `α`. -/
def InvokeM (σ ε α : Type) : Type := σ → Except (Fail ε) α × σ

namespace InvokeM

variable {σ τ ε ε' α β γ : Type}

instance : Monad (InvokeM σ ε) where
  pure a := fun s => (.ok a, s)
  bind m k := fun s =>
    match m s with
    | (.ok a, s') => k a s'
    | (.error e, s') => (.error e, s')

/-- End with a contract error. -/
def fail (e : ε) : InvokeM σ ε α := fun s => (.error (.err e), s)

/-- End with a trap. -/
def trap : InvokeM σ ε α := fun s => (.error .trap, s)

/-- The whole state. -/
def read : InvokeM σ ε σ := fun s => (.ok s, s)

/-- Replace the state. -/
def update (f : σ → σ) : InvokeM σ ε Unit := fun s => (.ok (), f s)

/-- `ok_or`: the value of an option, or the contract error `e`. -/
def okOr (o : Option α) (e : ε) : InvokeM σ ε α :=
  match o with
  | some a => pure a
  | none => fail e

/-- The value of an option, or a trap. -/
def orTrap (o : Option α) : InvokeM σ ε α :=
  match o with
  | some a => pure a
  | none => trap

/-- `if c { return Err(e) }`: go on only when `c` fails. -/
def rejectIf (c : Prop) [Decidable c] (e : ε) : InvokeM σ ε Unit :=
  if c then fail e else pure ()

/-- `if c { m }`. -/
def when (c : Prop) [Decidable c] (m : InvokeM σ ε Unit) : InvokeM σ ε Unit :=
  if c then m else pure ()

/-- `for a in l { f(a) }`. -/
def forEach (f : α → InvokeM σ ε Unit) : List α → InvokeM σ ε Unit
  | [] => pure ()
  | a :: l => do
      f a
      forEach f l

/-- `loop { .. }` over a loop variable `i`: each round either leaves the
loop with a value or goes on with the next `i`. A loop that is still
running after `fuel` rounds ends in a trap, as the host ends one that
exhausts its budget. -/
def loop (round : γ → InvokeM σ ε (α ⊕ γ)) : Nat → γ → InvokeM σ ε α
  | 0, _ => trap
  | fuel + 1, i => do
      match ← round i with
      | .inl a => pure a
      | .inr i' => loop round fuel i'

/-- The values of the loop variable that `loop round fuel i` runs a round
for, from state `s`. -/
def loopVisits (round : γ → InvokeM σ ε (α ⊕ γ)) : Nat → γ → σ → List γ
  | 0, _, _ => []
  | fuel + 1, i, s =>
      i :: match round i s with
        | (.ok (.inr i'), s') => loopVisits round fuel i' s'
        | _ => []

/-- Run a function of a smaller state inside a bigger one. `view` and
`put` select the part it runs on, `cast` renames its errors. -/
def zoom (view : σ → τ) (put : τ → σ → σ) (cast : ε' → ε)
    (m : InvokeM τ ε' α) : InvokeM σ ε α := fun s =>
  match m (view s) with
  | (.ok a, t) => (.ok a, put t s)
  | (.error (.err e), t) => (.error (.err (cast e)), put t s)
  | (.error .trap, t) => (.error .trap, put t s)

/-- Run a whole call: a failing call leaves the state it started from. -/
def revert (m : InvokeM σ ε α) : InvokeM σ ε α := fun s =>
  match m s with
  | (.ok a, s') => (.ok a, s')
  | (.error e, _) => (.error e, s)

/-! ## Inversion of successful runs -/

theorem bind_eq_ok {m : InvokeM σ ε α} {k : α → InvokeM σ ε β} {s s'' : σ}
    {b : β} :
    (m >>= k) s = (.ok b, s'') ↔
      ∃ a s', m s = (.ok a, s') ∧ k a s' = (.ok b, s'') := by
  show (match m s with
    | (.ok a, s') => k a s'
    | (.error e, s') => (.error e, s')) = _ ↔ _
  rcases hm : m s with ⟨_ | a, s'⟩ <;> simp

@[simp] theorem pure_eq_ok {a b : α} {s s' : σ} :
    (pure a : InvokeM σ ε α) s = (.ok b, s') ↔ a = b ∧ s = s' := by
  show ((.ok a, s) : Except (Fail ε) α × σ) = _ ↔ _
  simp

@[simp] theorem fail_eq_ok {e : ε} {b : α} {s s' : σ} :
    (fail e : InvokeM σ ε α) s = (.ok b, s') ↔ False := by
  simp [fail]

@[simp] theorem trap_eq_ok {b : α} {s s' : σ} :
    (trap : InvokeM σ ε α) s = (.ok b, s') ↔ False := by
  simp [trap]

@[simp] theorem read_eq_ok {s s' t : σ} :
    (read : InvokeM σ ε σ) s = (.ok t, s') ↔ s = t ∧ s = s' := by
  simp [read]

@[simp] theorem update_eq_ok {f : σ → σ} {s s' : σ} {u : Unit} :
    (update f : InvokeM σ ε Unit) s = (.ok u, s') ↔ f s = s' := by
  simp [update]

@[simp] theorem okOr_eq_ok {o : Option α} {e : ε} {b : α} {s s' : σ} :
    (okOr o e : InvokeM σ ε α) s = (.ok b, s') ↔ o = some b ∧ s = s' := by
  cases o <;> simp [okOr]

@[simp] theorem orTrap_eq_ok {o : Option α} {b : α} {s s' : σ} :
    (orTrap o : InvokeM σ ε α) s = (.ok b, s') ↔ o = some b ∧ s = s' := by
  cases o <;> simp [orTrap]

@[simp] theorem rejectIf_eq_ok {c : Prop} [Decidable c] {e : ε} {s s' : σ}
    {u : Unit} :
    (rejectIf c e : InvokeM σ ε Unit) s = (.ok u, s') ↔ ¬c ∧ s = s' := by
  by_cases hc : c <;> simp [rejectIf, hc]

theorem ite_eq_ok {c : Prop} [Decidable c] {m m' : InvokeM σ ε α} {a : α}
    {s s' : σ} :
    (if c then m else m') s = (.ok a, s') ↔
      (c ∧ m s = (.ok a, s')) ∨ (¬c ∧ m' s = (.ok a, s')) := by
  by_cases hc : c <;> simp [hc]

theorem when_eq_ok {c : Prop} [Decidable c] {m : InvokeM σ ε Unit} {s s' : σ}
    {u : Unit} :
    when c m s = (.ok u, s') ↔ (c ∧ m s = (.ok u, s')) ∨ (¬c ∧ s = s') := by
  by_cases hc : c <;> simp [when, hc]

theorem zoom_eq_ok {view : σ → τ} {put : τ → σ → σ} {cast : ε' → ε}
    {m : InvokeM τ ε' α} {a : α} {s s' : σ} :
    zoom view put cast m s = (.ok a, s') ↔
      ∃ t, m (view s) = (.ok a, t) ∧ put t s = s' := by
  unfold zoom
  rcases hm : m (view s) with ⟨(_ | _) | b, t⟩ <;> simp

/-- A loop of checks is the check of every element. -/
theorem forEach_check {f : α → InvokeM σ ε Unit} {P : α → σ → Prop}
    (hf : ∀ a s s', f a s = (.ok (), s') ↔ P a s ∧ s = s') :
    ∀ {l : List α} {s s' : σ},
      forEach f l s = (.ok (), s') ↔ (∀ a ∈ l, P a s) ∧ s = s'
  | [], s, s' => by rw [forEach, pure_eq_ok]; simp
  | a :: l, s, s' => by
      rw [forEach, bind_eq_ok]
      constructor
      · rintro ⟨_, t, h1, h2⟩
        obtain ⟨hP, rfl⟩ := (hf a s t).mp h1
        obtain ⟨hall, rfl⟩ := (forEach_check hf).mp h2
        exact ⟨List.forall_mem_cons.mpr ⟨hP, hall⟩, rfl⟩
      · rintro ⟨hall, rfl⟩
        obtain ⟨hP, hall⟩ := List.forall_mem_cons.mp hall
        exact ⟨(), s, (hf a s s).mpr ⟨hP, rfl⟩, (forEach_check hf).mpr ⟨hall, rfl⟩⟩

theorem revert_of_ok {m : InvokeM σ ε α} {a : α} {s s' : σ} (h : m s = (.ok a, s')) :
    revert m s = (.ok a, s') := by
  rw [revert, h]

/-- A failing call leaves no trace. -/
theorem revert_of_error {m : InvokeM σ ε α} {e : Fail ε} {s s' : σ}
    (h : m s = (.error e, s')) : revert m s = (.error e, s) := by
  rw [revert, h]

/-- Two runs of a bind agree when the first parts agree and the
continuations agree on whatever the first part can hand over. -/
theorem bind_congr {m m' : InvokeM σ ε α} {k k' : α → InvokeM σ ε β} {s : σ}
    (hm : m s = m' s)
    (hk : ∀ a s', m s = (.ok a, s') → k a s' = k' a s') :
    (m >>= k) s = (m' >>= k') s := by
  show (match m s with
    | (.ok a, s') => k a s'
    | (.error e, s') => (.error e, s'))
    = (match m' s with
    | (.ok a, s') => k' a s'
    | (.error e, s') => (.error e, s'))
  rw [← hm]
  rcases h : m s with ⟨_ | a, s'⟩
  · rfl
  · exact hk a s' h

instance : LawfulMonad (InvokeM σ ε) := by
  refine LawfulMonad.mk' (InvokeM σ ε) ?_ (fun _ _ => rfl) ?_
  · intro α m
    funext s
    show (match m s with
      | (.ok a, s') => (Except.ok a, s')
      | (.error e, s') => (.error e, s')) = m s
    rcases m s with ⟨_ | a, s'⟩ <;> rfl
  · intro α β γ m k k'
    funext s
    show (match (match m s with
        | (.ok a, s') => k a s'
        | (.error e, s') => (.error e, s')) with
      | (.ok b, s') => k' b s'
      | (.error e, s') => (.error e, s')) = match m s with
        | (.ok a, s') => (k a >>= k') s'
        | (.error e, s') => (.error e, s')
    rcases m s with ⟨_ | a, s'⟩ <;> rfl

/-! ## Running step by step

The simp set that executes a function whose guards and options are known. -/

theorem bind_of_ok {m : InvokeM σ ε α} {k : α → InvokeM σ ε β} {s s' : σ}
    {a : α} (h : m s = (.ok a, s')) : (m >>= k) s = k a s' := by
  show (match m s with
    | (.ok a, s') => k a s'
    | (.error e, s') => (.error e, s')) = k a s'
  rw [h]

theorem bind_of_error {m : InvokeM σ ε α} {k : α → InvokeM σ ε β} {s s' : σ}
    {e : Fail ε} (h : m s = (.error e, s')) : (m >>= k) s = (.error e, s') := by
  show (match m s with
    | (.ok a, s') => k a s'
    | (.error e, s') => (.error e, s')) = _
  rw [h]

theorem loop_leave {round : γ → InvokeM σ ε (α ⊕ γ)} {fuel : Nat} {i : γ} {a : α}
    {s s' : σ} (h : round i s = (.ok (.inl a), s')) :
    loop round (fuel + 1) i s = (.ok a, s') := by
  rw [loop, bind_of_ok h]
  rfl

theorem loop_go_on {round : γ → InvokeM σ ε (α ⊕ γ)} {fuel : Nat} {i i' : γ} {s s' : σ}
    (h : round i s = (.ok (.inr i'), s')) :
    loop round (fuel + 1) i s = loop round fuel i' s' := by
  rw [loop, bind_of_ok h]

theorem loopVisits_leave {round : γ → InvokeM σ ε (α ⊕ γ)} {fuel : Nat} {i : γ} {a : α}
    {s s' : σ} (h : round i s = (.ok (.inl a), s')) :
    loopVisits round (fuel + 1) i s = [i] := by
  rw [loopVisits, h]

theorem loopVisits_go_on {round : γ → InvokeM σ ε (α ⊕ γ)} {fuel : Nat} {i i' : γ}
    {s s' : σ} (h : round i s = (.ok (.inr i'), s')) :
    loopVisits round (fuel + 1) i s = i :: loopVisits round fuel i' s' := by
  rw [loopVisits, h]

/-- A loop of writes is the fold of the writes. -/
theorem forEach_write {f : α → InvokeM σ ε Unit} {g : σ → α → σ}
    (hf : ∀ a s, f a s = (.ok (), g s a)) :
    ∀ (l : List α) (s : σ), forEach f l s = (.ok (), l.foldl g s)
  | [], s => rfl
  | a :: l, s => by
      rw [forEach, bind_of_ok (hf a s)]
      exact forEach_write hf l (g s a)

@[simp] theorem pure_run (a : α) (s : σ) :
    (pure a : InvokeM σ ε α) s = (.ok a, s) := rfl

@[simp] theorem fail_run (e : ε) (s : σ) :
    (fail e : InvokeM σ ε α) s = (.error (.err e), s) := rfl

@[simp] theorem trap_run (s : σ) :
    (trap : InvokeM σ ε α) s = (.error .trap, s) := rfl

@[simp] theorem orTrap_none_run (s : σ) :
    (orTrap none : InvokeM σ ε α) s = (.error .trap, s) := rfl

@[simp] theorem orTrap_some_run (a : α) (s : σ) :
    (orTrap (some a) : InvokeM σ ε α) s = (.ok a, s) := rfl

@[simp] theorem read_bind (k : σ → InvokeM σ ε β) (s : σ) :
    (read >>= k) s = k s s := rfl

@[simp] theorem update_bind (f : σ → σ) (k : Unit → InvokeM σ ε β) (s : σ) :
    (update f >>= k) s = k () (f s) := rfl

@[simp] theorem okOr_some_bind (a : α) (e : ε) (k : α → InvokeM σ ε β) (s : σ) :
    (okOr (some a) e >>= k) s = k a s := rfl

@[simp] theorem okOr_none_bind (e : ε) (k : α → InvokeM σ ε β) (s : σ) :
    (okOr none e >>= k) s = (.error (.err e), s) := rfl

@[simp] theorem orTrap_some_bind (a : α) (k : α → InvokeM σ ε β) (s : σ) :
    (orTrap (some a) >>= k) s = k a s := rfl

@[simp] theorem orTrap_none_bind (k : α → InvokeM σ ε β) (s : σ) :
    (orTrap none >>= k) s = (.error .trap, s) := rfl

theorem rejectIf_bind_of_not {c : Prop} [Decidable c] (hc : ¬c) (e : ε)
    (k : Unit → InvokeM σ ε β) (s : σ) : (rejectIf c e >>= k) s = k () s := by
  rw [rejectIf, if_neg hc]; rfl

theorem rejectIf_bind_of {c : Prop} [Decidable c] (hc : c) (e : ε)
    (k : Unit → InvokeM σ ε β) (s : σ) :
    (rejectIf c e >>= k) s = (.error (.err e), s) := by
  rw [rejectIf, if_pos hc]; rfl

@[simp] theorem when_run_of {c : Prop} [Decidable c] (hc : c)
    (m : InvokeM σ ε Unit) : when c m = m := if_pos hc

@[simp] theorem when_run_of_not {c : Prop} [Decidable c] (hc : ¬c)
    (m : InvokeM σ ε Unit) : when c m = pure () := if_neg hc

/-! ## Frames -/

/-- No run of `m` changes what `f` reads off the state. -/
structure Frame (f : σ → γ) (m : InvokeM σ ε α) : Prop where
  eq : ∀ s, f (m s).2 = f s

namespace Frame

variable {δ : Type} {f : σ → δ}

theorem bind {m : InvokeM σ ε α} {k : α → InvokeM σ ε β}
    (hm : Frame f m) (hk : ∀ a, Frame f (k a)) : Frame f (m >>= k) := by
  refine ⟨fun s => ?_⟩
  have h := hm.eq s
  rcases hms : m s with ⟨e | a, s'⟩ <;> rw [hms] at h
  · rw [bind_of_error hms]; exact h
  · rw [bind_of_ok hms]; exact ((hk a).eq s').trans h

theorem pure (a : α) : Frame f (pure a : InvokeM σ ε α) := ⟨fun _ => rfl⟩

theorem fail (e : ε) : Frame f (fail e : InvokeM σ ε α) := ⟨fun _ => rfl⟩

theorem trap : Frame f (trap : InvokeM σ ε α) := ⟨fun _ => rfl⟩

theorem read : Frame f (read : InvokeM σ ε σ) := ⟨fun _ => rfl⟩

theorem update {g : σ → σ} (hg : ∀ s, f (g s) = f s) :
    Frame f (update g : InvokeM σ ε Unit) := ⟨hg⟩

theorem okOr (o : Option α) (e : ε) : Frame f (okOr o e : InvokeM σ ε α) := by
  cases o with
  | none => exact fail e
  | some a => exact pure a

theorem orTrap (o : Option α) : Frame f (orTrap o : InvokeM σ ε α) := by
  cases o with
  | none => exact trap
  | some a => exact pure a

theorem ite {c : Prop} [Decidable c] {m m' : InvokeM σ ε α}
    (hm : Frame f m) (hm' : Frame f m') : Frame f (if c then m else m') := by
  split
  · exact hm
  · exact hm'

theorem rejectIf (c : Prop) [Decidable c] (e : ε) :
    Frame f (rejectIf c e : InvokeM σ ε Unit) := by
  unfold InvokeM.rejectIf
  exact ite (fail e) (pure ())

theorem when (c : Prop) [Decidable c] {m : InvokeM σ ε Unit} (hm : Frame f m) :
    Frame f (when c m) := by
  unfold InvokeM.when
  exact ite hm (pure ())

theorem loop {round : γ → InvokeM σ ε (α ⊕ γ)}
    (hr : ∀ i, Frame f (round i)) : ∀ fuel i, Frame f (loop round fuel i)
  | 0, _ => trap
  | fuel + 1, i => (hr i).bind fun r => by
      cases r with
      | inl a => exact pure a
      | inr i' => exact loop hr fuel i'

/-- What changes nothing changes no part. -/
theorem of_id {m : InvokeM σ ε α} (hm : Frame id m) : Frame f m :=
  ⟨fun s => congrArg f (hm.eq s)⟩

theorem eq_of_ok {m : InvokeM σ ε α} (hm : Frame f m) {a : α} {s s' : σ}
    (h : m s = (.ok a, s')) : f s' = f s := by
  simpa [h] using hm.eq s

end Frame

/-! ## Logs -/

/-- Every run of `m` only appends to the log `f`. -/
structure Appends (f : σ → List γ) (m : InvokeM σ ε α) : Prop where
  pre : ∀ s, f s <+: f (m s).2

namespace Appends

variable {f : σ → List γ}

theorem bind {m : InvokeM σ ε α} {k : α → InvokeM σ ε β}
    (hm : Appends f m) (hk : ∀ a, Appends f (k a)) : Appends f (m >>= k) := by
  refine ⟨fun s => ?_⟩
  have h := hm.pre s
  rcases hms : m s with ⟨e | a, s'⟩ <;> rw [hms] at h
  · rw [bind_of_error hms]; exact h
  · rw [bind_of_ok hms]; exact h.trans ((hk a).pre s')

theorem of_frame {m : InvokeM σ ε α} (hm : Frame f m) : Appends f m :=
  ⟨fun s => by simp only [hm.eq s, List.prefix_refl]⟩

theorem update {g : σ → σ} (hg : ∀ s, f s <+: f (g s)) :
    Appends f (update g : InvokeM σ ε Unit) := ⟨hg⟩

theorem ite {c : Prop} [Decidable c] {m m' : InvokeM σ ε α}
    (hm : Appends f m) (hm' : Appends f m') : Appends f (if c then m else m') := by
  split
  · exact hm
  · exact hm'

theorem revert {m : InvokeM σ ε α} (hm : Appends f m) : Appends f (revert m) := by
  refine ⟨fun s => ?_⟩
  have h := hm.pre s
  rcases hms : m s with ⟨e | a, s'⟩ <;> rw [hms] at h
  · simp only [revert_of_error hms, List.prefix_refl]
  · rw [revert_of_ok hms]; exact h

end Appends

/-! ## Invariants -/

/-- Every run of `m`, successful or not, keeps `I`. -/
structure Keeps (I : σ → Prop) (m : InvokeM σ ε α) : Prop where
  keep : ∀ s, I s → I (m s).2

namespace Keeps

variable {I : σ → Prop}

theorem bind {m : InvokeM σ ε α} {k : α → InvokeM σ ε β}
    (hm : Keeps I m) (hk : ∀ a, Keeps I (k a)) : Keeps I (m >>= k) := by
  refine ⟨fun s hs => ?_⟩
  have h := hm.keep s hs
  rcases hms : m s with ⟨e | a, s'⟩ <;> rw [hms] at h
  · rw [bind_of_error hms]; exact h
  · rw [bind_of_ok hms]; exact (hk a).keep s' h

theorem pure (a : α) : Keeps I (pure a : InvokeM σ ε α) := ⟨fun _ h => h⟩

/-- A transaction keeps what its successful runs keep. -/
theorem revert {m : InvokeM σ ε α} (hm : ∀ s a s', I s → m s = (.ok a, s') → I s') :
    Keeps I (revert m) := by
  refine ⟨fun s hs => ?_⟩
  rcases hms : m s with ⟨e | a, s'⟩
  · rw [revert_of_error hms]; exact hs
  · rw [revert_of_ok hms]; exact hm s a s' hs hms

end Keeps

theorem revert_eq_ok {m : InvokeM σ ε α} {a : α} {s s' : σ} :
    revert m s = (.ok a, s') ↔ m s = (.ok a, s') := by
  rcases hm : m s with ⟨e | b, t⟩
  · rw [revert_of_error hm]
    exact ⟨nofun, nofun⟩
  · rw [revert_of_ok hm]

/-- What each round of a successful loop adds to the elements behind it. -/
theorem forEach_ok {f : α → InvokeM σ ε Unit} {P : List α → σ → Prop} {l : List α} {s s' : σ}
    (hstep : ∀ done a t t', P done t → a ∈ l → f a t = (.ok (), t') → P (done ++ [a]) t')
    (h0 : P [] s) (h : forEach f l s = (.ok (), s')) : P l s' := by
  suffices hall : ∀ (rest done : List α) (t : σ), rest ⊆ l → P done t →
      forEach f rest t = (.ok (), s') → P (done ++ rest) s' from
    hall l [] s (List.Subset.refl l) h0 h
  intro rest
  induction rest with
  | nil =>
      intro done t _ hP hrun
      obtain ⟨-, rfl⟩ := pure_eq_ok.mp hrun
      rwa [List.append_nil]
  | cons a rest ih =>
      intro done t hsub hP hrun
      obtain ⟨_, t', ha, hrest⟩ := bind_eq_ok.mp hrun
      rw [List.append_cons]
      exact ih _ t' (List.subset_of_cons_subset hsub)
        (hstep done a t t' hP (hsub List.mem_cons_self) ha) hrest

/-- A loop whose rounds succeed from every state succeeds. -/
theorem forEach_succeeds {f : α → InvokeM σ ε Unit} :
    ∀ {l : List α}, (∀ a ∈ l, ∀ s, ∃ s', f a s = (.ok (), s')) →
      ∀ s, ∃ s', forEach f l s = (.ok (), s')
  | [], _, s => ⟨s, rfl⟩
  | a :: l, hf, s => by
      obtain ⟨s', ha⟩ := hf a List.mem_cons_self s
      obtain ⟨s'', hl⟩ := forEach_succeeds (fun b hb => hf b (List.mem_cons_of_mem a hb)) s'
      exact ⟨s'', (bind_of_ok ha).trans hl⟩

end InvokeM

end PrivacyWallet
