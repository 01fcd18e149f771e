import PrivacyWallet.Lib.Run

/-!
# Programs that share a state

An `async` program runs in pieces: between two of its accesses to a shared
state, other programs may run. `Async σ α` is such a program, cut at its
accesses; each access is atomic. `Trace p ss a` says that `p`, whose
accesses found the shared state at `ss`, returns `a`; what a program does
with what it read is decided by its traces alone (`trace_bind`).

`Sys` is a set of such programs over one state, with an environment that
may change the state between any two accesses. `Sys.invariant` is its
induction: an invariant of the state and of the results so far is enough,
with a condition on the programs in flight.
-/

namespace PrivacyWallet

/-- A program that returned, or one about to access the shared state: the
state becomes `access s`, and the program goes on as `rest s`. -/
inductive Async (σ α : Type) where
  | done (a : α)
  | await (access : σ → σ) (rest : σ → Async σ α)

namespace Async

variable {σ α β γ : Type}

def bind : Async σ α → (α → Async σ β) → Async σ β
  | .done a, k => k a
  | .await access rest, k => .await access fun s => bind (rest s) k

instance : Monad (Async σ) where
  pure := .done
  bind := bind

/-- Read the shared state. -/
def read : Async σ σ := .await id .done

/-- Change the shared state. -/
def update (f : σ → σ) : Async σ Unit := .await f fun _ => .done ()

/-- The next access. -/
def resume : Async σ α → σ → σ × Async σ α
  | .done a, s => (s, .done a)
  | .await access rest, s => (access s, rest s)

/-- The whole program, with nothing in between. -/
def run : Async σ α → σ → σ × α
  | .done a, s => (s, a)
  | .await access rest, s => run (rest s) (access s)

theorem run_bind (p : Async σ α) (k : α → Async σ β) (s : σ) :
    run (p >>= k) s = run (k (run p s).2) (run p s).1 := by
  induction p generalizing s with
  | done a => rfl
  | await access rest ih => exact ih s (access s)

theorem run_read_bind (k : σ → Async σ α) (s : σ) : run (read >>= k) s = run (k s) s := rfl

/-- The next `n` accesses, with nothing in between. -/
def advance : Nat → Async σ α → σ → σ × Async σ α
  | 0, p, s => (s, p)
  | n + 1, p, s => advance n (p.resume s).2 (p.resume s).1

@[simp] theorem advance_done (n : Nat) (a : α) (s : σ) :
    advance n (.done a) s = (s, .done a) := by
  induction n with
  | zero => rfl
  | succ n ih => exact ih

@[simp] theorem advance_await (n : Nat) (access : σ → σ) (rest : σ → Async σ α) (s : σ) :
    advance (n + 1) (.await access rest) s = advance n (rest s) (access s) := rfl

@[simp] theorem await_bind (access : σ → σ) (rest : σ → Async σ α) (k : α → Async σ β) :
    (Async.await access rest >>= k) = .await access fun s => rest s >>= k := rfl

/-! ## Programs among writers -/

/-- The program, of which the `i`-th access finds the state `s i`: the number
of its accesses, and what it returns. For a program that only reads, among
others that write. -/
def feed : Async σ α → (Nat → σ) → Nat × α
  | .done a, _ => (0, a)
  | .await _ rest, s =>
      let r := feed (rest (s 0)) fun i => s (i + 1)
      (r.1 + 1, r.2)

@[simp] theorem feed_pure (a : α) (s : Nat → σ) : feed (pure a : Async σ α) s = (0, a) := rfl

theorem feed_read_bind (k : σ → Async σ α) (s : Nat → σ) :
    feed (read >>= k) s
      = ((feed (k (s 0)) fun i => s (i + 1)).1 + 1, (feed (k (s 0)) fun i => s (i + 1)).2) := rfl

theorem feed_bind (p : Async σ α) (k : α → Async σ β) (s : Nat → σ) :
    feed (p >>= k) s
      = ((feed p s).1 + (feed (k (feed p s).2) fun i => s ((feed p s).1 + i)).1,
        (feed (k (feed p s).2) fun i => s ((feed p s).1 + i)).2) := by
  induction p generalizing s with
  | done a =>
      simp only [feed, Nat.zero_add]
      rfl
  | await access rest ih =>
      rw [await_bind, feed, ih]
      simp only [feed, Nat.add_right_comm _ 1]

/-- A program that only reads, over a part of the state. -/
def observe {τ : Type} (f : τ → σ) : Async σ α → Async τ α
  | .done a => .done a
  | .await _ rest => .await id fun t => observe f (rest (f t))

theorem feed_observe {τ : Type} (f : τ → σ) (p : Async σ α) (s : Nat → τ) :
    feed (observe f p) s = feed p fun i => f (s i) := by
  induction p generalizing s with
  | done a => rfl
  | await access rest ih => simp only [observe, feed, ih]

/-! ## Traces -/

/-- `p`, with its accesses at the states `ss`, returns `a`. -/
inductive Trace : Async σ α → List σ → α → Prop where
  | done {a : α} : Trace (.done a) [] a
  | await {access : σ → σ} {rest : σ → Async σ α} {s : σ} {ss : List σ} {a : α}
      (h : Trace (rest s) ss a) : Trace (.await access rest) (s :: ss) a

@[simp] theorem trace_pure {a b : α} {ss : List σ} :
    Trace (pure a : Async σ α) ss b ↔ ss = [] ∧ b = a := by
  constructor
  · intro h
    cases h
    exact ⟨rfl, rfl⟩
  · rintro ⟨rfl, rfl⟩
    exact .done

theorem trace_await {access : σ → σ} {rest : σ → Async σ α} {ss : List σ} {a : α} :
    Trace (.await access rest) ss a ↔ ∃ s ss', ss = s :: ss' ∧ Trace (rest s) ss' a := by
  constructor
  · intro h
    cases h with
    | await h => exact ⟨_, _, rfl, h⟩
  · rintro ⟨s, ss', rfl, h⟩
    exact .await h

@[simp] theorem trace_read_bind {k : σ → Async σ α} {ss : List σ} {a : α} :
    Trace (read >>= k) ss a ↔ ∃ s ss', ss = s :: ss' ∧ Trace (k s) ss' a :=
  trace_await

/-- The accesses of a sequence are those of the first program, then those
of the second. -/
theorem trace_bind {p : Async σ α} {k : α → Async σ β} {ss : List σ} {b : β} :
    Trace (p >>= k) ss b ↔
      ∃ ss₁ ss₂ a, ss = ss₁ ++ ss₂ ∧ Trace p ss₁ a ∧ Trace (k a) ss₂ b := by
  induction p generalizing ss with
  | done a =>
      constructor
      · intro h
        exact ⟨[], ss, a, rfl, .done, h⟩
      · rintro ⟨ss₁, ss₂, a', rfl, h₁, h₂⟩
        cases h₁
        exact h₂
  | await access rest ih =>
      rw [await_bind, trace_await]
      constructor
      · rintro ⟨s, ss', rfl, h⟩
        obtain ⟨ss₁, ss₂, a, rfl, h₁, h₂⟩ := (ih s).mp h
        exact ⟨s :: ss₁, ss₂, a, rfl, .await h₁, h₂⟩
      · rintro ⟨ss₁, ss₂, a, rfl, h₁, h₂⟩
        obtain ⟨s, ss', rfl, h⟩ := trace_await.mp h₁
        exact ⟨s, ss' ++ ss₂, rfl, (ih s).mpr ⟨ss', ss₂, a, rfl, h, h₂⟩⟩

/-! ## Programs that only read -/

/-- No access of the program changes the state. -/
def ReadOnly : Async σ α → Prop
  | .done _ => True
  | .await access rest => access = id ∧ ∀ s, ReadOnly (rest s)

theorem ReadOnly.pure (a : α) : ReadOnly (pure a : Async σ α) := True.intro

theorem ReadOnly.bind {p : Async σ α} {k : α → Async σ β} (hp : ReadOnly p)
    (hk : ∀ a, ReadOnly (k a)) : ReadOnly (p >>= k) := by
  induction p with
  | done a => exact hk a
  | await access rest ih => exact ⟨hp.1, fun s => ih s (hp.2 s)⟩

theorem ReadOnly.read : ReadOnly (read : Async σ σ) := ⟨rfl, fun _ => True.intro⟩

theorem ReadOnly.resume_state {p : Async σ α} (hp : ReadOnly p) (s : σ) :
    (p.resume s).1 = s := by
  cases p with
  | done a => rfl
  | await access rest => rw [resume, hp.1, id]

end Async

/-! ## Several programs over one state -/

/-- A shared state with the programs in flight. -/
structure Sys (σ ι α : Type) where
  state : σ
  thread : ι → Option (Async σ α)

/-- One scheduling decision: start a program, let one make its next access,
drop one, or let the environment change the state. -/
inductive Act (σ ι α : Type) where
  | start (i : ι) (p : Async σ α)
  | resume (i : ι)
  | abort (i : ι)
  | env (f : σ → σ)

namespace Sys

variable {σ ι α : Type} [DecidableEq ι]

/-- One step. A program that returns is no longer in flight; one that is in
flight is not started again. -/
def exec (y : Sys σ ι α) : Act σ ι α → Sys σ ι α
  | .start i p =>
      match y.thread i with
      | none => { y with thread := Function.update y.thread i (some p) }
      | some _ => y
  | .resume i =>
      match y.thread i with
      | none => y
      | some p =>
          match p.resume y.state with
          | (s, .done _) => ⟨s, Function.update y.thread i none⟩
          | (s, p') => ⟨s, Function.update y.thread i (some p')⟩
  | .abort i => { y with thread := Function.update y.thread i none }
  | .env f => { y with state := f y.state }

omit [DecidableEq ι] in
/-- What the programs return at a step. -/
def returned (y : Sys σ ι α) : Act σ ι α → List α
  | .resume i =>
      match y.thread i with
      | none => []
      | some p =>
          match p.resume y.state with
          | (_, .done a) => [a]
          | (_, _) => []
  | .start _ _ => []
  | .abort _ => []
  | .env _ => []

/-- What an access of a program is to keep, after the results `as`: the
invariant `I`, with the program's result if it returned, else the condition
`T` on the program. -/
def Kept (I : σ → List α → Prop) (T : Async σ α → Prop) (as : List α) :
    σ × Async σ α → Prop
  | (s, .done a) => I s (as ++ [a])
  | (s, .await access rest) => T (.await access rest) ∧ I s as

variable {I : σ → List α → Prop} {P : Act σ ι α → Prop}

section Coupled

variable {T : σ → Async σ α → Prop}

/-- One step keeps the invariant `I` of the state and the results, and the
condition `T` on the programs in flight, which may speak about the state:
then a program's access is to leave the others' condition intact. -/
theorem exec_coupled
    (hresume : ∀ s as p, T s p → I s as → Kept I (T (p.resume s).1) as (p.resume s))
    (hother : ∀ i j : ι, i ≠ j → ∀ s as p q, I s as → T s p → T s q → T (p.resume s).1 q)
    (hstart : ∀ i p s as, P (.start i p) → I s as → T s p)
    (henv : ∀ f s as, P (.env f) → I s as → I (f s) as ∧ ∀ p, T s p → T (f s) p)
    {y : Sys σ ι α} {as : List α} {a : Act σ ι α} (ha : P a) (hI : I y.state as)
    (hT : ∀ i p, y.thread i = some p → T y.state p) :
    I (y.exec a).state (as ++ y.returned a) ∧
      ∀ i p, (y.exec a).thread i = some p → T (y.exec a).state p := by
  -- a step replaces at most one program
  have hupdate : ∀ (s : σ) (i : ι) (q : Option (Async σ α)), (∀ p, q = some p → T s p) →
      (∀ j p, j ≠ i → y.thread j = some p → T s p) →
      ∀ j p, Function.update y.thread i q j = some p → T s p := by
    intro s i q hq hrest j p hj
    by_cases hji : j = i
    · subst hji
      rw [Function.update_self] at hj
      exact hq p hj
    · rw [Function.update_of_ne hji] at hj
      exact hrest j p hji hj
  cases a with
  | start i p =>
      rw [exec, returned, List.append_nil]
      split
      · refine ⟨hI, hupdate _ i (some p) (fun q hq => ?_) fun j q _ hj => hT j q hj⟩
        cases hq
        exact hstart i p _ _ ha hI
      · exact ⟨hI, hT⟩
  | abort i =>
      rw [exec, returned, List.append_nil]
      exact ⟨hI, hupdate _ i none (fun q hq => by cases hq) fun j q _ hj => hT j q hj⟩
  | env f =>
      rw [exec, returned, List.append_nil]
      obtain ⟨hf, hTf⟩ := henv f _ _ ha hI
      exact ⟨hf, fun i p hi => hTf p (hT i p hi)⟩
  | resume i =>
      rw [exec, returned]
      cases hi : y.thread i with
      | none =>
          rw [List.append_nil]
          exact ⟨hI, hT⟩
      | some p =>
          have hp := hT i p hi
          have hstep := hresume y.state as p hp hI
          have hrest : ∀ j q, j ≠ i → y.thread j = some q → T (p.resume y.state).1 q :=
            fun j q hji hj => hother i j (Ne.symm hji) _ as p q hI hp (hT j q hj)
          dsimp only
          rcases hres : p.resume y.state with ⟨s, a | ⟨access, rest⟩⟩
          · rw [hres] at hstep hrest
            exact ⟨hstep, hupdate s i none (fun q hq => by cases hq) hrest⟩
          · rw [hres] at hstep hrest
            rw [List.append_nil]
            refine ⟨hstep.2, hupdate s i _ (fun q hq => ?_) hrest⟩
            cases hq
            exact hstep.1

/-- The induction over a run. -/
theorem invariant_coupled
    (hresume : ∀ s as p, T s p → I s as → Kept I (T (p.resume s).1) as (p.resume s))
    (hother : ∀ i j : ι, i ≠ j → ∀ s as p q, I s as → T s p → T s q → T (p.resume s).1 q)
    (hstart : ∀ i p s as, P (.start i p) → I s as → T s p)
    (henv : ∀ f s as, P (.env f) → I s as → I (f s) as ∧ ∀ p, T s p → T (f s) p)
    {s : σ} (hI : I s []) {acts : List (Act σ ι α)} (hacts : ∀ a ∈ acts, P a) :
    I (Run.run exec ⟨s, fun _ => none⟩ acts).state
      (Run.history exec returned ⟨s, fun _ => none⟩ acts) := by
  have hall : I (Run.run exec ⟨s, fun _ => none⟩ acts).state
      (Run.history exec returned ⟨s, fun _ => none⟩ acts) ∧
      ∀ i p, (Run.run exec ⟨s, fun _ => none⟩ acts).thread i = some p →
        T (Run.run exec ⟨s, fun _ => none⟩ acts).state p := by
    refine @Run.prefix_invariant _ _ _ exec returned
      (fun (y : Sys σ ι α) as => I y.state as ∧
        ∀ i p, y.thread i = some p → T y.state p)
      ⟨s, fun _ => none⟩ acts ⟨hI, fun i p hp => by cases hp⟩ ?_
    intro l a hl hinv
    have ha : a ∈ acts := hl.subset (List.mem_append_right _ List.mem_cons_self)
    exact exec_coupled hresume hother hstart henv (hacts a ha) hinv.1 hinv.2
  exact hall.1

end Coupled

variable {T : Async σ α → Prop}

/-- The induction over a run, with a condition on the programs in flight that
does not speak about the state. -/
theorem invariant
    (hresume : ∀ s as p, T p → I s as → Kept I T as (p.resume s))
    (hstart : ∀ i p, P (.start i p) → T p)
    (henv : ∀ f s as, P (.env f) → I s as → I (f s) as)
    {s : σ} (hI : I s []) {acts : List (Act σ ι α)} (hacts : ∀ a ∈ acts, P a) :
    I (Run.run exec ⟨s, fun _ => none⟩ acts).state
      (Run.history exec returned ⟨s, fun _ => none⟩ acts) :=
  invariant_coupled (T := fun _ => T) hresume (fun _ _ _ _ _ _ _ _ _ hq => hq)
    (fun i p _ _ hp _ => hstart i p hp) (fun f s as hf hI => ⟨henv f s as hf hI, fun _ hp => hp⟩)
    hI hacts

end Sys

/-! ## What the programs in flight started from -/

/-- A system, with the state that the first access of each program in flight
found. -/
structure Watched (σ ι α : Type) where
  sys : Sys σ ι α
  opened : ι → Option σ

namespace Watched

variable {σ ι α : Type} [DecidableEq ι]

def exec (x : Watched σ ι α) (a : Act σ ι α) : Watched σ ι α where
  sys := x.sys.exec a
  opened := match a with
    | .start i _ =>
        match x.sys.thread i with
        | none => Function.update x.opened i none
        | some _ => x.opened
    | .resume i => Function.update x.opened i (some ((x.opened i).getD x.sys.state))
    | .abort _ => x.opened
    | .env _ => x.opened

/-- No program in flight. -/
def idle (s : σ) : Watched σ ι α := ⟨⟨s, fun _ => none⟩, fun _ => none⟩

variable {T : Option σ → Async σ α → Prop} {P : Act σ ι α → Prop}

/-- A condition on programs and what they started from, kept by their accesses,
holds of every program in flight. By cases on the act: a start establishes it,
an access of the program keeps it, and all other acts are about other programs.
-/
theorem thread_invariant
    (hresume : ∀ o s p, T o p →
      Sys.Kept (fun _ _ => True) (T (some (o.getD s))) [] (p.resume s))
    (hstart : ∀ i p, P (.start i p) → T none p)
    {s : σ} {acts : List (Act σ ι α)} (hacts : ∀ a ∈ acts, P a) :
    ∀ i p, (Run.run exec (idle s) acts).sys.thread i = some p →
      T ((Run.run exec (idle s) acts).opened i) p := by
  refine @Run.prefix_invariant _ _ Unit exec (fun _ _ => [])
    (fun (x : Watched σ ι α) _ => ∀ i p, x.sys.thread i = some p → T (x.opened i) p)
    (idle s) acts (fun i p hp => by cases hp) ?_
  intro l a hl hT
  have ha : P a := hacts a (hl.subset (List.mem_append_right _ List.mem_cons_self))
  generalize Run.run exec (idle s) l = x at hT ⊢
  intro j q hq
  cases a with
  | start i p =>
      rw [exec, Sys.exec] at hq
      rw [exec]
      cases hi : x.sys.thread i with
      | some p' =>
          rw [hi] at hq
          exact hT j q hq
      | none =>
          rw [hi] at hq
          dsimp only at hq ⊢
          by_cases hji : j = i
          · subst hji
            rw [Function.update_self] at hq ⊢
            cases hq
            exact hstart j _ ha
          · rw [Function.update_of_ne hji] at hq ⊢
            exact hT j q hq
  | abort i =>
      rw [exec, Sys.exec] at hq
      dsimp only at hq
      by_cases hji : j = i
      · subst hji
        rw [Function.update_self] at hq
        cases hq
      · rw [Function.update_of_ne hji] at hq
        exact hT j q hq
  | env f => exact hT j q hq
  | resume i =>
      rw [exec, Sys.exec] at hq
      rw [exec]
      cases hi : x.sys.thread i with
      | none =>
          rw [hi] at hq
          dsimp only at hq ⊢
          have hji : j ≠ i := by
            rintro rfl
            rw [hi] at hq
            cases hq
          rw [Function.update_of_ne hji]
          exact hT j q hq
      | some p =>
          rw [hi] at hq
          have hkept := hresume (x.opened i) x.sys.state p (hT i p hi)
          dsimp only at hq ⊢
          by_cases hji : j = i
          · subst hji
            rw [Function.update_self]
            rcases hres : p.resume x.sys.state with ⟨s', a | ⟨access, rest⟩⟩
            · simp [hres] at hq
            · rw [hres] at hq hkept
              simp only [Function.update_self, Option.some.injEq] at hq
              exact hq ▸ hkept.1
          · rw [Function.update_of_ne hji]
            refine hT j q ?_
            rcases hres : p.resume x.sys.state with ⟨s', a | ⟨access, rest⟩⟩
            · rw [hres] at hq
              simpa [Function.update_of_ne hji] using hq
            · rw [hres] at hq
              simpa [Function.update_of_ne hji] using hq

end Watched

end PrivacyWallet
