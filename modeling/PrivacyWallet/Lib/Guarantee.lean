import PrivacyWallet.Lib.Async

/-!
# What programs guarantee

`Within R Q p` says that every access of `p` takes the shared state to one that
`R` allows, and that what `p` returns satisfies `Q`, whatever its accesses
find. Programs put together from such programs are such programs; and when all
programs of a system are, and its environment keeps to `R`, the states of a run
are a chain of steps that `R` allows (`Sys.steps_within`). What is left to show
of the system is then a fact about such chains.

`Throwing` is the same for programs that may throw.

`Safe I R Q p s` is about a program whose duties depend on what it has seen:
from `s` on, among others that keep the invariant `I` and step by the preorder
`R`, `p` does so too, and `Q` holds when it returns. What `R` keeps stays true
while others run, so a fact of the state at one access may be used at a later
one. In a system of such programs `I` holds in every state (`Sys.safe_run`).
-/

namespace PrivacyWallet

namespace Async

variable {σ α β : Type}

def Within (R : σ → σ → Prop) (Q : α → Prop) : Async σ α → Prop
  | .done a => Q a
  | .await access rest => (∀ s, R s (access s)) ∧ ∀ s, Within R Q (rest s)

variable {R : σ → σ → Prop} {Q : α → Prop} {Q' : β → Prop}

theorem Within.bind {p : Async σ α} {k : α → Async σ β} (hp : Within R Q p)
    (hk : ∀ a, Q a → Within R Q' (k a)) : Within R Q' (p >>= k) := by
  induction p with
  | done a => exact hk a hp
  | await access rest ih => exact ⟨hp.1, fun s => ih s (hp.2 s)⟩

theorem Within.mono {Q₂ : α → Prop} {p : Async σ α} (hp : Within R Q p)
    (hQ : ∀ a, Q a → Q₂ a) : Within R Q₂ p := by
  induction p with
  | done a => exact hQ a hp
  | await access rest ih => exact ⟨hp.1, fun s => ih s (hp.2 s)⟩

theorem within_read (hR : ∀ s, R s s) : Within R (fun _ => True) (read : Async σ σ) :=
  ⟨hR, fun _ => True.intro⟩

theorem within_update {f : σ → σ} (hf : ∀ s, R s (f s)) :
    Within R (fun _ => True) (update f : Async σ Unit) :=
  ⟨hf, fun _ => True.intro⟩

theorem Within.resume {p : Async σ α} (hp : Within R Q p) (hR : ∀ s, R s s) (s : σ) :
    R s (p.resume s).1 ∧ Within R Q (p.resume s).2 := by
  cases p with
  | done a => exact ⟨hR s, hp⟩
  | await access rest => exact ⟨hp.1 s, hp.2 s⟩

/-! ## Programs that may throw -/

/-- The same for a program that may throw: what it returns satisfies `Q`. -/
def Throwing (R : σ → σ → Prop) (Q : α → Prop) (x : ExceptT String (Async σ) α) : Prop :=
  Within R (fun result => ∀ a, result = .ok a → Q a) x.run

theorem throwing_pure {a : α} (h : Q a) :
    Throwing R Q (pure a : ExceptT String (Async σ) α) := by
  intro b hb
  cases hb
  exact h

theorem Throwing.mono {Q₂ : α → Prop} {x : ExceptT String (Async σ) α} (hx : Throwing R Q x)
    (hQ : ∀ a, Q a → Q₂ a) : Throwing R Q₂ x :=
  Within.mono hx fun _ h a ha => hQ a (h a ha)

theorem throwing_throw (message : String) :
    Throwing R Q (throw message : ExceptT String (Async σ) α) := by
  intro b hb
  cases hb

theorem throwing_lift {p : Async σ α} (hp : Within R Q p) :
    Throwing R Q (ExceptT.lift p) :=
  hp.bind fun a ha b hb => by
    cases hb
    exact ha

theorem throwing_ofExcept {result : Except String α} (h : ∀ a, result = .ok a → Q a) :
    Throwing R Q (ExceptT.mk (pure result) : ExceptT String (Async σ) α) := h

theorem Throwing.bind {x : ExceptT String (Async σ) α} {k : α → ExceptT String (Async σ) β}
    (hx : Throwing R Q x) (hk : ∀ a, Q a → Throwing R Q' (k a)) : Throwing R Q' (x >>= k) := by
  refine Within.bind (p := x.run) hx fun result hresult => ?_
  cases result with
  | error message =>
      intro b hb
      cases hb
  | ok a => exact hk a (hresult a rfl)

theorem Throwing.tryCatch {x : ExceptT String (Async σ) α}
    {handler : String → ExceptT String (Async σ) α} (hx : Throwing R Q x)
    (hhandler : ∀ message, Throwing R Q (handler message)) :
    Throwing R Q (tryCatch x handler) := by
  refine Within.bind (p := x.run) hx fun result hresult => ?_
  cases result with
  | error message => exact hhandler message
  | ok a => exact hresult

/-! ## Programs among others -/

def Safe (I : σ → Prop) (R : σ → σ → Prop) (Q : α → σ → Prop) : Async σ α → σ → Prop
  | .done a, s => Q a s
  | .await access rest, s => ∀ s', R s s' → I s' →
      I (access s') ∧ R s' (access s') ∧ Safe I R Q (rest s') (access s')

/-- The same for a program that may throw. -/
def SafeT (I : σ → Prop) (R : σ → σ → Prop) (Q : α → σ → Prop) (x : ExceptT String (Async σ) α)
    (s : σ) : Prop :=
  Safe I R (fun result s => ∀ a, result = .ok a → Q a s) x.run s

section Safe

variable {I : σ → Prop} {Q : α → σ → Prop} {Q' : β → σ → Prop} {s : σ}

/-- A program to be run stays safe while others run. -/
theorem Safe.stable (htrans : ∀ s₁ s₂ s₃, R s₁ s₂ → R s₂ s₃ → R s₁ s₃) {p : Async σ α} {s' : σ}
    (hp : Safe I R (fun _ _ => True) p s) (hs : R s s') : Safe I R (fun _ _ => True) p s' := by
  cases p with
  | done a => exact True.intro
  | await access rest => exact fun s'' hs' hI => hp s'' (htrans _ _ _ hs hs') hI

/-- What a safe program's next access does. -/
theorem Safe.resume (hrefl : ∀ s, R s s) {p : Async σ α}
    (hp : Safe I R (fun _ _ => True) p s) (hI : I s) :
    I (p.resume s).1 ∧ R s (p.resume s).1 ∧
      Safe I R (fun _ _ => True) (p.resume s).2 (p.resume s).1 := by
  cases p with
  | done a => exact ⟨hI, hrefl s, hp⟩
  | await access rest => exact hp s (hrefl s) hI

theorem Safe.bind (hrefl : ∀ s, R s s) (htrans : ∀ s₁ s₂ s₃, R s₁ s₂ → R s₂ s₃ → R s₁ s₃)
    {p : Async σ α} {k : α → Async σ β} (hp : Safe I R Q p s) (hI : I s)
    (hk : ∀ a s', R s s' → I s' → Q a s' → Safe I R Q' (k a) s') : Safe I R Q' (p >>= k) s := by
  induction p generalizing s with
  | done a => exact hk a s (hrefl s) hI hp
  | await access rest ih =>
      intro s' hs hI'
      obtain ⟨hIa, hRa, hrest⟩ := hp s' hs hI'
      exact ⟨hIa, hRa, ih s' hrest hIa fun a s'' hs'' hI'' hQ =>
        hk a s'' (htrans _ _ _ (htrans _ _ _ hs hRa) hs'') hI'' hQ⟩

theorem safeT_pure {a : α} (h : Q a s) : SafeT I R Q (pure a) s := by
  intro b hb
  cases hb
  exact h

theorem safeT_throw (message : String) : SafeT I R Q (throw message) s := by
  intro b hb
  cases hb

theorem safeT_ofExcept {result : Except String α} (h : ∀ a, result = .ok a → Q a s) :
    SafeT I R Q (ExceptT.mk (pure result)) s := h

/-- One access. -/
theorem safeT_access {access : σ → σ} {f : σ → α}
    (h : ∀ s', R s s' → I s' → I (access s') ∧ R s' (access s') ∧ Q (f s') (access s')) :
    SafeT I R Q (ExceptT.lift (Async.await access fun s => pure (f s))) s := by
  intro s' hs hI
  obtain ⟨hIa, hRa, hQ⟩ := h s' hs hI
  refine ⟨hIa, hRa, fun a ha => ?_⟩
  cases ha
  exact hQ

theorem SafeT.bind (hrefl : ∀ s, R s s) (htrans : ∀ s₁ s₂ s₃, R s₁ s₂ → R s₂ s₃ → R s₁ s₃)
    {x : ExceptT String (Async σ) α} {k : α → ExceptT String (Async σ) β} (hx : SafeT I R Q x s)
    (hI : I s) (hk : ∀ a s', R s s' → I s' → Q a s' → SafeT I R Q' (k a) s') :
    SafeT I R Q' (x >>= k) s := by
  refine Safe.bind (p := x.run) hrefl htrans hx hI fun result s' hs hI' hresult => ?_
  cases result with
  | error message =>
      intro b hb
      cases hb
  | ok a => exact hk a s' hs hI' (hresult a rfl)

end Safe

end Async

namespace Sys

variable {σ ι α : Type} [DecidableEq ι] {R : σ → σ → Prop} {P : Act σ ι α → Prop}

/-- One step changes the state as the access of a program does, as the
environment does, or not at all. -/
theorem exec_state (hR : ∀ s, R s s) {y : Sys σ ι α} {a : Act σ ι α}
    (hresume : ∀ i p, y.thread i = some p → R y.state (p.resume y.state).1)
    (henv : ∀ f, a = .env f → R y.state (f y.state)) : R y.state (y.exec a).state := by
  cases a with
  | start i p =>
      rw [exec]
      split <;> exact hR _
  | abort i => exact hR _
  | env f => exact henv f rfl
  | resume i =>
      rw [exec]
      split
      · exact hR _
      next p hp =>
        have hstep := hresume i p hp
        split
        next s a hres =>
          rw [hres] at hstep
          exact hstep
        next s p' hres =>
          rw [hres] at hstep
          exact hstep

/-- One step of a system whose programs and environment keep to `R`. -/
theorem exec_within (hR : ∀ s, R s s)
    (hstart : ∀ i p, P (.start i p) → p.Within R fun _ => True)
    (henv : ∀ f s, P (.env f) → R s (f s)) {y : Sys σ ι α} {a : Act σ ι α} (ha : P a)
    (hy : ∀ i p, y.thread i = some p → p.Within R fun _ => True) :
    R y.state (y.exec a).state ∧
      ∀ i p, (y.exec a).thread i = some p → p.Within R fun _ => True := by
  refine ⟨exec_state hR (fun i p hp => ((hy i p hp).resume hR _).1)
    (fun f hf => henv f _ (hf ▸ ha)), ?_⟩
  refine (@exec_coupled σ ι α _ (fun _ _ => True) P (fun _ p => p.Within R fun _ => True)
    ?_ (fun _ _ _ _ _ _ _ _ _ hq => hq) (fun i p _ _ hp _ => hstart i p hp)
    (fun _ _ _ _ _ => ⟨True.intro, fun _ hp => hp⟩) y [] a ha True.intro hy).2
  intro s as p hp _
  have hrest := (hp.resume hR s).2
  rcases hres : p.resume s with ⟨s', a | ⟨access, rest⟩⟩
  · exact True.intro
  · rw [hres] at hrest
    exact ⟨hrest, True.intro⟩

/-- The states of a run are a chain of steps that `R` allows. -/
theorem steps_within (hR : ∀ s, R s s)
    (hstart : ∀ i p, P (.start i p) → p.Within R fun _ => True)
    (henv : ∀ f s, P (.env f) → R s (f s)) {s : σ} {acts : List (Act σ ι α)}
    (hacts : ∀ a ∈ acts, P a) {l : List (Act σ ι α)} {a : Act σ ι α} (hl : l ++ [a] <+: acts) :
    R (Run.run exec ⟨s, fun _ => none⟩ l).state
      (Run.run exec ⟨s, fun _ => none⟩ (l ++ [a])).state := by
  have hthreads : ∀ i p, (Run.run exec ⟨s, fun _ => none⟩ l).thread i = some p →
      p.Within R fun _ => True := by
    refine @Run.prefix_invariant _ _ Unit exec (fun _ _ => [])
      (fun (y : Sys σ ι α) _ => ∀ i p, y.thread i = some p → p.Within R fun _ => True)
      ⟨s, fun _ => none⟩ l (fun i p hp => by cases hp) ?_
    intro m b hm hy
    have hb : b ∈ acts := hl.subset
      (List.mem_append_left _ (hm.subset (List.mem_append_right _ List.mem_cons_self)))
    exact (exec_within hR hstart henv (hacts b hb) hy).2
  have ha : a ∈ acts := hl.subset (List.mem_append_right _ List.mem_cons_self)
  rw [Run.run_snoc]
  exact (exec_within hR hstart henv (hacts a ha) hthreads).1

/-! ## Invariants of programs among others -/

section Safe

variable {I : σ → Prop}

theorem exec_safe (hrefl : ∀ s, R s s) (htrans : ∀ s₁ s₂ s₃, R s₁ s₂ → R s₂ s₃ → R s₁ s₃)
    (hstart : ∀ i p, P (.start i p) → ∀ s, I s → p.Safe I R (fun _ _ => True) s)
    (henv : ∀ f s, P (.env f) → I s → I (f s) ∧ R s (f s)) {y : Sys σ ι α} {a : Act σ ι α}
    (ha : P a) (hI : I y.state)
    (hy : ∀ i p, y.thread i = some p → p.Safe I R (fun _ _ => True) y.state) :
    I (y.exec a).state ∧ R y.state (y.exec a).state ∧
      ∀ i p, (y.exec a).thread i = some p → p.Safe I R (fun _ _ => True) (y.exec a).state := by
  have hstep := @exec_coupled σ ι α _ (fun s _ => I s) P
    (fun s p => p.Safe I R (fun _ _ => True) s) ?_ ?_ (fun i p s _ hp hI => hstart i p hp s hI)
    ?_ y [] a ha hI hy
  · refine ⟨hstep.1, exec_state hrefl (fun i p hp => ?_) (fun f hf => ?_), hstep.2⟩
    · exact ((hy i p hp).resume hrefl hI).2.1
    · exact (henv f _ (hf ▸ ha) hI).2
  · intro s as p hp hI
    obtain ⟨hIs, -, hrest⟩ := hp.resume hrefl hI
    rcases hres : p.resume s with ⟨s', a | ⟨access, rest⟩⟩
    · rw [hres] at hIs
      exact hIs
    · rw [hres] at hIs hrest
      exact ⟨hrest, hIs⟩
  · -- the others' programs stay safe
    intro i j _ s as p q hI hp hq
    exact hq.stable htrans (hp.resume hrefl hI).2.1
  · intro f s as hf hI
    obtain ⟨hIf, hRf⟩ := henv f s hf hI
    exact ⟨hIf, fun p hp => hp.stable htrans hRf⟩

/-- The invariant holds after a run, and `R` leads there from every state of
it. -/
theorem safe_run (hrefl : ∀ s, R s s) (htrans : ∀ s₁ s₂ s₃, R s₁ s₂ → R s₂ s₃ → R s₁ s₃)
    (hstart : ∀ i p, P (.start i p) → ∀ s, I s → p.Safe I R (fun _ _ => True) s)
    (henv : ∀ f s, P (.env f) → I s → I (f s) ∧ R s (f s)) {s : σ} (hI : I s)
    {acts : List (Act σ ι α)} (hacts : ∀ a ∈ acts, P a) {l : List (Act σ ι α)}
    (hl : l <+: acts) :
    I (Run.run exec ⟨s, fun _ => none⟩ acts).state ∧
      R (Run.run exec ⟨s, fun _ => none⟩ l).state (Run.run exec ⟨s, fun _ => none⟩ acts).state := by
  obtain ⟨k, rfl⟩ := hl
  have hpre : ∀ m : List (Act σ ι α), (∀ a ∈ m, P a) →
      I (Run.run exec ⟨s, fun _ => none⟩ m).state ∧
        ∀ i p, (Run.run exec ⟨s, fun _ => none⟩ m).thread i = some p →
          p.Safe I R (fun _ _ => True) (Run.run exec ⟨s, fun _ => none⟩ m).state := by
    intro m hm
    refine @Run.prefix_invariant _ _ Unit exec (fun _ _ => [])
      (fun (y : Sys σ ι α) _ => I y.state ∧
        ∀ i p, y.thread i = some p → p.Safe I R (fun _ _ => True) y.state)
      ⟨s, fun _ => none⟩ m ⟨hI, fun i p hp => by cases hp⟩ ?_
    intro m' b hm' ⟨hIy, hy⟩
    have hstep := exec_safe hrefl htrans hstart henv
      (hm b (hm'.subset (List.mem_append_right _ List.mem_cons_self))) hIy hy
    exact ⟨hstep.1, hstep.2.2⟩
  refine ⟨(hpre _ hacts).1, ?_⟩
  induction k using List.reverseRecOn with
  | nil =>
      rw [List.append_nil]
      exact hrefl _
  | append_singleton k a ih =>
      rw [← List.append_assoc] at hacts ⊢
      have hacts' : ∀ b ∈ l ++ k, P b := fun b hb => hacts b (List.mem_append_left _ hb)
      obtain ⟨hIy, hy⟩ := hpre (l ++ k) hacts'
      have hstep := exec_safe hrefl htrans hstart henv
        (hacts a (List.mem_append_right _ List.mem_cons_self)) hIy hy
      rw [Run.run_snoc]
      exact htrans _ _ _ (ih hacts') hstep.2.1

end Safe

end Sys

end PrivacyWallet
