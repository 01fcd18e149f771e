import Mathlib.Tactic.Common

/-!
# Tasks that await calls

An `async` function runs up to its next `await` and goes on when what it
awaits has settled. `Task Q R E ε α` is such a function, cut at its awaits: it
asks `q : Q` and is answered in `R q` or with an error, and it reports events
of `E` on its way. An error that it does not catch ends it.

`Never ask` and `Once ask` bound how often a task asks what `ask` selects,
whatever it is answered; `Ensures S` is about what it returns, together with
all that it asked before.
-/

namespace PrivacyWallet

/-- A task that settled, or one about to report or to await. -/
inductive Task (Q : Type) (R : Q → Type) (E ε α : Type) where
  | settled (result : Except ε α)
  | report (event : E) (rest : Task Q R E ε α)
  | await (q : Q) (rest : Except ε (R q) → Task Q R E ε α)

namespace Task

variable {Q : Type} {R : Q → Type} {E ε α β : Type}

def bind : Task Q R E ε α → (α → Task Q R E ε β) → Task Q R E ε β
  | .settled (.ok a), k => k a
  | .settled (.error e), _ => .settled (.error e)
  | .report event rest, k => .report event (bind rest k)
  | .await q rest, k => .await q fun answer => bind (rest answer) k

instance : Monad (Task Q R E ε) where
  pure a := .settled (.ok a)
  bind := bind

/-- Await the answer to a question. -/
def call (q : Q) : Task Q R E ε (R q) := .await q .settled

/-- Report an event. -/
def emit (event : E) : Task Q R E ε Unit := .report event (.settled (.ok ()))

/-- A computation of the task itself, which may throw. -/
def ofExcept (result : Except ε α) : Task Q R E ε α := .settled result

/-- `try … catch` -/
def catching : Task Q R E ε α → (ε → Task Q R E ε α) → Task Q R E ε α
  | .settled (.ok a), _ => .settled (.ok a)
  | .settled (.error e), handler => handler e
  | .report event rest, handler => .report event (catching rest handler)
  | .await q rest, handler => .await q fun answer => catching (rest answer) handler

/-- What the task reports before its next await, and where it stands then. -/
def go : Task Q R E ε α → List E × Task Q R E ε α
  | .report event rest => (event :: (go rest).1, (go rest).2)
  | .settled result => ([], .settled result)
  | .await q rest => ([], .await q rest)

/-! ## How often a task asks -/

/-- No question of the task is selected. -/
def Never (ask : Q → Bool) : Task Q R E ε α → Prop
  | .settled _ => True
  | .report _ rest => Never ask rest
  | .await q rest => ask q = false ∧ ∀ answer, Never ask (rest answer)

/-- At most one question of the task is selected. -/
def Once (ask : Q → Bool) : Task Q R E ε α → Prop
  | .settled _ => True
  | .report _ rest => Once ask rest
  | .await q rest =>
      (ask q = true → ∀ answer, Never ask (rest answer)) ∧ ∀ answer, Once ask (rest answer)

variable {ask : Q → Bool}

theorem never_pure (a : α) : Never ask (pure a : Task Q R E ε α) := True.intro

theorem never_ofExcept (result : Except ε α) :
    Never ask (ofExcept result : Task Q R E ε α) := True.intro

theorem never_emit (event : E) : Never ask (emit event : Task Q R E ε Unit) := True.intro

theorem never_call {q : Q} (hq : ask q = false) : Never ask (call q : Task Q R E ε (R q)) :=
  ⟨hq, fun _ => True.intro⟩

theorem Never.bind {t : Task Q R E ε α} {k : α → Task Q R E ε β} (ht : Never ask t)
    (hk : ∀ a, Never ask (k a)) : Never ask (t >>= k) := by
  induction t with
  | settled result =>
      cases result with
      | error e => exact True.intro
      | ok a => exact hk a
  | report event rest ih => exact ih ht
  | await q rest ih => exact ⟨ht.1, fun answer => ih answer (ht.2 answer)⟩

theorem Never.catching {t : Task Q R E ε α} {handler : ε → Task Q R E ε α} (ht : Never ask t)
    (hhandler : ∀ e, Never ask (handler e)) : Never ask (t.catching handler) := by
  induction t with
  | settled result =>
      cases result with
      | error e => exact hhandler e
      | ok a => exact True.intro
  | report event rest ih => exact ih ht
  | await q rest ih => exact ⟨ht.1, fun answer => ih answer (ht.2 answer)⟩

theorem Never.once {t : Task Q R E ε α} (ht : Never ask t) : Once ask t := by
  induction t with
  | settled result => exact True.intro
  | report event rest ih => exact ih ht
  | await q rest ih => exact ⟨fun _ => ht.2, fun answer => ih answer (ht.2 answer)⟩

/-- What comes before the question does not ask. -/
theorem Never.bind_once {t : Task Q R E ε α} {k : α → Task Q R E ε β} (ht : Never ask t)
    (hk : ∀ a, Once ask (k a)) : Once ask (t >>= k) := by
  induction t with
  | settled result =>
      cases result with
      | error e => exact True.intro
      | ok a => exact hk a
  | report event rest ih => exact ih ht
  | await q rest ih =>
      refine ⟨fun hq => ?_, fun answer => ih answer (ht.2 answer)⟩
      rw [ht.1] at hq
      cases hq

/-- What comes after the question does not ask. -/
theorem once_call_bind {q : Q} {k : R q → Task Q R E ε β} (hk : ∀ r, Never ask (k r)) :
    Once ask (call q >>= k) := by
  have hrest : ∀ answer : Except ε (R q), Never ask (bind (.settled answer) k) := by
    intro answer
    cases answer with
    | error e => exact True.intro
    | ok r => exact hk r
  exact ⟨fun _ => hrest, fun answer => (hrest answer).once⟩

theorem Never.go {t : Task Q R E ε α} (ht : Never ask t) : Never ask t.go.2 := by
  induction t with
  | settled result => exact ht
  | report event rest ih => exact ih ht
  | await q rest => exact ht

theorem Once.go {t : Task Q R E ε α} (ht : Once ask t) : Once ask t.go.2 := by
  induction t with
  | settled result => exact ht
  | report event rest ih => exact ih ht
  | await q rest => exact ht

/-! ## What a task has asked when it returns -/

/-- After `asked`: whatever the task is answered, `S` holds of all that it has
asked and of what it returns. -/
def Ensures (S : List Q → α → Prop) : Task Q R E ε α → List Q → Prop
  | .settled (.ok a), asked => S asked a
  | .settled (.error _), _ => True
  | .report _ rest, asked => Ensures S rest asked
  | .await q rest, asked => ∀ answer, Ensures S (rest answer) (asked ++ [q])

variable {S : List Q → α → Prop} {S' : List Q → β → Prop} {asked : List Q}

theorem ensures_of_forall {t : Task Q R E ε α} (h : ∀ asked a, S asked a) : Ensures S t asked := by
  induction t generalizing asked with
  | settled result =>
      cases result with
      | error e => exact True.intro
      | ok a => exact h asked a
  | report event rest ih => exact ih
  | await q rest ih => exact fun answer => ih answer

theorem Ensures.bind {t : Task Q R E ε α} {k : α → Task Q R E ε β}
    (h : Ensures (fun asked a => Ensures S' (k a) asked) t asked) :
    Ensures S' (t >>= k) asked := by
  induction t generalizing asked with
  | settled result =>
      cases result with
      | error e => exact True.intro
      | ok a => exact h
  | report event rest ih => exact ih h
  | await q rest ih => exact fun answer => ih answer (h answer)

theorem ensures_emit_bind {event : E} {k : Unit → Task Q R E ε β} (h : Ensures S' (k ()) asked) :
    Ensures S' (emit event >>= k) asked := h

theorem ensures_call_bind {q : Q} {k : R q → Task Q R E ε β}
    (h : ∀ r, Ensures S' (k r) (asked ++ [q])) : Ensures S' (call q >>= k) asked := by
  intro answer
  cases answer with
  | error e => exact True.intro
  | ok r => exact h r

theorem ensures_ofExcept_bind {result : Except ε α} {k : α → Task Q R E ε β}
    (h : ∀ a, result = .ok a → Ensures S' (k a) asked) :
    Ensures S' (ofExcept result >>= k) asked := by
  cases result with
  | error e => exact True.intro
  | ok a => exact h a rfl

/-- The task comes to stand at `t'`, having asked `asked`. -/
inductive Leads (t : Task Q R E ε α) : List Q → Task Q R E ε α → Prop where
  | refl : Leads t [] t
  | report {asked : List Q} {event : E} {rest : Task Q R E ε α}
      (h : Leads t asked (.report event rest)) : Leads t asked rest
  | await {asked : List Q} {q : Q} {rest : Except ε (R q) → Task Q R E ε α}
      (answer : Except ε (R q)) (h : Leads t asked (.await q rest)) :
      Leads t (asked ++ [q]) (rest answer)

theorem Leads.go {t t' : Task Q R E ε α} (h : Leads t asked t') : Leads t asked t'.go.2 := by
  induction t' with
  | settled result => exact h
  | report event rest ih => exact ih (.report h)
  | await q rest => exact h

theorem Ensures.leads {t t' : Task Q R E ε α} (h : Ensures S t []) (hleads : Leads t asked t') :
    Ensures S t' asked := by
  induction hleads with
  | refl => exact h
  | report _ ih => exact ih
  | await answer _ ih => exact ih answer

end Task

end PrivacyWallet
