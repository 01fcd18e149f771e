import Mathlib.Tactic.Common

/-!
# Checks before a result

Functions that answer with a result or with the first error they meet: `failIf`
refuses, `orError` opens an option, and a bind is `ok` exactly if each of its
steps is.
-/

namespace PrivacyWallet

namespace Checks

variable {α β ε : Type} {a : α} {b : β} {e : ε}

theorem ok_bind (a : α) (f : α → Except ε β) : (Except.ok a >>= f) = f a := rfl

theorem bind_ok {m : Except ε α} {f : α → Except ε β} :
    (m >>= f) = .ok b ↔ ∃ a, m = .ok a ∧ f a = .ok b := by
  cases m with
  | error e => exact ⟨nofun, fun ⟨_, h, _⟩ => nomatch h⟩
  | ok a =>
      refine ⟨fun h => ⟨a, rfl, h⟩, ?_⟩
      rintro ⟨a', ha, h⟩
      cases ha
      exact h

/-- `if c { return Err(e) }` -/
def failIf (c : Prop) [Decidable c] (e : ε) : Except ε Unit := if c then .error e else .ok ()

/-- `ok_or(e)` -/
def orError (e : ε) : Option α → Except ε α
  | some a => .ok a
  | none => .error e

@[simp] theorem failIf_ok {c : Prop} [Decidable c] {u : Unit} : failIf c e = .ok u ↔ ¬ c := by
  unfold failIf
  split
  · rename_i h
    exact ⟨nofun, fun hn => absurd h hn⟩
  · rename_i h
    exact ⟨fun _ => h, fun _ => rfl⟩

@[simp] theorem orError_ok {o : Option α} : orError e o = .ok a ↔ o = some a := by
  cases o with
  | none => exact ⟨nofun, nofun⟩
  | some b => exact ⟨fun h => congrArg some (Except.ok.inj h), fun h => by cases h; rfl⟩

/-- A check in front passed, and the rest is what follows. -/
theorem failIf_bind {c : Prop} [Decidable c] {m : Except ε β} :
    (failIf c e >>= fun _ => m) = .ok b ↔ ¬ c ∧ m = .ok b := by
  rw [bind_ok]
  exact ⟨fun ⟨_, h, hm⟩ => ⟨failIf_ok.mp h, hm⟩, fun ⟨h, hm⟩ => ⟨(), failIf_ok.mpr h, hm⟩⟩

end Checks

end PrivacyWallet
