import Mathlib.Data.List.Induction
import Mathlib.Tactic.Common

/-!
# Runs of a deterministic machine with a history

A machine takes steps `step : σ → ι → σ` and reports what a step achieved
with `emit`. `run` and `history` are the state and the reports after a
list of inputs. `prefix_invariant` is the induction all safety proofs use:
a relation between state and history that holds at the start and is kept
by every step of the run holds at its end. Its step premise may use that
the inputs so far are a prefix of the run under consideration.
-/

namespace PrivacyWallet

namespace Run

variable {σ ι β : Type} (step : σ → ι → σ) (emit : σ → ι → List β)

/-- The state after the inputs. -/
def run (s : σ) (inputs : List ι) : σ := inputs.foldl step s

/-- The reports of all steps, in order. -/
def history : σ → List ι → List β
  | _, [] => []
  | s, i :: inputs => emit s i ++ history (step s i) inputs

@[simp] theorem run_nil (s : σ) : run step s [] = s := rfl

theorem run_append (s : σ) (l m : List ι) :
    run step s (l ++ m) = run step (run step s l) m := List.foldl_append ..

@[simp] theorem run_snoc (s : σ) (l : List ι) (i : ι) :
    run step s (l ++ [i]) = step (run step s l) i := run_append step s l [i]

theorem history_append : ∀ (s : σ) (l m : List ι),
    history step emit s (l ++ m)
      = history step emit s l ++ history step emit (run step s l) m
  | _, [], _ => rfl
  | s, i :: l, m => by
      rw [List.cons_append, history, history, history_append (step s i) l m,
        List.append_assoc]
      rfl

@[simp] theorem history_snoc (s : σ) (l : List ι) (i : ι) :
    history step emit s (l ++ [i])
      = history step emit s l ++ emit (run step s l) i := by
  rw [history_append]
  simp [history]

/-- The history of a prefix is a prefix of the history. -/
theorem history_prefix (s : σ) {l m : List ι} (h : l <+: m) :
    history step emit s l <+: history step emit s m := by
  obtain ⟨k, rfl⟩ := h
  rw [history_append]
  exact List.prefix_append ..

variable {step emit}

/-- A relation between state and history that every step of the run keeps
holds at the end of the run. -/
theorem prefix_invariant {Inv : σ → List β → Prop} {s : σ} {inputs : List ι}
    (h0 : Inv s [])
    (hstep : ∀ l i, l ++ [i] <+: inputs → Inv (run step s l) (history step emit s l) →
      Inv (step (run step s l) i) (history step emit s l ++ emit (run step s l) i)) :
    Inv (run step s inputs) (history step emit s inputs) := by
  suffices hpre : ∀ l, l <+: inputs → Inv (run step s l) (history step emit s l) from
    hpre inputs (List.prefix_refl inputs)
  intro l
  induction l using List.reverseRecOn with
  | nil =>
      intro _
      exact h0
  | append_singleton l i ih =>
      intro hl
      rw [run_snoc, history_snoc]
      exact hstep l i hl (ih ((List.prefix_append l [i]).trans hl))

/-- The same without a history. -/
theorem invariant {Inv : σ → Prop} {s : σ} {inputs : List ι} (h0 : Inv s)
    (hstep : ∀ s i, Inv s → Inv (step s i)) : Inv (run step s inputs) :=
  @prefix_invariant σ ι Unit step (fun _ _ => []) (fun s _ => Inv s) s inputs h0
    fun _ _ _ h => hstep _ _ h

/-- What holds of every step of a run, step by step. -/
theorem forall_steps_cons {P : List ι → ι → Prop} {i : ι} {inputs : List ι} :
    (∀ l j, l ++ [j] <+: i :: inputs → P l j) ↔
      P [] i ∧ ∀ l j, l ++ [j] <+: inputs → P (i :: l) j := by
  constructor
  · intro h
    refine ⟨h [] i ⟨inputs, rfl⟩, fun l j hl => h (i :: l) j ?_⟩
    exact List.cons_prefix_cons.mpr ⟨rfl, hl⟩
  · rintro ⟨hfirst, hrest⟩ l j hl
    cases l with
    | nil =>
        obtain ⟨rfl, -⟩ := List.cons_prefix_cons.mp hl
        exact hfirst
    | cons k l =>
        obtain ⟨rfl, hrestl⟩ := List.cons_prefix_cons.mp hl
        exact hrest l j hrestl

theorem forall_steps_nil {P : List ι → ι → Prop} : ∀ l j, l ++ [j] <+: [] → P l j := by
  intro l j hl
  simp at hl

/-- Every report is good after those before it. -/
def Along (good : List β → β → Prop) (l : List β) : Prop :=
  ∀ before b, before ++ [b] <+: l → good before b

variable {good : List β → β → Prop}

theorem along_nil : Along good [] := by
  intro before b h
  exact absurd (List.prefix_nil.mp h) (List.append_ne_nil_of_right_ne_nil _ (by simp))

theorem along_snoc {l : List β} {b : β} (hl : Along good l) (hb : good l b) :
    Along good (l ++ [b]) := by
  intro before b' h
  rcases List.prefix_concat_iff.mp h with heq | hpre
  · obtain ⟨rfl, hbb⟩ := List.append_inj' heq rfl
    cases hbb
    exact hb
  · exact hl before b' hpre

theorem Along.of_prefix {l m : List β} (h : Along good m) (hlm : l <+: m) : Along good l :=
  fun before b hb => h before b (hb.trans hlm)

/-- What came before one report of the list. -/
theorem Along.at {before after : List β} {b : β} (h : Along good (before ++ b :: after)) :
    good before b :=
  h before b ⟨after, by simp⟩

end Run

end PrivacyWallet
