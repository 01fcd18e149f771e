import Mathlib.Data.List.Basic
import Mathlib.Data.List.Infix

/-!
# Logs written from copies

A log of at most `cap` entries, newest first, kept as one value: a writer
reads it, and later puts the value it read with its own entry in front. A put
loses the entries that came in between. `newest_iff` says when it does not:
the log shows the newest entries iff the last `cap - 1` puts overwrote what
they had read. One less, since of the oldest entry shown only its own put
matters.
-/

namespace PrivacyWallet

/-- One put: the entry, the log that its writer had read, and the log that it
overwrote. -/
structure Put (α : Type) where
  entry : α
  read : List α
  found : List α

namespace CappedLog

variable {α : Type}

/-- The log after these puts, the newest of them first. -/
def after (cap : Nat) : List (Put α) → List α
  | [] => []
  | put :: _ => (put.entry :: put.read).take cap

/-- Every put found the log that the ones before it left, and its writer had
read one that some of those left. -/
def Puts (cap : Nat) : List (Put α) → Prop
  | [] => True
  | put :: puts =>
      put.found = after cap puts ∧ (∃ past, past <:+ puts ∧ put.read = after cap past) ∧
        Puts cap puts

variable {cap : Nat} {puts : List (Put α)}

theorem take_after : (after cap puts).take cap = after cap puts := by
  cases puts with
  | nil => exact List.take_nil
  | cons put puts => rw [after, List.take_take, min_self]

/-- Among different entries, a log that starts with the newest one was left by
all puts. -/
theorem eq_of_newest {put first : Put α} {rest : List (Put α)}
    (hnodup : ((put :: puts).map (·.entry)).Nodup) (hpast : first :: rest <:+ put :: puts)
    (hfirst : first.entry = put.entry) : first :: rest = put :: puts := by
  rcases List.suffix_cons_iff.mp hpast with heq | hsuffix
  · exact heq
  · have hmem : put.entry ∈ puts.map (·.entry) :=
      List.mem_map.mpr ⟨first, hsuffix.subset List.mem_cons_self, hfirst⟩
    exact absurd hmem (List.nodup_cons.mp hnodup).1

/-- If no put lost anything, the log shows the newest entries. -/
theorem newest_of_fresh (hputs : Puts cap puts) {n : Nat} (hn : n ≤ cap)
    (hfresh : ∀ put ∈ puts.take (n - 1), put.read = put.found) :
    (after cap puts).take n = (puts.map (·.entry)).take n := by
  induction puts generalizing n with
  | nil => rfl
  | cons put puts ih =>
      obtain ⟨hfound, -, hputs⟩ := hputs
      cases n with
      | zero => rfl
      | succ n =>
          rw [after, List.take_take, min_eq_left hn, List.map_cons, List.take_succ_cons,
            List.take_succ_cons]
          congr 1
          cases n with
          | zero => rfl
          | succ n =>
              have hread : put.read = put.found := hfresh put List.mem_cons_self
              rw [hread, hfound]
              exact ih hputs (by omega) fun p hp => hfresh p (List.mem_cons_of_mem _ hp)

/-- And only then, if the entries are different. By induction on the puts: what
the writer of the newest one had read starts with the entry of the put before,
so it was read after that put and is the log that was overwritten. -/
theorem fresh_of_newest (hputs : Puts cap puts) (hnodup : (puts.map (·.entry)).Nodup) {n : Nat}
    (hn : n ≤ cap) (hnewest : (after cap puts).take n = (puts.map (·.entry)).take n) :
    ∀ put ∈ puts.take (n - 1), put.read = put.found := by
  induction puts generalizing n with
  | nil =>
      intro put hput
      simp at hput
  | cons put puts ih =>
      obtain ⟨hfound, ⟨past, hpast, hread⟩, hputs⟩ := hputs
      match n with
      | 0 | 1 =>
          intro p hp
          simp at hp
      | n + 2 =>
          rw [after, List.take_take, min_eq_left hn, List.map_cons, List.take_succ_cons,
            List.take_succ_cons] at hnewest
          have htail : put.read.take (n + 1) = (puts.map (·.entry)).take (n + 1) :=
            (List.cons.inj hnewest).2
          have hnodup' : (puts.map (·.entry)).Nodup := (List.nodup_cons.mp hnodup).2
          -- what the writer read starts with the newest entry, so it is the whole log
          have hall : past = puts := by
            cases puts with
            | nil => exact List.suffix_nil.mp hpast
            | cons last before =>
                cases past with
                | nil => simp [hread, after] at htail
                | cons first rest =>
                    obtain ⟨c, hc⟩ : ∃ c, cap = c + 1 := ⟨cap - 1, by omega⟩
                    subst hc
                    simp only [hread, after, List.take_succ_cons, List.map_cons] at htail
                    exact eq_of_newest hnodup' hpast (List.cons.inj htail).1
          have hfresh : put.read = put.found := by rw [hread, hall, hfound]
          intro p hp
          rcases List.mem_cons.mp hp with rfl | hp
          · exact hfresh
          · refine ih hputs hnodup' (by omega : n + 1 ≤ cap) ?_ p hp
            rwa [hfresh, hfound] at htail

theorem newest_iff (hputs : Puts cap puts) (hnodup : (puts.map (·.entry)).Nodup) :
    after cap puts = (puts.map (·.entry)).take cap ↔
      ∀ put ∈ puts.take (cap - 1), put.read = put.found := by
  constructor
  · intro h
    exact fresh_of_newest hputs hnodup le_rfl (take_after.trans h)
  · intro h
    rw [← take_after]
    exact newest_of_fresh hputs le_rfl h

end CappedLog

end PrivacyWallet
