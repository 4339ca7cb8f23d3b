import Mathlib.Logic.Function.Iterate
import Mathlib.Tactic.Common

/-!
# Stuttering simulations of deterministic machines

A machine `micro` takes several steps where a machine `next` takes one. If every abstract step is
matched by a positive number of concrete ones, which put out what the abstract step emits, then the
concrete machine never stops matching, and everything it ever puts out is a prefix of what the
abstract machine emits.
-/

namespace SyscallMonitor.Lib

universe u v w

variable {σ : Type u} {α : Type v} {ω : Type w}

/-- From related states, some positive number of steps of `micro` matches one step of `next`. -/
def Stutters (micro : σ → σ) (next : α → α) (R : σ → α → Prop) (out : σ → List ω)
    (emit : α → List ω) : Prop :=
  ∀ s g, R s g → ∃ k > 0, R (micro^[k] s) (next g) ∧ out (micro^[k] s) = out s ++ emit g

/-- What the first `n` abstract steps emit. -/
def emitted (next : α → α) (emit : α → List ω) : ℕ → α → List ω
  | 0, _     => []
  | n + 1, g => emit g ++ emitted next emit n (next g)

namespace Stutters

variable {micro : σ → σ} {next : α → α} {R : σ → α → Prop} {out : σ → List ω} {emit : α → List ω}

/-- Any number of abstract steps is matched. -/
theorem reach (hst : Stutters micro next R out emit) (n : ℕ) :
    ∀ {s : σ} {g : α}, R s g → ∃ m ≥ n, R (micro^[m] s) (next^[n] g) ∧
      out (micro^[m] s) = out s ++ emitted next emit n g := by
  induction n with
  | zero =>
    intro s g hs
    exact ⟨0, Nat.le_refl 0, hs, (List.append_nil _).symm⟩
  | succ n ih =>
    intro s g hs
    obtain ⟨k, hk, hk', hout⟩ := hst s g hs
    obtain ⟨m, hm, hm', hout'⟩ := ih hk'
    refine ⟨m + k, Nat.add_le_add hm hk, ?_, ?_⟩
    · rw [Function.iterate_add_apply, Function.iterate_succ_apply]
      exact hm'
    · rw [Function.iterate_add_apply, hout', hout, emitted, List.append_assoc]

lemma out_prefix (hmono : ∀ s, out s <+: out (micro s)) (s : σ) (m : ℕ) :
    out s <+: out (micro^[m] s) := by
  induction m generalizing s with
  | zero => exact List.prefix_rfl
  | succ m ih =>
    rw [Function.iterate_succ_apply]
    exact (hmono s).trans (ih (micro s))

/-- Nothing is ever put out that the abstract machine does not emit. -/
theorem prefix_emitted (hst : Stutters micro next R out emit)
    (hmono : ∀ s, out s <+: out (micro s)) {s : σ} {g : α} (hs : R s g) (m : ℕ) :
    out (micro^[m] s) <+: out s ++ emitted next emit m g := by
  obtain ⟨m', hm', -, hout⟩ := hst.reach m hs
  obtain ⟨j, rfl⟩ := Nat.exists_eq_add_of_le hm'
  rw [← hout, Nat.add_comm, Function.iterate_add_apply]
  exact out_prefix hmono _ j

end Stutters

end SyscallMonitor.Lib
