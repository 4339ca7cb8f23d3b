import SyscallMonitor.Lib.Run

/-!
# Systems that hide some of their steps

Two total systems are driven by the same events. The first one does work of its own in some of its
steps, which the second one does not have. If a hidden step keeps a relation and any other one keeps
it together with the step of the second system, then the run of the first system is related to the
run of the second on the events that are left when those of the hidden steps are taken out.
-/

namespace SyscallMonitor.Lib

universe u v w

variable {σ : Type u} {τ : Type v} {ε : Type w}

/-- A total system as one in which every event is enabled. -/
def total (step : σ → ε → σ) (s : σ) (e : ε) : Option σ := some (step s e)

lemma along_total_cons {step : σ → ε → σ} {G : σ → ε → Prop} {s : σ} {e : ε} {es : List ε} :
    Along (total step) G s (e :: es) ↔ G s e ∧ Along (total step) G (step s e) es := by
  simp [total]

instance decidableAlongTotal (step : σ → ε → σ) (G : σ → ε → Prop) [∀ s e, Decidable (G s e)] :
    ∀ s es, Decidable (Along (total step) G s es)
  | _, [] => isTrue trivial
  | s, e :: es =>
    have := decidableAlongTotal step G (step s e) es
    decidable_of_iff _ along_total_cons.symm

variable (step : σ → ε → σ) (hidden : σ → ε → Prop) [∀ s e, Decidable (hidden s e)]

/-- The events of a run whose steps are not hidden. -/
def visible : σ → List ε → List ε
  | _, []      => []
  | s, e :: es => if hidden s e then visible (step s e) es else e :: visible (step s e) es

variable {step hidden} {step' : τ → ε → τ}

/-- **Hiding rule.** A relation that is kept by hidden steps alone and by the other steps together
is kept by runs. -/
theorem relation_visible {G : σ → ε → Prop} {R : σ → τ → Prop}
    (hhidden : ∀ s t e, R s t → G s e → hidden s e → R (step s e) t)
    (hvisible : ∀ s t e, R s t → G s e → ¬ hidden s e → R (step s e) (step' t e))
    {es : List ε} {s : σ} {t : τ} (hR : R s t) (hG : Along (total step) G s es) :
    R (es.foldl step s) ((visible step hidden s es).foldl step' t) := by
  induction es generalizing s t with
  | nil => exact hR
  | cons e es ih =>
    obtain ⟨he, hes⟩ := along_total_cons.mp hG
    rw [visible, List.foldl_cons]
    split_ifs with hh
    · exact ih (hhidden s t e hR he hh) hes
    · exact ih (hvisible s t e hR he hh) hes

/-- **Progress rule.** A rank that every hidden step lowers, and that is at most `b`, bounds the
hidden steps: there are at most `b` between two that are not. -/
theorem length_le_visible {G : σ → ε → Prop} {I : σ → Prop} {rank : σ → ℕ} {b : ℕ}
    (hI : ∀ s e, I s → G s e → I (step s e)) (hb : ∀ s, rank s ≤ b)
    (hlt : ∀ s e, I s → G s e → hidden s e → rank (step s e) < rank s)
    {es : List ε} {s : σ} (hs : I s) (hG : Along (total step) G s es) :
    es.length ≤ (b + 1) * (visible step hidden s es).length + rank s := by
  induction es generalizing s with
  | nil => exact Nat.zero_le _
  | cons e es ih =>
    obtain ⟨he, hes⟩ := along_total_cons.mp hG
    have hrest := ih (hI s e hs he) hes
    rw [visible, List.length_cons]
    split_ifs with hh
    · have hrank := hlt s e hs he hh
      omega
    · have hrank := hb (step s e)
      rw [List.length_cons, Nat.mul_succ]
      omega

end SyscallMonitor.Lib
