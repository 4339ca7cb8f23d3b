import Mathlib.Tactic.Common

/-!
# Runs of partial transition functions

A system is a function `step : σ → ε → Option σ`; `none` says that the event is not enabled in the
state. `run` takes a list of events, `Along` says that a property of states and events holds at
every step taken, and the lemmas below package the inductions over runs: an invariant kept by one
step is kept by a run, under an invariant two properties that agree at each step agree along the
run, and what only some events bring about has been brought about by one of the run.
-/

namespace SyscallMonitor.Lib

universe u v

variable {σ : Type u} {ε : Type v} {step : σ → ε → Option σ}

/-- The state after a list of events, if each was enabled in its turn. -/
def run (step : σ → ε → Option σ) : σ → List ε → Option σ
  | s, []      => some s
  | s, e :: es => (step s e).bind fun s' => run step s' es

@[simp] lemma run_nil (s : σ) : run step s [] = some s := rfl

@[simp] lemma run_cons (s : σ) (e : ε) (es : List ε) :
    run step s (e :: es) = (step s e).bind fun s' => run step s' es := rfl

lemma run_append (s : σ) (es fs : List ε) :
    run step s (es ++ fs) = (run step s es).bind fun s' => run step s' fs := by
  induction es generalizing s with
  | nil => rfl
  | cons e es ih => simp only [List.cons_append, run_cons, ih, Option.bind_assoc]

lemma run_concat (s : σ) (es : List ε) (e : ε) :
    run step s (es ++ [e]) = (run step s es).bind fun s' => step s' e := by
  simp [run_append]

/-- `P` holds of every state of the run together with the event taken there. -/
def Along (step : σ → ε → Option σ) (P : σ → ε → Prop) : σ → List ε → Prop
  | _, []      => True
  | s, e :: es => P s e ∧ ∀ s', step s e = some s' → Along step P s' es

@[simp] lemma along_nil {P : σ → ε → Prop} (s : σ) : Along step P s [] := trivial

@[simp] lemma along_cons {P : σ → ε → Prop} (s : σ) (e : ε) (es : List ε) :
    Along step P s (e :: es) ↔ P s e ∧ ∀ s', step s e = some s' → Along step P s' es := Iff.rfl

/-- `Along` spelled out: `P` holds at each event of the list, in the state the events before it
lead to. -/
theorem along_iff {P : σ → ε → Prop} (s : σ) (es : List ε) :
    Along step P s es ↔
      ∀ pre e post s', es = pre ++ e :: post → run step s pre = some s' → P s' e := by
  induction es generalizing s with
  | nil => simp
  | cons e es ih =>
    rw [along_cons]
    constructor
    · rintro ⟨he, hrest⟩ pre e' post s' hsplit hrun
      cases pre with
      | nil =>
        obtain ⟨rfl, rfl⟩ := List.cons.inj hsplit
        cases hrun
        exact he
      | cons p pre =>
        obtain ⟨rfl, rfl⟩ := List.cons.inj hsplit
        obtain ⟨t, ht, hpre⟩ := Option.bind_eq_some_iff.mp hrun
        exact (ih t).mp (hrest t ht) pre e' post s' rfl hpre
    · intro h
      refine ⟨h [] e es s rfl rfl, fun t ht => (ih t).mpr ?_⟩
      intro pre e' post s' hsplit hrun
      apply h (e :: pre) e' post s' (by rw [hsplit]; rfl)
      rw [run_cons, ht]
      exact hrun

/-- A property of the events alone holds along every run of a list that satisfies it. -/
lemma along_of_forall {E : ε → Prop} {es : List ε} (h : ∀ e ∈ es, E e) (s : σ) :
    Along step (fun _ e => E e) s es :=
  (along_iff s es).mpr fun pre e post _ hsplit _ => h e (by rw [hsplit]; simp)

lemma Along.and {P Q : σ → ε → Prop} :
    ∀ {es : List ε} {s : σ}, Along step P s es → Along step Q s es →
      Along step (fun s e => P s e ∧ Q s e) s es
  | [], _, _, _ => trivial
  | _ :: _, _, hP, hQ =>
    ⟨⟨hP.1, hQ.1⟩, fun t ht => Along.and (hP.2 t ht) (hQ.2 t ht)⟩

/-- **Run rule.** An invariant that every step satisfying `G` keeps is kept by every run whose
steps all satisfy `G`. -/
theorem Along.run_invariant {G : σ → ε → Prop} {I : σ → Prop}
    (hstep : ∀ s e s', I s → G s e → step s e = some s' → I s') :
    ∀ {es : List ε} {s s' : σ}, I s → Along step G s es → run step s es = some s' → I s'
  | [], _, _, h, _, hrun => Option.some.inj hrun ▸ h
  | _ :: _, _, _, h, hG, hrun => by
    obtain ⟨t, ht, hrest⟩ := Option.bind_eq_some_iff.mp hrun
    exact Along.run_invariant hstep (hstep _ _ _ h hG.1 ht) (hG.2 t ht) hrest

/-- The run rule for an invariant that every step keeps. -/
theorem run_invariant {I : σ → Prop} (hstep : ∀ s e s', I s → step s e = some s' → I s')
    {es : List ε} {s s' : σ} (h : I s) (hrun : run step s es = some s') : I s' :=
  (along_of_forall (E := fun _ => True) (fun _ _ => trivial) s).run_invariant
    (fun s e s' hs _ => hstep s e s' hs) h hrun

/-- Under an invariant, a property that `P` implies at each step holds wherever `P` does. -/
theorem Along.imp {G P Q : σ → ε → Prop} {I : σ → Prop}
    (hstep : ∀ s e s', I s → G s e → step s e = some s' → I s')
    (hPQ : ∀ s e, I s → G s e → P s e → Q s e) :
    ∀ {es : List ε} {s : σ}, I s → Along step G s es → Along step P s es → Along step Q s es
  | [], _, _, _, _ => trivial
  | _ :: _, _, h, hG, hP =>
    ⟨hPQ _ _ h hG.1 hP.1, fun t ht =>
      Along.imp hstep hPQ (hstep _ _ _ h hG.1 ht) (hG.2 t ht) (hP.2 t ht)⟩

/-- **Agreement rule.** Properties that agree at each step of states satisfying an invariant agree
along whole runs. -/
theorem Along.congr {G P Q : σ → ε → Prop} {I : σ → Prop}
    (hstep : ∀ s e s', I s → G s e → step s e = some s' → I s')
    (hPQ : ∀ s e, I s → G s e → (P s e ↔ Q s e)) {es : List ε} {s : σ} (h : I s)
    (hG : Along step G s es) : Along step P s es ↔ Along step Q s es :=
  ⟨Along.imp hstep (fun s e hs hg => (hPQ s e hs hg).mp) h hG,
    Along.imp hstep (fun s e hs hg => (hPQ s e hs hg).mpr) h hG⟩

/-- **Flag rule.** Under an invariant, a flag that a step can only raise, and raises exactly when it
violates `Q`, is down after a run if and only if it was down before and `Q` holds along the run. -/
theorem Along.flag_iff {Q : σ → ε → Prop} {I : σ → Prop} (flag : σ → Bool)
    (hstep : ∀ s e s', I s → step s e = some s' →
      I s' ∧ (flag s' = false ↔ flag s = false ∧ Q s e)) :
    ∀ {es : List ε} {s s' : σ}, I s → run step s es = some s' →
      (flag s' = false ↔ flag s = false ∧ Along step Q s es)
  | [], _, _, _, hrun => by
    obtain rfl := Option.some.inj hrun
    simp
  | _ :: _, _, _, h, hrun => by
    obtain ⟨t, ht, hrest⟩ := Option.bind_eq_some_iff.mp hrun
    obtain ⟨ht', hflag⟩ := hstep _ _ _ h ht
    rw [Along.flag_iff flag hstep ht' hrest, hflag, along_cons, and_assoc]
    simp [ht]

/-- **Cause rule.** Under an invariant, what a step brings about exactly when it was so before or
the event causes it is so after a run if and only if it was so before or one of the events causes
it. -/
theorem run_iff_exists {I P : σ → Prop} {Q : ε → Prop}
    (hstep : ∀ s e s', I s → step s e = some s' → I s' ∧ (P s' ↔ P s ∨ Q e)) {es : List ε}
    {s s' : σ} (h : I s) (hrun : run step s es = some s') :
    I s' ∧ (P s' ↔ P s ∨ ∃ e ∈ es, Q e) := by
  induction es generalizing s with
  | nil =>
    obtain rfl := Option.some.inj hrun
    simp [h]
  | cons e es ih =>
    obtain ⟨t, ht, hrest⟩ := Option.bind_eq_some_iff.mp hrun
    obtain ⟨ht', hcause⟩ := hstep s e t h ht
    obtain ⟨hs', hiff⟩ := ih ht' hrest
    refine ⟨hs', ?_⟩
    rw [hiff, hcause]
    simp [or_assoc]

/-! ### History variables -/

variable {β : Type*}

/-- The system with a variable that is updated at every step, and that no step reads. -/
def recording (step : σ → ε → Option σ) (note : σ → ε → σ → β → β) (s : σ × β) (e : ε) :
    Option (σ × β) :=
  (step s.1 e).map fun s' => (s', note s.1 e s' s.2)

/-- The variable does not change what the system does. -/
theorem along_recording {P : σ → ε → Prop} (note : σ → ε → σ → β → β) (s : σ) (b : β)
    (es : List ε) :
    Along (recording step note) (fun s e => P s.1 e) (s, b) es ↔ Along step P s es := by
  induction es generalizing s b with
  | nil => simp
  | cons e es ih =>
    simp only [along_cons, recording, Option.map_eq_some_iff, and_congr_right_iff]
    intro _
    constructor
    · intro hrest s' hs'
      exact (ih s' _).mp (hrest _ ⟨s', hs', rfl⟩)
    · rintro hrest _ ⟨s', hs', rfl⟩
      exact (ih s' _).mpr (hrest s' hs')

/-- Every run can be recorded. -/
lemma exists_run_recording (note : σ → ε → σ → β → β) {s s' : σ} (b : β) {es : List ε}
    (hrun : run step s es = some s') :
    ∃ b', run (recording step note) (s, b) es = some (s', b') := by
  induction es generalizing s b with
  | nil => exact ⟨b, by rw [run_nil, Option.some.inj hrun]⟩
  | cons e es ih =>
    obtain ⟨t, ht, hrest⟩ := Option.bind_eq_some_iff.mp hrun
    obtain ⟨b', hb'⟩ := ih (note s e t b) hrest
    refine ⟨b', ?_⟩
    rw [run_cons, recording, ht]
    exact hb'

/-- A recorded run is a run. -/
lemma run_of_run_recording {note : σ → ε → σ → β → β} {s s' : σ} {b b' : β} {es : List ε}
    (hrun : run (recording step note) (s, b) es = some (s', b')) : run step s es = some s' := by
  induction es generalizing s b with
  | nil => rw [run_nil, (Prod.mk.inj (Option.some.inj hrun)).1]
  | cons e es ih =>
    obtain ⟨t, ht, hrest⟩ := Option.bind_eq_some_iff.mp hrun
    obtain ⟨u, hu, rfl⟩ := Option.map_eq_some_iff.mp ht
    rw [run_cons, hu]
    exact ih hrest

end SyscallMonitor.Lib
