import Mathlib.Data.Option.Basic
import Mathlib.Data.List.Basic

/-! # Runs of a deterministic system

A system is a partial step function: `step s i` is the state after the input `i` in the state `s`,
`none` if the system does not take `i` there. `run` feeds it a list of inputs, and `AllSteps step C`
says that every step of such a run meets a condition on the input and the state before it. An
invariant that the steps meeting `C` keep holds after every run of such steps (`run_inv`); if all other
steps break it, it holds throughout a run exactly if the run is made of such steps
(`forall_run_take_iff`). -/

namespace Waveplay.Lib.Runs

variable {σ ι : Type*} {step : σ → ι → Option σ} {C : σ → ι → Prop} {I : σ → Prop}

/-- The state after the inputs `is`, `none` if one of them is not taken. -/
def run (step : σ → ι → Option σ) : σ → List ι → Option σ
  | s, [] => some s
  | s, i :: is => (step s i).bind fun s' => run step s' is

/-- Every step of the run on `is` meets `C`. -/
def AllSteps (step : σ → ι → Option σ) (C : σ → ι → Prop) : σ → List ι → Prop
  | _, [] => True
  | s, i :: is => C s i ∧ ∀ s', step s i = some s' → AllSteps step C s' is

@[simp] theorem run_nil (s : σ) : run step s [] = some s := rfl

theorem run_cons_eq_some {s t : σ} {i : ι} {is : List ι} :
    run step s (i :: is) = some t ↔ ∃ s', step s i = some s' ∧ run step s' is = some t := by
  simp [run, Option.bind_eq_some_iff]

theorem allSteps_cons {s s' : σ} {i : ι} {is : List ι} (hi : C s i) (h : step s i = some s')
    (his : AllSteps step C s' is) : AllSteps step C s (i :: is) :=
  ⟨hi, fun t ht => by rw [h, Option.some.injEq] at ht; rwa [← ht]⟩

theorem allSteps_congr {D : σ → ι → Prop} (h : ∀ s i, C s i ↔ D s i) :
    ∀ {is : List ι} {s : σ}, AllSteps step C s is ↔ AllSteps step D s is
  | [], _ => Iff.rfl
  | i :: _, s => and_congr (h s i) (forall_congr' fun _ => forall_congr' fun _ => allSteps_congr h)

theorem allSteps_trivial : ∀ {is : List ι} {s : σ}, AllSteps step (fun _ _ => True) s is
  | [], _ => trivial
  | _ :: _, _ => ⟨trivial, fun _ _ => allSteps_trivial⟩

/-- **Invariants.** What the steps meeting `C` preserve holds after every run of such steps. -/
theorem run_inv (hstep : ∀ s i s', I s → C s i → step s i = some s' → I s') :
    ∀ {is : List ι} {s t : σ}, I s → AllSteps step C s is → run step s is = some t → I t
  | [], s, t, hs, _, h => by
    rw [run_nil, Option.some.injEq] at h
    rwa [← h]
  | i :: is, s, t, hs, hC, h => by
    obtain ⟨s', hs', ht⟩ := run_cons_eq_some.mp h
    exact run_inv hstep (hstep s i s' hs hC.1 hs') (hC.2 s' hs') ht

theorem AllSteps.take : ∀ {is : List ι} {s : σ} (n : ℕ), AllSteps step C s is → AllSteps step C s (is.take n)
  | _, _, 0, _ => trivial
  | [], _, _ + 1, _ => trivial
  | _ :: _, _, n + 1, ⟨hi, his⟩ => ⟨hi, fun s' hs' => (his s' hs').take n⟩

/-- What an invariant and the condition say of a step holds of every step of such a run. -/
theorem AllSteps.of_inv {D : σ → ι → Prop} (hstep : ∀ s i s', I s → C s i → step s i = some s' → I s')
    (hD : ∀ s i, I s → C s i → D s i) :
    ∀ {is : List ι} {s : σ}, I s → AllSteps step C s is → AllSteps step D s is
  | [], _, _, _ => trivial
  | i :: _, s, hs, hC =>
    ⟨hD s i hs hC.1, fun s' h => AllSteps.of_inv hstep hD (hstep s i s' hs hC.1 h) (hC.2 s' h)⟩

/-- **Exact conditions.** If the steps meeting `C` keep an invariant that gives `P`, and a step that does
not meet it leads to a state without `P`, then `P` holds throughout a run exactly if all its steps meet
`C`. -/
theorem forall_run_take_iff {P : σ → Prop} (hP : ∀ s, I s → P s)
    (hstep : ∀ s i s', I s → C s i → step s i = some s' → I s')
    (hbreak : ∀ s i, I s → ¬ C s i → ∃ s', step s i = some s' ∧ ¬ P s') :
    ∀ (is : List ι) {s : σ}, I s →
    ((∀ n t, run step s (is.take n) = some t → P t) ↔ AllSteps step C s is)
  | [], s, hs => by
    refine ⟨fun _ => trivial, fun _ n t h => ?_⟩
    rw [List.take_nil, run_nil, Option.some.injEq] at h
    exact h ▸ hP s hs
  | i :: is, s, hs => by
    constructor
    · intro hall
      have hC : C s i := by
        by_contra hC
        obtain ⟨s', hs', hnot⟩ := hbreak s i hs hC
        exact hnot (hall 1 s' (run_cons_eq_some.mpr ⟨s', hs', rfl⟩))
      refine ⟨hC, fun s' hs' => ?_⟩
      refine (forall_run_take_iff hP hstep hbreak is (hstep s i s' hs hC hs')).mp fun n t ht => ?_
      exact hall (n + 1) t (run_cons_eq_some.mpr ⟨s', hs', ht⟩)
    · rintro ⟨hC, hrest⟩ n t h
      cases n with
      | zero =>
        rw [List.take_zero, run_nil, Option.some.injEq] at h
        exact h ▸ hP s hs
      | succ n =>
        obtain ⟨s', hs', ht⟩ := run_cons_eq_some.mp h
        exact (forall_run_take_iff hP hstep hbreak is (hstep s i s' hs hC hs')).mpr
          (hrest s' hs') n t ht

theorem AllSteps.and {P : ι → Prop} : ∀ {is : List ι} {s : σ}, (∀ i ∈ is, P i) →
    AllSteps step C s is → AllSteps step (fun s i => P i ∧ C s i) s is
  | [], _, _, _ => trivial
  | i :: _, _, hP, hC =>
    ⟨⟨hP i List.mem_cons_self, hC.1⟩,
      fun s' h => AllSteps.and (fun j hj => hP j (List.mem_cons_of_mem i hj)) (hC.2 s' h)⟩

/-- **Refinement.** If the steps meeting `C` follow the steps of a function `f` on abstract states, so do
the runs. -/
theorem run_refines {τ : Type*} {R : σ → τ → Prop} {f : τ → ι → τ}
    (hstep : ∀ s i s' a, R s a → C s i → step s i = some s' → R s' (f a i)) :
    ∀ {is : List ι} {s t : σ} {a : τ}, R s a → AllSteps step C s is → run step s is = some t →
    R t (is.foldl f a)
  | [], s, t, a, hR, _, h => by
    rw [run_nil, Option.some.injEq] at h
    rwa [← h]
  | i :: is, s, t, a, hR, hC, h => by
    obtain ⟨s', hs', ht⟩ := run_cons_eq_some.mp h
    rw [List.foldl_cons]
    exact run_refines hstep (hstep s i s' a hR hC.1 hs') (hC.2 s' hs') ht

theorem run_refines_total {τ : Type*} {R : σ → τ → Prop} {f : τ → ι → τ}
    (hstep : ∀ s i a, R s a → C s i → ∃ s', step s i = some s' ∧ R s' (f a i)) :
    ∀ {is : List ι} {s : σ} {a : τ}, R s a → AllSteps step C s is →
    ∃ t, run step s is = some t ∧ R t (is.foldl f a)
  | [], s, _, hR, _ => ⟨s, rfl, hR⟩
  | i :: is, s, a, hR, hC => by
    obtain ⟨s', hs', hR'⟩ := hstep s i a hR hC.1
    obtain ⟨t, ht, hRt⟩ := run_refines_total hstep hR' (hC.2 s' hs')
    exact ⟨t, run_cons_eq_some.mpr ⟨s', hs', ht⟩, hRt⟩

/-- A run of steps that are always taken, with what the last one brings about. -/
theorem run_total_last {L : σ → ι → Prop}
    (hstep : ∀ s i, I s → C s i → ∃ s', step s i = some s' ∧ I s' ∧ L s' i) :
    ∀ {is : List ι} {s : σ}, I s → AllSteps step C s is →
    ∃ t, run step s is = some t ∧ I t ∧ ∀ i, is.getLast? = some i → L t i
  | [], s, hs, _ => ⟨s, rfl, hs, fun i hi => by simp at hi⟩
  | i :: is, s, hs, hC => by
    obtain ⟨s', hs', hI, hL⟩ := hstep s i hs hC.1
    obtain ⟨t, ht, hIt, hLt⟩ := run_total_last hstep hI (hC.2 s' hs')
    refine ⟨t, run_cons_eq_some.mpr ⟨s', hs', ht⟩, hIt, ?_⟩
    cases is with
    | nil =>
      intro j hj
      obtain rfl : s' = t := Option.some.inj ht
      obtain rfl : i = j := Option.some.inj hj
      exact hL
    | cons k is =>
      rw [List.getLast?_cons_cons]
      exact hLt

/-- The states that a relation of steps takes `a` to on the inputs. -/
inductive Chain {τ : Type*} (A : τ → ι → τ → Prop) : τ → List ι → τ → Prop
  | nil (a : τ) : Chain A a [] a
  | cons {a b c : τ} {i : ι} {is : List ι} : A a i b → Chain A b is c → Chain A a (i :: is) c

/-- **Simulation.** If the steps meeting `C` are taken and can be matched by a relation of steps on
abstract states, so are the runs. -/
theorem run_simulates {τ : Type*} {R : σ → τ → Prop} {A : τ → ι → τ → Prop}
    (hstep : ∀ s i a, R s a → C s i → ∃ s' b, step s i = some s' ∧ A a i b ∧ R s' b) :
    ∀ {is : List ι} {s : σ} {a : τ}, R s a → AllSteps step C s is →
    ∃ t b, run step s is = some t ∧ Chain A a is b ∧ R t b
  | [], s, a, hR, _ => ⟨s, a, rfl, .nil a, hR⟩
  | i :: is, s, a, hR, hC => by
    obtain ⟨s', b, hs', hA, hR'⟩ := hstep s i a hR hC.1
    obtain ⟨t, c, ht, hchain, hRt⟩ := run_simulates hstep hR' (hC.2 s' hs')
    exact ⟨t, c, run_cons_eq_some.mpr ⟨s', hs', ht⟩, .cons hA hchain, hRt⟩

/-! ### Runs with their history -/

/-- The system that also keeps its inputs, the newest first. -/
def logged (step : σ → ι → Option σ) (s : σ × List ι) (i : ι) : Option (σ × List ι) :=
  (step s.1 i).map fun s' => (s', i :: s.2)

theorem logged_eq_some {s t : σ × List ι} {i : ι} :
    logged step s i = some t ↔ step s.1 i = some t.1 ∧ t.2 = i :: s.2 := by
  obtain ⟨t, l⟩ := t
  simp [logged, Prod.ext_iff, eq_comm]

theorem run_logged : ∀ {is : List ι} {s t : σ} (l : List ι), run step s is = some t →
    run (logged step) (s, l) is = some (t, is.reverse ++ l)
  | [], s, t, l, h => by
    rw [run_nil, Option.some.injEq] at h
    rw [h]; rfl
  | i :: is, s, t, l, h => by
    obtain ⟨s', hs', ht⟩ := run_cons_eq_some.mp h
    refine run_cons_eq_some.mpr ⟨(s', i :: l), logged_eq_some.mpr ⟨hs', rfl⟩, ?_⟩
    rw [run_logged (i :: l) ht]
    simp

end Waveplay.Lib.Runs
