import Mathlib

namespace RunHistory

open Relation

variable {σ : Type*} {step : σ → σ → Prop} {start : σ}

inductive Trail (step : σ → σ → Prop) (start : σ) : List σ → σ → Prop
  | nil : Trail step start [] start
  | snoc {past : List σ} {s t : σ} (h : Trail step start past s) (hs : step s t) :
      Trail step start (s :: past) t

theorem Trail.reaches {past : List σ} {s : σ} (h : Trail step start past s) :
    ReflTransGen step start s := by
  induction h with
  | nil => exact .refl
  | snoc _ hs ih => exact ih.tail hs

/-- What the start has and every step keeps, every reachable state has. -/
theorem invariant_of_steps {P : σ → Prop} (hstart : P start)
    (hstep : ∀ s t, P s → step s t → P t) {s : σ} (h : ReflTransGen step start s) : P s := by
  induction h with
  | refl => exact hstart
  | tail _ hs ih => exact hstep _ _ ih hs

/-- Where every step is matched by a run of another system, so is every run. -/
theorem run_matched {τ : Type*} {other : τ → τ → Prop} {R : σ → τ → Prop}
    (hstep : ∀ s s' t, R s t → step s s' → ∃ t', ReflTransGen other t t' ∧ R s' t') {s s' : σ}
    {t : τ} (hr : R s t) (h : ReflTransGen step s s') :
    ∃ t', ReflTransGen other t t' ∧ R s' t' := by
  induction h with
  | refl => exact ⟨t, .refl, hr⟩
  | tail _ hs ih =>
    obtain ⟨u, hu, hru⟩ := ih
    obtain ⟨t', ht', hrt⟩ := hstep _ _ u hru hs
    exact ⟨t', hu.trans ht', hrt⟩

/-- A state component that every step extends by exactly what the new state
shows is a record of everything ever shown. -/
theorem record_iff_ever (recorded shown good : σ → Prop) (hgood : good start)
    (hkeep : ∀ s t, good s → step s t → good t) (hshow : ∀ s, good s → shown s → recorded s)
    (hstart : ¬recorded start)
    (hstep : ∀ s t, good s → step s t → recorded t → recorded s ∨ shown t)
    (hmono : ∀ s t, good s → step s t → recorded s → recorded t)
    {past : List σ} {s : σ} (h : Trail step start past s) :
    recorded s ↔ ∃ t ∈ s :: past, shown t := by
  induction h with
  | nil =>
    refine ⟨fun hr => absurd hr hstart, ?_⟩
    rintro ⟨t, ht, hs⟩
    obtain rfl := List.mem_singleton.mp ht
    exact absurd (hshow _ hgood hs) hstart
  | @snoc past s t htrail hs ih =>
    have hg : good s := invariant_of_steps hgood hkeep htrail.reaches
    constructor
    · intro hr
      rcases hstep s t hg hs hr with hold | hnew
      · obtain ⟨u, hu, hshown⟩ := ih.mp hold
        exact ⟨u, List.mem_cons_of_mem _ hu, hshown⟩
      · exact ⟨t, List.mem_cons_self, hnew⟩
    · rintro ⟨u, hu, hshown⟩
      rcases List.mem_cons.mp hu with rfl | hu
      · exact hshow _ (hkeep s _ hg hs) hshown
      · exact hmono s t hg hs (ih.mpr ⟨u, hu, hshown⟩)

end RunHistory
