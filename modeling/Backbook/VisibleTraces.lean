import Mathlib

/-! Systems whose steps are visible or silent, and the traces of visible events.
A simulation finds every trace of one system in another, and what each event
leaves behind in the state relates it to all events after it. -/
namespace VisibleTrace

variable {σ τ ε : Type*} {step : σ → Option ε → σ → Prop} {other : τ → Option ε → τ → Prop}

inductive Run (step : σ → Option ε → σ → Prop) (start : σ) : List ε → σ → Prop
  | nil : Run step start [] start
  | snoc {trace : List ε} {s t : σ} {event : Option ε} (h : Run step start trace s)
      (hs : step s event t) : Run step start (trace ++ event.toList) t

section Runs

variable {start s t : σ} {trace more : List ε} {event : Option ε}

theorem Run.single (hs : step s event t) : Run step s event.toList t := by
  have h := Run.snoc .nil hs
  rwa [List.nil_append] at h

theorem Run.trans (h : Run step start trace s) (h' : Run step s more t) :
    Run step start (trace ++ more) t := by
  induction h' with
  | nil => rwa [List.append_nil]
  | snoc _ hs ih =>
    rw [← List.append_assoc]
    exact ih.snoc hs

theorem Run.invariant {P : σ → Prop} (h : Run step start trace s) (hstart : P start)
    (hstep : ∀ s event t, P s → step s event t → P t) : P s := by
  induction h with
  | nil => exact hstart
  | snoc _ hs ih => exact hstep _ _ _ ih hs

/-- An invariant may speak of the events seen so far. -/
theorem Run.history {P : List ε → σ → Prop} (h : Run step start trace s) (hstart : P [] start)
    (hstep : ∀ trace s event t, P trace s → step s event t → P (trace ++ event.toList) t) :
    P trace s := by
  induction h with
  | nil => exact hstart
  | snoc _ hs ih => exact hstep _ _ _ _ ih hs

/-- An event of a run is one of its steps. -/
theorem Run.at_event (h : Run step start trace s) {front back : List ε} {e : ε}
    (he : trace = front ++ e :: back) :
    ∃ before after, Run step start front before ∧ step before (some e) after ∧
      Run step after back s := by
  induction h generalizing back with
  | nil => exact absurd he.symm (List.append_ne_nil_of_right_ne_nil _ (List.cons_ne_nil _ _))
  | @snoc trace s t event h hs ih =>
    cases event with
    | none =>
      rw [Option.toList_none, List.append_nil] at he
      obtain ⟨before, after, hfront, hevent, hback⟩ := ih he
      have hlast := hback.snoc hs
      rw [Option.toList_none, List.append_nil] at hlast
      exact ⟨before, after, hfront, hevent, hlast⟩
    | some last =>
      rw [Option.toList_some] at he
      rcases List.eq_nil_or_concat back with rfl | ⟨back, final, rfl⟩
      · obtain ⟨rfl, hlast⟩ := List.append_inj' he rfl
        obtain rfl := List.singleton_inj.mp hlast
        exact ⟨s, t, h, hs, .nil⟩
      · rw [List.concat_eq_append, ← List.cons_append, ← List.append_assoc] at he
        obtain ⟨rfl, hlast⟩ := List.append_inj' he rfl
        obtain ⟨before, after, hfront, hevent, hback⟩ := ih rfl
        obtain rfl := List.singleton_inj.mp hlast
        rw [List.concat_eq_append]
        exact ⟨before, after, hfront, hevent, hback.snoc hs⟩

/-- Events of a run are related when the later one is to everything that the state
remembers of the earlier one. -/
theorem Run.pairwise {P : σ → Prop} {remembers : σ → ε → Prop} {Q : ε → ε → Prop}
    (h : Run step start trace s) (hstart : P start)
    (hstep : ∀ s event t, P s → step s event t → P t)
    (hemit : ∀ s e t, P s → step s (some e) t → remembers t e)
    (hkeep : ∀ s event t e, P s → step s event t → remembers s e → remembers t e)
    (hrelate : ∀ s e e' t, P s → remembers s e → step s (some e') t → Q e e') :
    trace.Pairwise Q := by
  -- Along the run the state remembers every event seen so far.
  suffices hall : trace.Pairwise Q ∧ ∀ e ∈ trace, remembers s e from hall.1
  induction h with
  | nil => exact ⟨List.Pairwise.nil, nofun⟩
  | @snoc trace s t event h hs ih =>
    obtain ⟨hpairs, hmemory⟩ := ih
    have hP : P s := h.invariant hstart hstep
    have hkept : ∀ e ∈ trace, remembers t e := fun e he => hkeep s event t e hP hs (hmemory e he)
    cases event with
    | none =>
      rw [Option.toList_none, List.append_nil]
      exact ⟨hpairs, hkept⟩
    | some last =>
      rw [Option.toList_some]
      constructor
      · rw [List.pairwise_append]
        refine ⟨hpairs, List.pairwise_singleton Q last, ?_⟩
        intro e he e' he'
        obtain rfl := List.mem_singleton.mp he'
        exact hrelate s e e' t hP (hmemory e he) hs
      · intro e he
        rcases List.mem_append.mp he with he | he
        · exact hkept e he
        · obtain rfl := List.mem_singleton.mp he
          exact hemit s e t hP hs

end Runs

section Views

/-- A view of the state that only the events which concern it change, and these
in a way that the view alone decides. -/
structure Local {δ : Type*} (step : σ → Option ε → σ → Prop) (P : σ → Prop) (concerns : ε → Bool)
    (view : σ → δ) : Prop where
  keeps : ∀ s event t, P s → step s event t → P t
  silent : ∀ s t, P s → step s none t → view t = view s
  other : ∀ s e t, P s → step s (some e) t → concerns e = false → view t = view s
  definite : ∀ s s' e t t', P s → P s' → step s (some e) t → step s' (some e) t' →
    concerns e = true → view s = view s' → view t = view t'

variable {δ : Type*} {P : σ → Prop} {concerns : ε → Bool} {view : σ → δ} {start start' s s' : σ}
  {trace trace' : List ε}

theorem Local.view_kept (hl : Local step P concerns view) (h : Run step start trace s)
    (hP : P start) (hnone : trace.filter concerns = []) : view s = view start := by
  induction h with
  | nil => rfl
  | @snoc trace s t event h hs ih =>
    rw [List.filter_append, List.append_eq_nil_iff] at hnone
    have hs' : P s := h.invariant hP hl.keeps
    cases event with
    | none => exact (hl.silent s t hs' hs).trans (ih hnone.1)
    | some e =>
      have hc : concerns e = false := by simpa using hnone.2
      exact (hl.other s e t hs' hs hc).trans (ih hnone.1)

/-- Two runs with the same concerning events, in the same order, end with the same
view, whatever else happens between these events. -/
theorem Local.view_eq (hl : Local step P concerns view) (h : Run step start trace s)
    (h' : Run step start' trace' s') (hP : P start) (hP' : P start')
    (hview : view start = view start')
    (hproj : trace.filter concerns = trace'.filter concerns) : view s = view s' := by
  induction h generalizing trace' s' with
  | nil => exact hview.trans (hl.view_kept h' hP' hproj.symm).symm
  | @snoc trace s t event h hs ih =>
    have hPs : P s := h.invariant hP hl.keeps
    cases event with
    | none =>
      rw [Option.toList_none, List.append_nil] at hproj
      exact (hl.silent s t hPs hs).trans (ih h' hproj)
    | some e =>
      rw [Option.toList_some, List.filter_append] at hproj
      cases hc : concerns e with
      | false =>
        rw [List.filter_cons_of_neg (by simp [hc]), List.filter_nil, List.append_nil] at hproj
        exact (hl.other s e t hPs hs hc).trans (ih h' hproj)
      | true =>
        rw [List.filter_cons_of_pos hc, List.filter_nil] at hproj
        -- The other run has the event as its last concerning one.
        obtain ⟨front, tail, htrace, hfront, htail⟩ := List.filter_eq_append_iff.mp hproj.symm
        obtain ⟨idle, back, rfl, hidle, _, hback⟩ := List.filter_eq_cons_iff.mp htail
        rw [← List.append_assoc] at htrace
        obtain ⟨before, after, hbefore, hevent, hafter⟩ := h'.at_event htrace
        have hPb : P before := hbefore.invariant hP' hl.keeps
        have hsame : trace.filter concerns = (front ++ idle).filter concerns := by
          rw [List.filter_append, hfront, List.filter_eq_nil_iff.mpr hidle, List.append_nil]
        have hboth : view t = view after :=
          hl.definite s before e t after hPs hPb hs hevent hc (ih hbefore hsame)
        have hPa : P after := hl.keeps before (some e) after hPb hevent
        exact hboth.trans (hl.view_kept hafter hPa hback).symm

end Views

def Simulates (step : σ → Option ε → σ → Prop) (other : τ → Option ε → τ → Prop)
    (R : σ → τ → Prop) : Prop :=
  ∀ s event s' t, R s t → step s event s' → ∃ t', Run other t event.toList t' ∧ R s' t'

/-- A simulation finds each trace again. -/
theorem Simulates.run {R : σ → τ → Prop} (hR : Simulates step other R) {s s' : σ} {t : τ}
    {trace : List ε} (hr : R s t) (h : Run step s trace s') :
    ∃ t', Run other t trace t' ∧ R s' t' := by
  induction h with
  | nil => exact ⟨t, .nil, hr⟩
  | snoc _ hs ih =>
    obtain ⟨u, hu, hru⟩ := ih
    obtain ⟨t', ht', hrt⟩ := hR _ _ _ u hru hs
    exact ⟨t', hu.trans ht', hrt⟩

end VisibleTrace
