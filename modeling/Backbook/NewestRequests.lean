import Mathlib

/-! A screen over a source whose value only moves up. Requests about the source
are numbered, an answer is taken while its request is open, and only the newest
request may display its answer. Then the screen never moves down. -/
namespace NewestRequest

open Relation

/-- The source, what is shown of it, the number of the newest request, and for
each open request what the source held when the request was made. -/
structure Screen (α : Type*) where
  source : α
  shown : Option α
  newest : ℕ
  floor : ℕ → Option α

variable {α : Type*} [Preorder α] {s t : Screen α}

inductive Step : Screen α → Screen α → Prop
  | advance {s : Screen α} {a : α} (h : s.source ≤ a) : Step s { s with source := a }
  | request (s : Screen α) : Step s { s with
      newest := s.newest + 1
      floor := Function.update s.floor (s.newest + 1) (some s.source) }
  | close (s : Screen α) (k : ℕ) : Step s { s with floor := Function.update s.floor k none }
  | display {s : Screen α} {a b : α} (hf : s.floor s.newest = some a) (hl : a ≤ b)
      (hs : b ≤ s.source) : Step s { s with
        shown := some b
        floor := Function.update s.floor s.newest none }

structure Screen.Orderly (s : Screen α) : Prop where
  behind : ∀ a ∈ s.shown, a ≤ s.source
  before : ∀ a ∈ s.shown, ∀ b ∈ s.floor s.newest, a ≤ b

theorem Screen.Orderly.step (h : s.Orderly) (hstep : Step s t) : t.Orderly := by
  cases hstep with
  | advance hle => exact ⟨fun a ha => (h.behind a ha).trans hle, h.before⟩
  | request =>
    refine ⟨h.behind, fun a ha b hb => ?_⟩
    -- The new request starts where the source stands.
    simp only [Function.update_self, Option.mem_some_iff] at hb
    exact (h.behind a ha).trans hb.le
  | close k =>
    refine ⟨h.behind, fun a ha b hb => ?_⟩
    by_cases hk : s.newest = k
    · simp [hk] at hb
    · simp only [Function.update_of_ne hk] at hb
      exact h.before a ha b hb
  | display hf hl hs =>
    refine ⟨fun a ha => ?_, fun a ha b hb => ?_⟩
    · obtain rfl := Option.some.inj ha
      exact hs
    · simp at hb

/-- A step keeps what is shown, or shows something that is not below it. -/
theorem Screen.Orderly.shown_le (h : s.Orderly) (hstep : Step s t) {a : α}
    (ha : s.shown = some a) : ∃ b, t.shown = some b ∧ a ≤ b := by
  cases hstep with
  | advance hle => exact ⟨a, ha, le_rfl⟩
  | request => exact ⟨a, ha, le_rfl⟩
  | close k => exact ⟨a, ha, le_rfl⟩
  | display hf hl hs => exact ⟨_, rfl, (h.before a ha _ hf).trans hl⟩

theorem Screen.Orderly.run (h : s.Orderly) (hrun : ReflTransGen Step s t) : t.Orderly := by
  induction hrun with
  | refl => exact h
  | tail _ hstep ih => exact ih.step hstep

theorem Screen.Orderly.shown_le_run (h : s.Orderly) (hrun : ReflTransGen Step s t) {a : α}
    (ha : s.shown = some a) : ∃ b, t.shown = some b ∧ a ≤ b := by
  induction hrun with
  | refl => exact ⟨a, ha, le_rfl⟩
  | tail hpath hstep ih =>
    obtain ⟨b, hb, hab⟩ := ih
    obtain ⟨c, hc, hbc⟩ := (h.run hpath).shown_le hstep hb
    exact ⟨c, hc, hab.trans hbc⟩

end NewestRequest
