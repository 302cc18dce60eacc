import Mathlib

/-! Validation that collects what it finds wrong. A reader looks at data and
gives a value or none, and it reports on the way. It reads a relation exactly
when it gives the related value without a report, and reports something whenever
there is no related value. Such readers compose without looking inside them. -/

/-- A value with the reports made while it was computed. Code that shares one
list of reports and only appends to it is of this form. -/
structure Validation (ε : Type) (α : Type) where
  value : α
  reports : List ε

namespace Validation

variable {ε α β : Type}

instance : Monad (Validation ε) where
  pure a := ⟨a, []⟩
  bind m f := ⟨(f m.value).value, m.reports ++ (f m.value).reports⟩

def report (e : ε) : Validation ε Unit := ⟨(), [e]⟩

@[simp] theorem value_pure (a : α) : (pure a : Validation ε α).value = a := rfl

@[simp] theorem reports_pure (a : α) : (pure a : Validation ε α).reports = [] := rfl

@[simp] theorem value_bind (m : Validation ε α) (f : α → Validation ε β) :
    (m >>= f).value = (f m.value).value := rfl

@[simp] theorem reports_bind (m : Validation ε α) (f : α → Validation ε β) :
    (m >>= f).reports = m.reports ++ (f m.value).reports := rfl

@[simp] theorem reports_report (e : ε) : (report e).reports = [e] := rfl

@[simp] theorem pure_bind (a : α) (f : α → Validation ε β) :
    ((pure a : Validation ε α) >>= f) = f a := rfl

def Guards (check : Validation ε Unit) (p : Prop) : Prop := check.reports = [] ↔ p

theorem Guards.congr {check : Validation ε Unit} {p q : Prop} (h : Guards check p)
    (hpq : p ↔ q) : Guards check q :=
  Iff.trans h hpq

theorem Guards.pass : Guards (pure () : Validation ε Unit) True := by
  simp [Guards]

theorem Guards.fail (e : ε) : Guards (report e) False := by
  simp [Guards]

theorem Guards.ite {c : Prop} [Decidable c] {x y : Validation ε Unit} {p q : Prop}
    (hx : Guards x p) (hy : Guards y q) :
    Guards (if c then x else y) (if c then p else q) := by
  split_ifs with hc
  · exact hx
  · exact hy

/-- One check for each element of a list. -/
theorem Guards.forM {f : α → Validation ε PUnit} {p : α → Prop} (h : ∀ a, Guards (f a) (p a))
    (as : List α) : Guards (as.forM f) (∀ a ∈ as, p a) := by
  induction as with
  | nil => simp [Guards]
  | cons a as ih =>
    have hhead : (f a).reports = [] ↔ p a := h a
    have htail : (as.forM f).reports = [] ↔ ∀ b ∈ as, p b := ih
    change (f a >>= fun _ => as.forM f).reports = [] ↔ _
    rw [reports_bind, List.append_eq_nil_iff, hhead, htail, List.forall_mem_cons]

structure Reads (m : Validation ε (Option α)) (P : α → Prop) : Prop where
  accepts : ∀ a, P a → m = pure (some a)
  rejects : (∀ a, ¬P a) → m.reports ≠ []

variable {m : Validation ε (Option α)} {P : α → Prop}

/-- A silent reader has read a value of `P`. -/
theorem Reads.silent (h : Reads m P) (hm : m.reports = []) : ∃ a, P a ∧ m = pure (some a) := by
  by_contra hnone
  refine h.rejects (fun a ha => hnone ⟨a, ha, h.accepts a ha⟩) hm

theorem Reads.congr {Q : α → Prop} (h : Reads m P) (hPQ : ∀ a, P a ↔ Q a) : Reads m Q := by
  have heq : P = Q := funext fun a => propext (hPQ a)
  exact heq ▸ h

theorem Reads.pure (a : α) : Reads (Pure.pure (some a) : Validation ε (Option α)) (a = ·) where
  accepts := by
    rintro _ rfl
    rfl
  rejects h := absurd rfl (h a)

theorem Reads.pure_of {a : α} (ha : P a) (hu : ∀ b, P b → a = b) :
    Reads (Pure.pure (some a) : Validation ε (Option α)) P := by
  refine (Reads.pure a).congr fun b => ⟨?_, hu b⟩
  rintro rfl
  exact ha

/-- A report instead of a value. -/
theorem Reads.fail (e : ε) (h : ∀ a, ¬P a) :
    Reads (do report e; Pure.pure (none : Option α)) P where
  accepts a ha := absurd ha (h a)
  rejects _ := by simp

/-- A reader behind a check. -/
theorem Reads.guard {check : Validation ε Unit} {p : Prop} (hc : Guards check p)
    (hm : p → Reads m P) : Reads (do check; m) fun a => p ∧ P a where
  accepts a ha := by
    have hsilent : check = Pure.pure () := by
      cases check
      exact congrArg (Validation.mk ()) (hc.mpr ha.1)
    rw [hsilent, pure_bind]
    exact (hm ha.1).accepts a ha.2
  rejects h := by
    rw [reports_bind]
    intro hnil
    obtain ⟨hcheck, hrest⟩ := List.append_eq_nil_iff.mp hnil
    have hp := hc.mp hcheck
    exact (hm hp).rejects (fun a ha => h a ⟨hp, ha⟩) hrest

/-- A reader and, for what it reads, another. -/
theorem Reads.bind {f : Option α → Validation ε (Option β)} {Q : α → β → Prop}
    (hm : Reads m P) (hf : ∀ a, P a → Reads (f (some a)) (Q a)) :
    Reads (m >>= f) fun b => ∃ a, P a ∧ Q a b where
  accepts := by
    rintro b ⟨a, ha, hb⟩
    rw [hm.accepts a ha, pure_bind]
    exact (hf a ha).accepts b hb
  rejects h := by
    by_cases hP : ∃ a, P a
    · obtain ⟨a, ha⟩ := hP
      rw [hm.accepts a ha, pure_bind]
      exact (hf a ha).rejects fun b hb => h b ⟨a, ha, hb⟩
    · rw [reports_bind]
      intro hnil
      exact hm.rejects (fun a ha => hP ⟨a, ha⟩) (List.append_eq_nil_iff.mp hnil).1

end Validation
