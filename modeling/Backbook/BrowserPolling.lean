import Backbook.RunHistories

/-! The polling loop of the browser. Timers, visibility changes and answers reach
it in any order, also after it was stopped. One refresh is in flight or one timer
is armed as long as the page is shown, and nothing happens once it is stopped. -/
namespace Backbook.Browser

open Relation

def basePollingDelayMilliseconds : ℕ := 5000

def maximumPollingDelayMilliseconds : ℕ := 60000

def pollingDelayMilliseconds (consecutiveFailures : ℤ) : ℕ :=
  let exponent := (min (max consecutiveFailures 0) 4).toNat
  min (basePollingDelayMilliseconds * 2 ^ exponent) maximumPollingDelayMilliseconds

theorem pollingDelayMilliseconds_natCast (failures : ℕ) :
    pollingDelayMilliseconds failures = min (5000 * 2 ^ min failures 4) 60000 := by
  have hexponent : (min (max (failures : ℤ) 0) 4).toNat = min failures 4 := by omega
  rw [pollingDelayMilliseconds, hexponent, basePollingDelayMilliseconds,
    maximumPollingDelayMilliseconds]

structure ArmedTimer where
  handle : ℕ
  delayMilliseconds : ℕ
deriving DecidableEq, Repr

inductive RefreshCompletion
  | returned (succeeded : Bool)
  | thrown
deriving DecidableEq, Repr

def RefreshCompletion.succeeded : RefreshCompletion → Bool
  | .returned succeeded => succeeded
  | .thrown => false

/-- The variables of the loop, and behind them what its environment holds: the
page, the armed timers, the subscription, the refreshes that were started and not
yet answered, the number of all started ones, and how the others ended, the latest
first. -/
structure Polling where
  stopped : Bool
  refreshInFlight : Bool
  timer : Option ℕ
  consecutiveFailures : ℤ
  visible : Bool
  armed : List ArmedTimer
  subscribed : Bool
  outstanding : ℕ
  started : ℕ
  completions : List RefreshCompletion
deriving DecidableEq, Repr

namespace Polling

def clearTimer (polling : Polling) : Polling :=
  match polling.timer with
  | none => polling
  | some handle =>
    { polling with
      armed := polling.armed.filter fun timer => timer.handle ≠ handle
      timer := none }

/-- The handle is the one that the environment gives to the new timer. -/
def schedule (handle : ℕ) (polling : Polling) : Polling :=
  let cleared := polling.clearTimer
  if cleared.stopped ∨ ¬cleared.visible then cleared
  else
    { cleared with
      armed := ⟨handle, pollingDelayMilliseconds cleared.consecutiveFailures⟩ :: cleared.armed
      timer := some handle }

def runRefresh (polling : Polling) : Polling :=
  if polling.stopped ∨ polling.refreshInFlight ∨ ¬polling.visible then polling
  else
    { polling with
      refreshInFlight := true
      outstanding := polling.outstanding + 1
      started := polling.started + 1 }

def refreshCompleted (handle : ℕ) (completion : RefreshCompletion) (polling : Polling) : Polling :=
  let answered :=
    { polling with
      refreshInFlight := false
      outstanding := polling.outstanding - 1
      completions := completion :: polling.completions }
  if answered.stopped then answered
  else
    schedule handle
      { answered with
        consecutiveFailures :=
          if completion.succeeded then 0 else answered.consecutiveFailures + 1 }

def timerFired (fired : ArmedTimer) (polling : Polling) : Polling :=
  runRefresh { polling with armed := polling.armed.erase fired, timer := none }

def visibilityListener (polling : Polling) : Polling :=
  let cleared := polling.clearTimer
  if cleared.visible then cleared.runRefresh else cleared

def visibilityChanged (visible : Bool) (polling : Polling) : Polling :=
  let changed := { polling with visible := visible }
  if changed.subscribed then changed.visibilityListener else changed

def stop (polling : Polling) : Polling :=
  { clearTimer { polling with stopped := true } with subscribed := false }

end Polling

def startVisibilityAwarePolling (visible : Bool) : Polling :=
  Polling.runRefresh
    { stopped := false, refreshInFlight := false, timer := none, consecutiveFailures := 0,
      visible := visible, armed := [], subscribed := true, outstanding := 0, started := 0,
      completions := [] }

namespace Polling

inductive Step : Polling → Polling → Prop
  | timerFires {polling : Polling} {fired : ArmedTimer} (harmed : fired ∈ polling.armed) :
      Step polling (polling.timerFired fired)
  | visibilityChanges (polling : Polling) (visible : Bool) :
      Step polling (polling.visibilityChanged visible)
  | refreshCompletes {polling : Polling} (houtstanding : 0 < polling.outstanding) (handle : ℕ)
      (completion : RefreshCompletion) : Step polling (polling.refreshCompleted handle completion)
  | stops (polling : Polling) : Step polling polling.stop

def failuresSinceSuccess (completions : List RefreshCompletion) : ℕ :=
  (completions.takeWhile fun completion => !completion.succeeded).length

/-- What holds also between clearing the timer and what comes after it. -/
structure Consistent (polling : Polling) : Prop where
  flight : polling.outstanding = if polling.refreshInFlight then 1 else 0
  timers : polling.armed = polling.timer.toList.map fun handle =>
    ⟨handle, pollingDelayMilliseconds polling.consecutiveFailures⟩
  counted : polling.stopped = false →
    polling.consecutiveFailures = failuresSinceSuccess polling.completions
  listening : polling.subscribed = !polling.stopped

structure Sound (polling : Polling) : Prop extends Consistent polling where
  waiting : polling.timer ≠ none →
    polling.refreshInFlight = false ∧ polling.visible = true ∧ polling.stopped = false
  alive : polling.stopped = false → polling.visible = true →
    polling.refreshInFlight = true ∨ polling.timer ≠ none

variable {p q : Polling}

/-- The loop knows the armed timer, so clearing it leaves none. -/
theorem clearTimer_eq (h : p.armed = p.timer.toList.map fun handle =>
      ⟨handle, pollingDelayMilliseconds p.consecutiveFailures⟩) :
    p.clearTimer = { p with armed := [], timer := none } := by
  obtain ⟨stopped, refreshInFlight, timer, failures, visible, armed⟩ := p
  cases timer with
  | none =>
    have harmed : armed = [] := h
    rw [harmed]
    rfl
  | some handle =>
    have harmed : armed = [⟨handle, pollingDelayMilliseconds failures⟩] := h
    simp [clearTimer, harmed]

theorem Consistent.cleared (h : p.Consistent) :
    Consistent { p with armed := [], timer := none } where
  flight := h.flight
  timers := rfl
  counted := h.counted
  listening := h.listening

/-- Whatever fires was the only timer. -/
theorem Consistent.fired (h : p.Consistent) {fired : ArmedTimer} (hfired : fired ∈ p.armed) :
    p.armed.erase fired = [] := by
  have htimers := h.timers
  cases htimer : p.timer with
  | none =>
    rw [htimer] at htimers
    rw [htimers] at hfired
    exact absurd hfired (List.not_mem_nil)
  | some handle =>
    rw [htimer] at htimers
    have harmed : p.armed = [⟨handle, pollingDelayMilliseconds p.consecutiveFailures⟩] := htimers
    rw [harmed] at hfired ⊢
    obtain rfl := List.mem_singleton.mp hfired
    exact List.erase_cons_head _ _

/-- Without a timer the loop either refreshes or may not. -/
theorem Consistent.runRefresh (h : p.Consistent) (htimer : p.timer = none) :
    p.runRefresh.Sound := by
  have hflight := h.flight
  unfold Polling.runRefresh
  split_ifs with hskip
  · -- A loop that may refresh and does not is refreshing already.
    refine { h with waiting := fun hne => absurd htimer hne, alive := ?_ }
    intro hstopped hvisible
    left
    simpa [hstopped, hvisible] using hskip
  · obtain ⟨-, hidle, -⟩ : _ ∧ ¬p.refreshInFlight = true ∧ _ := by simpa only [not_or] using hskip
    have hzero : p.outstanding = 0 := by rw [hflight, if_neg hidle]
    -- No other refresh was in flight, so this one is the only one.
    refine ⟨⟨?_, h.timers, h.counted, h.listening⟩, fun hne => absurd htimer hne,
      fun _ _ => Or.inl rfl⟩
    rw [hzero]
    rfl

/-- With nothing in flight the loop arms a timer or may not. -/
theorem Consistent.schedule (h : p.Consistent) (hidle : p.refreshInFlight = false)
    (handle : ℕ) : (p.schedule handle).Sound := by
  have hcleared := h.cleared
  unfold Polling.schedule
  simp only [clearTimer_eq h.timers]
  split_ifs with hskip
  -- Only a stopped or hidden loop arms nothing.
  · refine { hcleared with waiting := fun hne => absurd rfl hne, alive := ?_ }
    intro hstopped hvisible
    simp [show p.stopped = false from hstopped, show p.visible = true from hvisible] at hskip
  · obtain ⟨hrunning, hshown⟩ := not_or.mp hskip
    refine ⟨⟨h.flight, rfl, h.counted, h.listening⟩, fun _ => ⟨hidle, ?_, ?_⟩,
      fun _ _ => Or.inr (Option.some_ne_none _)⟩
    · exact not_not.mp hshown
    · exact Bool.eq_false_iff.mpr hrunning

theorem Sound.timerFired (h : p.Sound) {fired : ArmedTimer} (hfired : fired ∈ p.armed) :
    (p.timerFired fired).Sound := by
  unfold Polling.timerFired
  rw [h.toConsistent.fired hfired]
  exact h.toConsistent.cleared.runRefresh rfl

theorem Sound.visibilityChanged (h : p.Sound) (visible : Bool) :
    (p.visibilityChanged visible).Sound := by
  have hchanged : Consistent { p with visible := visible } :=
    ⟨h.flight, h.timers, h.counted, h.listening⟩
  have hcleared := hchanged.cleared
  -- The listener clears the timer before it looks at the page.
  simp only [Polling.visibilityChanged, visibilityListener, clearTimer_eq hchanged.timers]
  split_ifs with hsubscribed hvisible
  · exact hcleared.runRefresh rfl
  · exact { hcleared with
      waiting := fun hne => absurd rfl hne
      alive := fun _ hshown => absurd hshown hvisible }
  · -- Without the subscription the loop was stopped before.
    have hstopped : p.stopped = true := by
      have hlistening := h.listening
      simpa [show p.subscribed = false by simpa using hsubscribed] using hlistening
    refine { hchanged with waiting := ?_, alive := ?_ }
    · intro hne
      exact absurd (h.waiting hne).2.2 (by simp [hstopped])
    · intro hrunning
      exact absurd hrunning (by simp [hstopped])

theorem failuresSinceSuccess_cons (completion : RefreshCompletion)
    (completions : List RefreshCompletion) : failuresSinceSuccess (completion :: completions) =
      if completion.succeeded then 0 else failuresSinceSuccess completions + 1 := by
  cases h : completion.succeeded <;> simp [failuresSinceSuccess, h]

/-- While a refresh is in flight it is the only one, and no timer waits. -/
theorem Sound.in_flight (h : p.Sound) (houtstanding : 0 < p.outstanding) :
    p.outstanding = 1 ∧ p.timer = none := by
  have hflight : p.refreshInFlight = true := by
    by_contra hidle
    rw [h.flight, if_neg hidle] at houtstanding
    exact lt_irrefl _ houtstanding
  constructor
  · rw [h.flight, if_pos hflight]
  · by_contra hne
    have hidle := (h.waiting hne).1
    rw [hflight] at hidle
    contradiction

/-- The answer of the refresh in flight is counted. -/
theorem Consistent.answered (h : p.Consistent) (hone : p.outstanding = 1)
    (htimer : p.timer = none) (hrunning : p.stopped = false) (completion : RefreshCompletion) :
    Consistent
      { p with
        refreshInFlight := false
        outstanding := p.outstanding - 1
        completions := completion :: p.completions
        consecutiveFailures :=
          if completion.succeeded then 0 else p.consecutiveFailures + 1 } where
  flight := by
    rw [hone]
    rfl
  timers := by
    rw [h.timers, htimer]
    rfl
  counted := by
    intro _
    rw [failuresSinceSuccess_cons, h.counted hrunning]
    split_ifs
    · rfl
    · push_cast
      rfl
  listening := h.listening

theorem Sound.refreshCompleted (h : p.Sound) (houtstanding : 0 < p.outstanding) (handle : ℕ)
    (completion : RefreshCompletion) : (p.refreshCompleted handle completion).Sound := by
  obtain ⟨hone, htimer⟩ := h.in_flight houtstanding
  have hnone : p.outstanding - 1 = 0 := by rw [hone]
  dsimp only [Polling.refreshCompleted]
  by_cases hstopped : p.stopped = true
  · -- Behind the stop the answer is dropped, and no timer is armed for it.
    have hover : ¬p.stopped = false := by simp [hstopped]
    rw [if_pos hstopped]
    exact ⟨⟨hnone, h.timers, fun hrunning => absurd hrunning hover, h.listening⟩,
      fun hne => absurd htimer hne, fun hrunning => absurd hrunning hover⟩
  · have hrunning : p.stopped = false := Bool.eq_false_iff.mpr hstopped
    rw [if_neg hstopped]
    -- The failures are counted before the delay is computed from them.
    exact (h.toConsistent.answered hone htimer hrunning completion).schedule rfl handle

theorem Sound.stop (h : p.Sound) : p.stop.Sound := by
  unfold Polling.stop
  rw [clearTimer_eq (p := { p with stopped := true }) h.timers]
  exact ⟨⟨h.flight, rfl, fun hrunning => absurd hrunning (by simp), rfl⟩,
    fun hne => absurd rfl hne, fun hrunning => absurd hrunning (by simp)⟩

theorem Sound.step (h : p.Sound) (hstep : Step p q) : q.Sound := by
  cases hstep with
  | timerFires harmed => exact h.timerFired harmed
  | visibilityChanges visible => exact h.visibilityChanged visible
  | refreshCompletes houtstanding handle completion =>
    exact h.refreshCompleted houtstanding handle completion
  | stops => exact h.stop

theorem sound_start (visible : Bool) : (startVisibilityAwarePolling visible).Sound :=
  Consistent.runRefresh ⟨rfl, rfl, fun _ => rfl, rfl⟩ rfl

theorem sound_of_reachable {visible : Bool}
    (h : ReflTransGen Step (startVisibilityAwarePolling visible) p) : p.Sound :=
  RunHistory.invariant_of_steps (sound_start visible) (fun _ _ hs hstep => hs.step hstep) h

@[simp] theorem clearTimer_stopped (p : Polling) : p.clearTimer.stopped = p.stopped := by
  unfold clearTimer
  split
  · rfl
  · rfl

@[simp] theorem clearTimer_started (p : Polling) : p.clearTimer.started = p.started := by
  unfold clearTimer
  split
  · rfl
  · rfl

/-- Arming a timer starts nothing and stops nothing. -/
theorem schedule_kept (handle : ℕ) (p : Polling) :
    (p.schedule handle).started = p.started ∧ (p.schedule handle).stopped = p.stopped := by
  dsimp only [Polling.schedule]
  split_ifs
  · simp
  · simp

theorem runRefresh_stopped (p : Polling) : p.runRefresh.stopped = p.stopped := by
  unfold Polling.runRefresh
  split_ifs
  · rfl
  · rfl

/-- A refresh is started only on a shown page, and not behind the stop. -/
theorem runRefresh_started (p : Polling) : p.runRefresh.started = p.started ∨
    p.runRefresh.visible = true ∧ p.runRefresh.stopped = false := by
  unfold Polling.runRefresh
  split_ifs with hskip
  · exact Or.inl rfl
  · obtain ⟨hrunning, -, hshown⟩ : ¬p.stopped = true ∧ _ ∧ ¬¬p.visible = true := by
      simpa only [not_or] using hskip
    exact Or.inr ⟨not_not.mp hshown, Bool.eq_false_iff.mpr hrunning⟩

theorem refreshCompleted_kept (handle : ℕ) (completion : RefreshCompletion) (p : Polling) :
    (p.refreshCompleted handle completion).started = p.started ∧
      (p.refreshCompleted handle completion).stopped = p.stopped := by
  dsimp only [Polling.refreshCompleted]
  split_ifs
  · exact ⟨rfl, rfl⟩
  · exact schedule_kept handle _
  · exact schedule_kept handle _

theorem visibilityListener_stopped (p : Polling) : p.visibilityListener.stopped = p.stopped := by
  dsimp only [visibilityListener]
  split_ifs
  · rw [runRefresh_stopped, clearTimer_stopped]
  · exact clearTimer_stopped p

theorem visibilityListener_started (p : Polling) :
    p.visibilityListener.started = p.started ∨
      p.visibilityListener.visible = true ∧ p.visibilityListener.stopped = false := by
  dsimp only [visibilityListener]
  split_ifs
  · simpa using runRefresh_started p.clearTimer
  · exact Or.inl (clearTimer_started p)

theorem started_of_step (hstep : Step p q) :
    q.started = p.started ∨ q.visible = true ∧ q.stopped = false := by
  cases hstep with
  | timerFires harmed => exact runRefresh_started _
  | visibilityChanges visible =>
    dsimp only [Polling.visibilityChanged]
    split_ifs
    · exact visibilityListener_started _
    · exact Or.inl rfl
  | refreshCompletes houtstanding handle completion =>
    exact Or.inl (refreshCompleted_kept handle completion p).1
  | stops => exact Or.inl (clearTimer_started _)

theorem stopped_of_step (hstep : Step p q) (hstopped : p.stopped = true) : q.stopped = true := by
  cases hstep with
  | timerFires harmed => exact (runRefresh_stopped _).trans hstopped
  | visibilityChanges visible =>
    dsimp only [Polling.visibilityChanged]
    split_ifs
    · exact (visibilityListener_stopped _).trans hstopped
    · exact hstopped
  | refreshCompletes houtstanding handle completion =>
    exact (refreshCompleted_kept handle completion p).2.trans hstopped
  | stops => exact clearTimer_stopped _

/-- A stopped loop stays stopped and starts nothing any more. -/
theorem stopped_for_good (hstopped : p.stopped = true) (h : ReflTransGen Step p q) :
    q.stopped = true ∧ q.started = p.started := by
  -- A step that starts a refresh leaves a running loop, which no step from here is.
  apply RunHistory.invariant_of_steps (P := fun s => s.stopped = true ∧ s.started = p.started)
    ⟨hstopped, rfl⟩ _ h
  intro s t hs hstep
  have ht := stopped_of_step hstep hs.1
  rcases started_of_step hstep with hsame | hrunning
  · exact ⟨ht, hsame.trans hs.2⟩
  · rw [ht] at hrunning
    exact absurd hrunning.2 (by simp)

/-- Nothing waits on a hidden page or behind the stop. -/
theorem Sound.armed_eq_nil (h : p.Sound) (hover : p.visible = false ∨ p.stopped = true) :
    p.armed = [] := by
  have htimer : p.timer = none := by
    by_contra hne
    obtain ⟨-, hshown, hrunning⟩ := h.waiting hne
    simp [hshown, hrunning] at hover
  rw [h.timers, htimer]
  rfl

/-- The refresh in flight and the armed timer exclude each other. -/
theorem Sound.activity_le (h : p.Sound) : p.outstanding + p.armed.length ≤ 1 := by
  have harmed := congrArg List.length h.timers
  rw [h.flight, harmed, List.length_map]
  -- A timer that waits means that nothing is in flight, by the invariant.
  cases htimer : p.timer with
  | none => split_ifs <;> simp
  | some handle =>
    have hidle := (h.waiting (by simp [htimer])).1
    simp [hidle]

theorem Sound.activity_pos (h : p.Sound) (hrunning : p.stopped = false)
    (hshown : p.visible = true) : 0 < p.outstanding + p.armed.length := by
  have harmed := congrArg List.length h.timers
  rw [h.flight, harmed, List.length_map]
  rcases h.alive hrunning hshown with hflight | htimer
  · simp [hflight]
  · obtain ⟨handle, hhandle⟩ := Option.ne_none_iff_exists'.mp htimer
    simp [hhandle]

theorem Sound.delay (h : p.Sound) {timer : ArmedTimer} (hmem : timer ∈ p.armed) :
    timer.delayMilliseconds =
      min (5000 * 2 ^ min (failuresSinceSuccess p.completions) 4) 60000 := by
  rw [h.timers] at hmem
  obtain ⟨handle, hhandle, rfl⟩ := List.mem_map.mp hmem
  have hne : p.timer ≠ none := by
    intro hnone
    simp [hnone] at hhandle
  rw [← pollingDelayMilliseconds_natCast, ← h.counted (h.waiting hne).2.2]

end Polling

open Polling

/-- Polling never doubles, never stalls and stops for good. -/
theorem polling_runs {visible : Bool} {polling : Polling}
    (h : ReflTransGen Step (startVisibilityAwarePolling visible) polling) :
    (polling.outstanding ≤ 1 ∧ polling.armed.length ≤ 1 ∧
      ¬(0 < polling.outstanding ∧ 0 < polling.armed.length)) ∧
    (polling.stopped = false → polling.visible = true →
      polling.outstanding + polling.armed.length = 1) ∧
    (polling.visible = false → polling.armed = []) ∧
    (∀ next, Step polling next → next.visible = false → next.started = polling.started) ∧
    (∀ timer ∈ polling.armed, timer.delayMilliseconds =
      min (5000 * 2 ^ min (failuresSinceSuccess polling.completions) 4) 60000) ∧
    (polling.stopped = true → ∀ later, ReflTransGen Step polling later →
      later.armed = [] ∧ later.started = polling.started) := by
  have hsound := sound_of_reachable h
  have hle := hsound.activity_le
  refine ⟨⟨by omega, by omega, by omega⟩, ?_, ?_, ?_, fun timer => hsound.delay, ?_⟩
  · intro hrunning hshown
    have hpos := hsound.activity_pos hrunning hshown
    omega
  · exact fun hhidden => hsound.armed_eq_nil (Or.inl hhidden)
  · intro next hstep hhidden
    rcases started_of_step hstep with hsame | hshown
    · exact hsame
    · rw [hhidden] at hshown
      exact absurd hshown.1 (by simp)
  · intro hstopped later hrun
    obtain ⟨hstill, hsame⟩ := stopped_for_good hstopped hrun
    exact ⟨(sound_of_reachable (h.trans hrun)).armed_eq_nil (Or.inr hstill), hsame⟩

theorem polling_runs_after_failure :
    let polling := (startVisibilityAwarePolling true).refreshCompleted 7 .thrown
    polling.armed = [⟨7, 10000⟩] ∧ polling.outstanding + polling.armed.length = 1 := by
  have hrun : ReflTransGen Step (startVisibilityAwarePolling true)
      ((startVisibilityAwarePolling true).refreshCompleted 7 .thrown) :=
    ReflTransGen.single (Step.refreshCompletes (by decide) 7 .thrown)
  exact ⟨rfl, (polling_runs hrun).2.1 rfl rfl⟩

end Backbook.Browser
