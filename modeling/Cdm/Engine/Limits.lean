import Mathlib.Data.Fintype.Basic
import Mathlib.Logic.Function.Basic
import Cdm.Core.Domain
import Cdm.LTS.Basic

/-!
# The adaptive target rate

`AdaptiveRateController` halves the target's write rate for every control window in which the target
reported overload, and raises it again in small steps.  `RuntimeLimits.record_target_signal` feeds
it from every worker: the controller decides under its lock, and the rate it returns is stored into
the target limiter after the lock is released.  Between the two steps of one call any number of
other calls can run, so two stores can be made in the other order than their decisions.
-/

namespace Cdm

open Function

/-- What one target request told the controller. -/
inductive LoadSignal
  | ok
  | overload
  deriving DecidableEq, Repr

/-- The length of a control window, in nanoseconds. -/
def controlWindow : ℕ := 1000000000

/-- The additive increase, as a percentage of the ceiling. -/
def increasePercentOfCeiling : ℕ := 5

/-- What the rate is divided by on an overloaded window. -/
def decreaseDivisor : ℕ := 2

/-- The most windows one observation fast-forwards through. -/
def maxCatchupWindows : ℕ := 600

/-- The floor a ceiling and a percentage imply. -/
def floorFor (ceiling minPercent : ℕ) : ℕ :=
  if ceiling = 0 then 0
  else
    let floor := min u64Max (ceiling * min minPercent 100) / 100
    min (max (min floor u32Max) 1) ceiling

/-- The additive step a ceiling implies. -/
def stepFor (ceiling : ℕ) : ℕ :=
  if ceiling = 0 then 0 else max (min u32Max (ceiling / 100 * increasePercentOfCeiling)) 1

/-- The controller; `effective`, `windowStart` and `overloaded` are what its lock guards. -/
structure AdaptiveRateController where
  ceiling : ℕ
  floor : ℕ
  step : ℕ
  windowNanos : ℕ
  effective : ℕ
  windowStart : ℕ
  overloaded : Bool
  deriving DecidableEq, Repr

namespace AdaptiveRateController

def new (ceiling minPercent : ℕ) : AdaptiveRateController where
  ceiling := ceiling
  floor := floorFor ceiling minPercent
  step := stepFor ceiling
  windowNanos := controlWindow
  effective := ceiling
  windowStart := 0
  overloaded := false

/-- Whether the controller can change anything. -/
def isActive (c : AdaptiveRateController) : Bool := 0 < c.ceiling

/-- The rate in force. -/
def rate (c : AdaptiveRateController) : ℕ := c.effective

/-- Multiplicative decrease, floored. -/
def decrease (c : AdaptiveRateController) (rate : ℕ) : ℕ := max (rate / decreaseDivisor) c.floor

/-- One additive increase, capped at the ceiling. -/
def increase (c : AdaptiveRateController) (rate : ℕ) : ℕ :=
  min (min u32Max (rate + c.step)) c.ceiling

/-- `times` additive increases, capped at the ceiling. -/
def increaseBy (c : AdaptiveRateController) (rate times : ℕ) : ℕ :=
  min (min u32Max (rate + min u32Max (c.step * times))) c.ceiling

/-- Closes the control windows that have elapsed at `now` and records `signal`; the result is the
new rate, if it changed. -/
def roll (c : AdaptiveRateController) (signal : Option LoadSignal) (now : ℕ) :
    Option ℕ × AdaptiveRateController :=
  if !c.isActive then (none, c)
  else
    let elapsed := now - c.windowStart
    if elapsed < c.windowNanos then
      (none, { c with overloaded := c.overloaded || signal == some .overload })
    else
      let windows := min (elapsed / c.windowNanos) maxCatchupWindows
      let before := c.effective
      -- the window that just closed decides the first step, and the others were quiet
      let first := if c.overloaded then c.decrease before else c.increase before
      let rate := c.increaseBy first (min (windows - 1) u32Max)
      let windowStart :=
        if maxCatchupWindows ≤ windows then now
        else min u128Max (c.windowStart + min u128Max (windows * c.windowNanos))
      (if rate ≠ before then some rate else none,
        { c with
          effective := rate
          windowStart := windowStart
          overloaded := signal == some .overload })

/-- What an observation returns: the new rate, when it is a new one. -/
theorem roll_fst (c : AdaptiveRateController) (signal : Option LoadSignal) (now : ℕ) :
    (c.roll signal now).1 =
      if (c.roll signal now).2.rate ≠ c.rate then some (c.roll signal now).2.rate else none := by
  by_cases ha : c.isActive = true
  · by_cases he : now - c.windowStart < c.windowNanos
    · simp [roll, ha, he, rate]
    · simp [roll, ha, he, rate]
  · simp [roll, ha]

/-- An observation that returns a rate has put it in force. -/
theorem rate_of_roll_eq_some {c : AdaptiveRateController} {signal : Option LoadSignal}
    {now r : ℕ} (h : (c.roll signal now).1 = some r) : (c.roll signal now).2.rate = r := by
  rw [roll_fst] at h
  split_ifs at h
  exact Option.some_inj.1 h

/-- An observation that returns nothing leaves the rate as it was. -/
theorem rate_of_roll_eq_none {c : AdaptiveRateController} {signal : Option LoadSignal} {now : ℕ}
    (h : (c.roll signal now).1 = none) : (c.roll signal now).2.rate = c.rate := by
  rw [roll_fst] at h
  split_ifs at h with hr
  exact not_not.1 hr

end AdaptiveRateController

/-! ### Concurrent calls -/

/-- A rate the controller has decided, with the position of the decision among all of them. -/
structure Decision where
  number : ℕ
  rate : ℕ
  deriving DecidableEq, Repr

/-- The limits of a run, with the calls of `record_target_signal` that are under way.  The two
counts are not in the program: they say how many decisions there were and which of them the limiter
holds. -/
structure RuntimeLimits (ω : Type*) where
  adaptive : Option AdaptiveRateController
  /-- The rate of the target limiter. -/
  targetRate : ℕ
  /-- The decision a worker has been handed and not stored yet. -/
  pending : ω → Option Decision
  decided : ℕ
  applied : ℕ

/-- The two steps of a call. -/
inductive SignalStep (ω : Type*)
  /-- `worker` observes `signal` at `now`, under the controller's lock. -/
  | observe (worker : ω) (signal : LoadSignal) (now : ℕ)
  /-- `worker` stores the rate it was handed. -/
  | store (worker : ω)
  deriving DecidableEq, Repr

namespace RuntimeLimits

variable {ω : Type*} [DecidableEq ω]

/-- The limits of a run before any signal. -/
def new (adaptiveRatelimit : Bool) (targetRowsPerSecond minPercent : ℕ) : RuntimeLimits ω where
  adaptive :=
    if adaptiveRatelimit then some (AdaptiveRateController.new targetRowsPerSecond minPercent)
    else none
  targetRate := targetRowsPerSecond
  pending := fun _ => none
  decided := 0
  applied := 0

/-- The decision of a call: `observe` under the lock. -/
def observe (s : RuntimeLimits ω) (worker : ω) (signal : LoadSignal) (now : ℕ) :
    RuntimeLimits ω :=
  match s.adaptive with
  | none => s
  | some controller =>
    let result := controller.roll (some signal) now
    match result.1 with
    | none => { s with adaptive := some result.2 }
    | some rate =>
      { s with
        adaptive := some result.2
        pending := Function.update s.pending worker (some ⟨s.decided + 1, rate⟩)
        decided := s.decided + 1 }

/-- The store of a call: `set_rows_per_second` of what was decided. -/
def store (s : RuntimeLimits ω) (worker : ω) (decision : Decision) : RuntimeLimits ω :=
  { s with
    targetRate := decision.rate
    pending := Function.update s.pending worker none
    applied := decision.number }

/-- The calls of any number of workers, each making one call at a time. -/
def calls : LTS (RuntimeLimits ω) (SignalStep ω) where
  step s
    | .observe worker signal now =>
      match s.pending worker with
      | none => some (s.observe worker signal now)
      | some _ => none
    | .store worker => (s.pending worker).map (s.store worker)

/-- No call is under way. -/
def Finished (s : RuntimeLimits ω) : Prop := ∀ worker, s.pending worker = none

instance [Fintype ω] (s : RuntimeLimits ω) : Decidable s.Finished :=
  inferInstanceAs (Decidable (∀ worker, s.pending worker = none))

/-- The step does not store a rate over one that was decided later. -/
def NotStale (s : RuntimeLimits ω) : SignalStep ω → Prop
  | .observe .. => True
  | .store worker => ∀ decision ∈ s.pending worker, s.applied < decision.number

instance (s : RuntimeLimits ω) : (l : SignalStep ω) → Decidable (s.NotStale l)
  | .observe .. => .isTrue trivial
  | .store worker =>
    inferInstanceAs (Decidable (∀ decision ∈ s.pending worker, s.applied < decision.number))

/-- The limiter follows the controller. -/
def Follows (s : RuntimeLimits ω) : Prop := ∀ controller ∈ s.adaptive, s.targetRate = controller.rate

/-! ### Stores in order -/

/-- What holds while no store has replaced a later decision: every decision after the one in force
is still to be stored, and the last one is the controller's rate. -/
structure Ordered (s : RuntimeLimits ω) : Prop where
  applied_le : s.applied ≤ s.decided
  outstanding : ∀ n, s.applied < n → n ≤ s.decided → ∃ worker rate,
    s.pending worker = some ⟨n, rate⟩
  number_le : ∀ worker decision, s.pending worker = some decision → decision.number ≤ s.decided
  latest : ∀ worker decision, s.pending worker = some decision → decision.number = s.decided →
    ∀ controller ∈ s.adaptive, decision.rate = controller.rate
  settled : s.applied = s.decided → s.Follows

omit [DecidableEq ω] in
theorem Ordered.new (adaptiveRatelimit : Bool) (targetRowsPerSecond minPercent : ℕ) :
    (RuntimeLimits.new adaptiveRatelimit targetRowsPerSecond minPercent : RuntimeLimits ω).Ordered := by
  refine ⟨le_rfl, ?_, ?_, ?_, ?_⟩
  · intro n h₁ h₂
    exact absurd (h₁.trans_le h₂) (lt_irrefl _)
  · intro worker decision h
    cases h
  · intro worker decision h
    cases h
  · intro _ controller hc
    unfold RuntimeLimits.new at hc
    simp only [Option.mem_def] at hc
    split_ifs at hc
    cases hc
    rfl

/-- What a decision changes. -/
theorem observe_cases (s : RuntimeLimits ω) (worker : ω) (signal : LoadSignal) (now : ℕ) :
    (s.adaptive = none ∧ s.observe worker signal now = s) ∨
      ∃ controller after, s.adaptive = some controller ∧
        ((after.rate = controller.rate ∧
          s.observe worker signal now = { s with adaptive := some after }) ∨
        s.observe worker signal now =
          { s with
            adaptive := some after
            pending := Function.update s.pending worker (some ⟨s.decided + 1, after.rate⟩)
            decided := s.decided + 1 }) := by
  unfold observe
  cases hc : s.adaptive with
  | none => exact Or.inl ⟨rfl, rfl⟩
  | some controller =>
    refine Or.inr ⟨controller, (controller.roll (some signal) now).2, rfl, ?_⟩
    simp only
    cases hr : (controller.roll (some signal) now).1 with
    | none => exact Or.inl ⟨AdaptiveRateController.rate_of_roll_eq_none hr, rfl⟩
    | some rate =>
      refine Or.inr ?_
      rw [AdaptiveRateController.rate_of_roll_eq_some hr]

theorem Ordered.observe {s : RuntimeLimits ω} (h : s.Ordered) {worker : ω} (signal : LoadSignal)
    (now : ℕ) (hidle : s.pending worker = none) : (s.observe worker signal now).Ordered := by
  obtain ⟨-, heq⟩ | ⟨controller, after, hc, ⟨hrate, heq⟩ | heq⟩ :=
    s.observe_cases worker signal now
  · rw [heq]
    exact h
  · -- the rate stays, so what was known of the old controller holds of the new one
    have hsame : ∀ r, (∀ c ∈ s.adaptive, r = c.rate) → ∀ c ∈ some after, r = c.rate := by
      intro r hr c hmem
      cases hmem
      rw [hrate]
      exact hr controller hc
    rw [heq]
    exact ⟨h.applied_le, h.outstanding, h.number_le,
      fun w d hd hn => hsame _ (h.latest w d hd hn), fun ha => hsame _ (h.settled ha)⟩
  · rw [heq]
    refine ⟨h.applied_le.trans (Nat.le_succ _), ?_, ?_, ?_, ?_⟩
    · intro n h₁ h₂
      rcases Nat.le_succ_iff.1 h₂ with hle | rfl
      · obtain ⟨w, r, hw⟩ := h.outstanding n h₁ hle
        refine ⟨w, r, ?_⟩
        have hne : w ≠ worker := by
          rintro rfl
          rw [hidle] at hw
          cases hw
        exact (update_of_ne hne _ _).trans hw
      · exact ⟨worker, after.rate, update_self ..⟩
    · intro w d hd
      by_cases hw : w = worker
      · subst hw
        cases (update_self w _ s.pending).symm.trans hd
        exact le_rfl
      · exact (h.number_le w d ((update_of_ne hw _ _).symm.trans hd)).trans
          (Nat.le_succ _)
    · intro w d hd hn c hmem
      cases hmem
      by_cases hw : w = worker
      · subst hw
        cases (update_self w _ s.pending).symm.trans hd
        rfl
      · have hle := h.number_le w d ((update_of_ne hw _ _).symm.trans hd)
        exact absurd (hn.symm.trans_le hle) (Nat.not_succ_le_self _)
    · intro ha
      exact absurd (ha.symm.trans_le h.applied_le) (Nat.not_succ_le_self _)

theorem Ordered.store {s : RuntimeLimits ω} (h : s.Ordered) {worker : ω} {decision : Decision}
    (hd : s.pending worker = some decision) (hlt : s.applied < decision.number) :
    (s.store worker decision).Ordered := by
  refine ⟨h.number_le worker decision hd, ?_, ?_, ?_, ?_⟩
  · intro n h₁ h₂
    obtain ⟨w, r, hw⟩ := h.outstanding n (hlt.trans h₁) h₂
    refine ⟨w, r, ?_⟩
    have hne : w ≠ worker := by
      rintro rfl
      rw [hd] at hw
      cases hw
      exact lt_irrefl _ h₁
    exact (update_of_ne hne _ _).trans hw
  · intro w d hw
    by_cases hww : w = worker
    · subst hww
      cases (update_self w _ s.pending).symm.trans hw
    · exact h.number_le w d ((update_of_ne hww _ _).symm.trans hw)
  · intro w d hw
    by_cases hww : w = worker
    · subst hww
      cases (update_self w _ s.pending).symm.trans hw
    · exact h.latest w d ((update_of_ne hww _ _).symm.trans hw)
  · intro ha
    exact h.latest worker decision hd ha

theorem Ordered.step {s s' : RuntimeLimits ω} {l : SignalStep ω} (h : s.Ordered)
    (hG : s.NotStale l) (hs : calls.step s l = some s') : s'.Ordered := by
  cases l with
  | observe worker signal now =>
    simp only [calls] at hs
    cases hp : s.pending worker with
    | none =>
      rw [hp] at hs
      cases hs
      exact h.observe signal now hp
    | some d =>
      rw [hp] at hs
      cases hs
  | store worker =>
    obtain ⟨decision, hd, rfl⟩ := Option.map_eq_some_iff.1 hs
    exact h.store hd (hG decision hd)

omit [DecidableEq ω] in
/-- With no call under way the last decision is the one in force. -/
theorem Ordered.follows {s : RuntimeLimits ω} (h : s.Ordered) (hdone : s.Finished) : s.Follows := by
  apply h.settled
  by_contra hne
  obtain ⟨worker, rate, hw⟩ :=
    h.outstanding s.decided (lt_of_le_of_ne h.applied_le hne) le_rfl
  rw [hdone worker] at hw
  cases hw

/-- **The limiter follows the controller** in every run in which no store replaces a decision made
later: whenever no call is under way, the target limiter's rate is the controller's. -/
theorem targetRate_eq_rate {adaptiveRatelimit : Bool} {targetRowsPerSecond minPercent : ℕ}
    {ls : List (SignalStep ω)} {s : RuntimeLimits ω}
    (h : calls.exec (new adaptiveRatelimit targetRowsPerSecond minPercent) ls = some s)
    (hG : calls.Along NotStale (new adaptiveRatelimit targetRowsPerSecond minPercent) ls)
    (hdone : s.Finished) : s.Follows := by
  have hordered : s.Ordered := by
    refine LTS.exec_invariant_along h hG (Ordered.new ..) ?_
    intro s l s' hs hl hstep
    exact hs.step hl hstep
  exact hordered.follows hdone

/-! ### Two workers -/

namespace TwoWorkers

/-- One worker halves the rate and the other, a window later, restores it; both have yet to
store. -/
def decisions : List (SignalStep (Fin 2)) :=
  [.observe ⟨0, Nat.two_pos⟩ .overload 0, .observe ⟨0, Nat.two_pos⟩ .ok controlWindow,
    .observe ⟨1, Nat.one_lt_two⟩ .ok (2 * controlWindow)]

/-- Stored in the order of the decisions, the limiter ends at the controller's rate. -/
theorem follows_in_order : ∃ s, calls.exec (new true 2 50) (decisions ++ [SignalStep.store 0, .store 1]) =
    some s ∧ s.Finished ∧ s.Follows := by
  have hexec : calls.exec (new true 2 50) (decisions ++ [SignalStep.store 0, .store 1]) = some _ := rfl
  exact ⟨_, hexec, by decide, targetRate_eq_rate hexec (by decide) (by decide)⟩

/-- Stored the other way round, the limiter keeps the halved rate while the controller is back at
its ceiling. -/
theorem not_follows_reordered :
    ¬ ∀ (adaptiveRatelimit : Bool) (targetRowsPerSecond minPercent : ℕ)
      (ls : List (SignalStep (Fin 2))) (s : RuntimeLimits (Fin 2)),
      calls.exec (new adaptiveRatelimit targetRowsPerSecond minPercent) ls = some s →
        s.Finished → s.Follows := by
  intro h
  have := h true 2 50 (decisions ++ [SignalStep.store 1, .store 0]) _ rfl (by decide) _ rfl
  revert this
  decide

end TwoWorkers

end RuntimeLimits

end Cdm
