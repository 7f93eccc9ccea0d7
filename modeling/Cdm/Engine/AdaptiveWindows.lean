import Cdm.Engine.Limits
import Cdm.LTS.Machine

/-!
# Control windows one at a time

An observation of `AdaptiveRateController` closes every control window that has elapsed since the
last one in one step.  Here the rate is what comes of closing the windows one after the other: each
halves the rate if an overload was recorded in it, and raises it by a step otherwise.
-/

namespace Cdm

open List

/-- An observation of a signal, or a tick without one, at a time of the clock. -/
structure ControlEvent where
  signal : Option LoadSignal
  now : ℕ
  now_le : now ≤ u128Max

namespace AdaptiveRateController

/-- The window that an event is in. -/
def windowOf (event : ControlEvent) : ℕ := event.now / controlWindow

/-- The controller, with the rates that its observations return. -/
def observations : Machine AdaptiveRateController ControlEvent (Option ℕ) where
  step c event := ((c.roll event.signal event.now).2, (c.roll event.signal event.now).1)

/-! ### The windows one at a time -/

/-- Whether an overload was recorded in a window. -/
def overloadIn (events : List ControlEvent) (window : ℕ) : Bool :=
  events.any fun event => event.signal == some .overload && windowOf event == window

/-- The rate after so many windows. -/
def rateAfter (ceiling floor step : ℕ) (events : List ControlEvent) : ℕ → ℕ
  | 0 => ceiling
  | windows + 1 =>
    let rate := rateAfter ceiling floor step events windows
    if overloadIn events windows then max (rate / 2) floor else min (rate + step) ceiling

/-- The time of the last event. -/
def lastTime (events : List ControlEvent) : ℕ := (events.getLast?.map ControlEvent.now).getD 0

/-- Events in order, with fewer than 600 windows ending between one and the next.  The controller
begins at the time 0. -/
def InStep (events : List ControlEvent) : Prop :=
  (0 :: events.map ControlEvent.now).IsChain fun now next =>
    now ≤ next ∧ next / controlWindow < now / controlWindow + maxCatchupWindows

instance (events : List ControlEvent) : Decidable (InStep events) :=
  inferInstanceAs (Decidable (List.IsChain _ _))

section Windows

variable {ceiling floor step : ℕ} {events : List ControlEvent}

theorem overloadIn_append (events next : List ControlEvent) (window : ℕ) :
    overloadIn (events ++ next) window = (overloadIn events window || overloadIn next window) :=
  any_append

/-- No overload is recorded in the windows behind the events. -/
theorem overloadIn_of_lt {window : ℕ} (h : ∀ event ∈ events, windowOf event < window) :
    overloadIn events window = false := by
  rw [overloadIn, any_eq_false]
  intro event hevent
  have hlt := h event hevent
  simp [hlt.ne]

theorem overloadIn_of_gt {window : ℕ} (h : ∀ event ∈ events, window < windowOf event) :
    overloadIn events window = false := by
  rw [overloadIn, any_eq_false]
  intro event hevent
  have hlt := h event hevent
  simp [hlt.ne']

/-- What is recorded from a window on does not matter before it. -/
theorem rateAfter_append {next : List ControlEvent} {windows : ℕ}
    (h : ∀ event ∈ next, windows ≤ windowOf event) :
    rateAfter ceiling floor step (events ++ next) windows =
      rateAfter ceiling floor step events windows := by
  induction windows with
  | zero => rfl
  | succ windows ih =>
    have hnext : overloadIn next windows = false :=
      overloadIn_of_gt fun event hevent => h event hevent
    rw [rateAfter, rateAfter, ih fun event hevent => (Nat.le_succ _).trans (h event hevent),
      overloadIn_append, hnext, Bool.or_false]

theorem rateAfter_le (hfloor : floor ≤ ceiling) (events : List ControlEvent) (windows : ℕ) :
    rateAfter ceiling floor step events windows ≤ ceiling := by
  induction windows with
  | zero => exact le_rfl
  | succ windows ih =>
    rw [rateAfter]
    split_ifs <;> omega

/-- Quiet windows raise the rate by a step each. -/
theorem rateAfter_add (step : ℕ) (hfloor : floor ≤ ceiling) {windows : ℕ}
    (h : ∀ event ∈ events, windowOf event < windows) (quiet : ℕ) :
    rateAfter ceiling floor step events (windows + quiet) =
      min (rateAfter ceiling floor step events windows + step * quiet) ceiling := by
  induction quiet with
  | zero =>
    have hle : rateAfter ceiling floor step events windows ≤ ceiling :=
      rateAfter_le hfloor events windows
    rw [Nat.mul_zero, Nat.add_zero, Nat.add_zero, min_eq_left hle]
  | succ quiet ih =>
    have hquiet : overloadIn events (windows + quiet) = false :=
      overloadIn_of_lt fun event hevent => (h event hevent).trans_le (Nat.le_add_right _ _)
    rw [← Nat.add_assoc, rateAfter, hquiet, ih, if_neg Bool.false_ne_true, Nat.mul_succ]
    omega

end Windows

/-! ### One observation -/

theorem floorFor_bounds {ceiling : ℕ} (hpos : 0 < ceiling) (minPercent : ℕ) :
    1 ≤ floorFor ceiling minPercent ∧ floorFor ceiling minPercent ≤ ceiling := by
  rw [floorFor, if_neg hpos.ne']
  dsimp only
  omega

/-- Within the open window an observation only remembers an overload. -/
theorem roll_of_lt {c : AdaptiveRateController} (hactive : 0 < c.ceiling) {now : ℕ}
    (h : now - c.windowStart < c.windowNanos) (signal : Option LoadSignal) :
    (c.roll signal now).2 = { c with overloaded := c.overloaded || signal == some .overload } := by
  simp [roll, isActive, hactive, h]

/-- The rate behind the windows that an observation closes. -/
def closed (c : AdaptiveRateController) (windows : ℕ) : ℕ :=
  c.increaseBy (if c.overloaded then c.decrease c.effective else c.increase c.effective)
    (min (windows - 1) u32Max)

/-- Behind the open window an observation closes it, and the quiet ones behind it. -/
theorem roll_of_le {c : AdaptiveRateController} (hactive : 0 < c.ceiling) {now : ℕ}
    (h : c.windowNanos ≤ now - c.windowStart) (signal : Option LoadSignal) :
    (c.roll signal now).2 =
      { c with
        effective := c.closed (min ((now - c.windowStart) / c.windowNanos) maxCatchupWindows)
        windowStart :=
          if maxCatchupWindows ≤ min ((now - c.windowStart) / c.windowNanos) maxCatchupWindows
          then now
          else min u128Max (c.windowStart + min u128Max
            (min ((now - c.windowStart) / c.windowNanos) maxCatchupWindows * c.windowNanos))
        overloaded := signal == some .overload } := by
  simp [roll, closed, isActive, hactive, not_lt.2 h]

/-- The controller has its settings, and its rate is within its bounds. -/
structure Bounded (ceiling minPercent : ℕ) (c : AdaptiveRateController) : Prop where
  ceiling_eq : c.ceiling = ceiling
  floor_eq : c.floor = floorFor ceiling minPercent
  step_eq : c.step = stepFor ceiling
  windowNanos_eq : c.windowNanos = controlWindow
  floor_le : floorFor ceiling minPercent ≤ c.effective
  le_ceiling : c.effective ≤ ceiling

section Bounded

variable {ceiling minPercent : ℕ} {c : AdaptiveRateController}

theorem Bounded.new (hpos : 0 < ceiling) (minPercent : ℕ) :
    Bounded ceiling minPercent (new ceiling minPercent) :=
  ⟨rfl, rfl, rfl, rfl, (floorFor_bounds hpos minPercent).2, le_rfl⟩

/-- What closing windows makes of the rate, without the bounds of the machine type. -/
theorem Bounded.closed_eq (h : Bounded ceiling minPercent c) (hmax : ceiling ≤ u32Max)
    {windows : ℕ} (hwindows : windows - 1 ≤ u32Max) : c.closed windows =
      min ((if c.overloaded then max (c.effective / 2) (floorFor ceiling minPercent)
        else min (c.effective + stepFor ceiling) ceiling) + stepFor ceiling * (windows - 1))
        ceiling := by
  rw [closed, increaseBy, decrease, increase, h.ceiling_eq, h.floor_eq, h.step_eq, decreaseDivisor,
    min_eq_left hwindows]
  split_ifs <;> omega

theorem Bounded.closed_bounds (h : Bounded ceiling minPercent c) (hmax : ceiling ≤ u32Max)
    (windows : ℕ) :
    floorFor ceiling minPercent ≤ c.closed windows ∧ c.closed windows ≤ ceiling := by
  have hfloor := h.floor_le.trans h.le_ceiling
  have hle := h.floor_le
  rw [closed, increaseBy, decrease, increase, h.ceiling_eq, h.floor_eq]
  split_ifs <;> omega

theorem Bounded.roll (h : Bounded ceiling minPercent c) (hpos : 0 < ceiling)
    (hmax : ceiling ≤ u32Max) (signal : Option LoadSignal) (now : ℕ) :
    Bounded ceiling minPercent (c.roll signal now).2 := by
  have hactive : 0 < c.ceiling := h.ceiling_eq.symm ▸ hpos
  rcases lt_or_ge (now - c.windowStart) c.windowNanos with hlt | hle
  · rw [roll_of_lt hactive hlt]
    exact ⟨h.ceiling_eq, h.floor_eq, h.step_eq, h.windowNanos_eq, h.floor_le, h.le_ceiling⟩
  · obtain ⟨hfloor, hceiling⟩ := h.closed_bounds hmax
      (min ((now - c.windowStart) / c.windowNanos) maxCatchupWindows)
    rw [roll_of_le hactive hle]
    exact ⟨h.ceiling_eq, h.floor_eq, h.step_eq, h.windowNanos_eq, hfloor, hceiling⟩

end Bounded

/-! ### The controller follows the windows -/

/-- After the events of the past, the last one at `last`, the controller is at the window of that
time with the rate of the windows before it. -/
structure Follows (ceiling minPercent : ℕ) (past : List ControlEvent) (last : ℕ)
    (c : AdaptiveRateController) : Prop extends Bounded ceiling minPercent c where
  windowStart_eq : c.windowStart = controlWindow * (last / controlWindow)
  effective_eq : c.effective = rateAfter ceiling (floorFor ceiling minPercent) (stepFor ceiling)
    past (last / controlWindow)
  overloaded_eq : c.overloaded = overloadIn past (last / controlWindow)
  windowOf_le : ∀ event ∈ past, windowOf event ≤ last / controlWindow

section Follows

variable {ceiling minPercent : ℕ} {past : List ControlEvent} {last : ℕ} {c : AdaptiveRateController}

theorem Follows.new (hpos : 0 < ceiling) (minPercent : ℕ) :
    Follows ceiling minPercent [] 0 (new ceiling minPercent) :=
  ⟨Bounded.new hpos minPercent, rfl, rfl, rfl, nofun⟩

theorem windowOf_append_le {event : ControlEvent} (h : ∀ e ∈ past, windowOf e ≤ last / controlWindow)
    (hlast : last ≤ event.now) : ∀ e ∈ past ++ [event], windowOf e ≤ event.now / controlWindow := by
  intro e he
  rcases mem_append.1 he with he | he
  · exact (h e he).trans (Nat.div_le_div_right hlast)
  · rw [mem_singleton.1 he]
    exact le_rfl

/-- The rate before a window does not depend on an event in it. -/
theorem rateAfter_append_windowOf (event : ControlEvent) (floor step : ℕ) :
    rateAfter ceiling floor step (past ++ [event]) (windowOf event) =
      rateAfter ceiling floor step past (windowOf event) :=
  rateAfter_append fun e he => by rw [mem_singleton.1 he]

variable (h : Follows ceiling minPercent past last c) (hpos : 0 < ceiling)
  (hmax : ceiling ≤ u32Max)

include h hpos hmax

/-- One event more in the open window. -/
theorem Follows.roll_inside {event : ControlEvent} (hlast : last ≤ event.now)
    (hsame : last / controlWindow = windowOf event) :
    Follows ceiling minPercent (past ++ [event]) event.now
      (c.roll event.signal event.now).2 := by
  have hactive : 0 < c.ceiling := h.ceiling_eq.symm ▸ hpos
  have hbounded := h.toBounded.roll hpos hmax event.signal event.now
  have hself : event.now / controlWindow = windowOf event := rfl
  have hinside : event.now - c.windowStart < c.windowNanos := by
    have hdiv := Nat.div_add_mod event.now controlWindow
    have hmod := Nat.mod_lt event.now (show 0 < controlWindow by decide)
    rw [h.windowStart_eq, h.windowNanos_eq, hsame, ← hself]
    omega
  rw [roll_of_lt hactive hinside] at hbounded ⊢
  refine ⟨hbounded, ?_, ?_, ?_, windowOf_append_le h.windowOf_le hlast⟩
  · rw [h.windowStart_eq, hself, hsame]
  · rw [h.effective_eq, hself, rateAfter_append_windowOf, hsame]
  · rw [h.overloaded_eq, hself, overloadIn_append, hsame]
    simp [overloadIn]

/-- What closing the open window and the quiet ones behind it makes of the rate. -/
theorem Follows.closed_eq_rateAfter {window : ℕ} (hnext : last / controlWindow < window)
    (hfew : window - last / controlWindow - 1 ≤ u32Max) :
    c.closed (window - last / controlWindow) =
      rateAfter ceiling (floorFor ceiling minPercent) (stepFor ceiling) past window := by
  have hopen : rateAfter ceiling (floorFor ceiling minPercent) (stepFor ceiling) past
      (last / controlWindow + 1) = if c.overloaded then
        max (c.effective / 2) (floorFor ceiling minPercent)
      else min (c.effective + stepFor ceiling) ceiling := by
    rw [rateAfter, h.overloaded_eq, h.effective_eq]
  have hquiet := rateAfter_add (stepFor ceiling) (floorFor_bounds hpos minPercent).2
    (fun e he => Nat.lt_succ_of_le (h.windowOf_le e he)) (window - last / controlWindow - 1)
  have hsum : last / controlWindow + 1 + (window - last / controlWindow - 1) = window := by omega
  rw [hsum, hopen] at hquiet
  rw [hquiet]
  exact h.closed_eq hmax hfew

/-- One event more behind the open window. -/
theorem Follows.roll_behind {event : ControlEvent} (hlast : last ≤ event.now)
    (hnext : last / controlWindow < windowOf event)
    (hstep : windowOf event < last / controlWindow + maxCatchupWindows) :
    Follows ceiling minPercent (past ++ [event]) event.now
      (c.roll event.signal event.now).2 := by
  have hactive : 0 < c.ceiling := h.ceiling_eq.symm ▸ hpos
  have hbounded := h.toBounded.roll hpos hmax event.signal event.now
  have hself : event.now / controlWindow = windowOf event := rfl
  have hwindows : (event.now - c.windowStart) / c.windowNanos =
      windowOf event - last / controlWindow := by
    rw [h.windowStart_eq, h.windowNanos_eq, Nat.sub_mul_div, hself]
  have houtside : c.windowNanos ≤ event.now - c.windowStart := by
    refine (Nat.one_le_div_iff (h.windowNanos_eq.symm ▸ by decide)).1 ?_
    omega
  have hcatchup : maxCatchupWindows = 600 := rfl
  have hmin : min (windowOf event - last / controlWindow) maxCatchupWindows =
      windowOf event - last / controlWindow := min_eq_left (by omega)
  -- fewer windows than the limit have ended, so that the start moves by whole windows
  rw [roll_of_le hactive houtside, hwindows, hmin, if_neg (by omega)] at hbounded ⊢
  refine ⟨hbounded, ?_, ?_, ?_, windowOf_append_le h.windowOf_le hlast⟩
  · have hnow : c.windowStart + (windowOf event - last / controlWindow) * c.windowNanos =
        controlWindow * windowOf event := by
      rw [h.windowStart_eq, h.windowNanos_eq, Nat.mul_comm _ controlWindow, ← Nat.mul_add,
        Nat.add_sub_cancel' hnext.le]
    have hle := event.now_le
    have hdiv := Nat.div_add_mod event.now controlWindow
    rw [hself] at hdiv ⊢
    dsimp only
    omega
  · have hfew : windowOf event - last / controlWindow - 1 ≤ u32Max := by
      simp only [u32Max]
      omega
    rw [hself, rateAfter_append_windowOf]
    exact h.closed_eq_rateAfter hpos hmax hnext hfew
  · have hnone : overloadIn past (windowOf event) = false :=
      overloadIn_of_lt fun e he => (h.windowOf_le e he).trans_lt hnext
    rw [hself, overloadIn_append, hnone, Bool.false_or]
    simp [overloadIn]

/-- One event more. -/
theorem Follows.roll {event : ControlEvent} (hlast : last ≤ event.now)
    (hstep : windowOf event < last / controlWindow + maxCatchupWindows) :
    Follows ceiling minPercent (past ++ [event]) event.now
      (c.roll event.signal event.now).2 := by
  have hmono : last / controlWindow ≤ windowOf event := Nat.div_le_div_right hlast
  rcases hmono.eq_or_lt with hsame | hnext
  · exact h.roll_inside hpos hmax hlast hsame
  · exact h.roll_behind hpos hmax hlast hnext hstep

end Follows

/-! ### Runs -/

theorem bounded_run {ceiling : ℕ} (hpos : 0 < ceiling) (hmax : ceiling ≤ u32Max) (minPercent : ℕ)
    (events : List ControlEvent) :
    Bounded ceiling minPercent (observations.run (new ceiling minPercent) events) :=
  Machine.run_invariant (fun _ event _ h => h.roll hpos hmax event.signal event.now)
    (Bounded.new hpos minPercent)

theorem getD_getLast?_cons (event : ControlEvent) (events : List ControlEvent) (last : ℕ) :
    ((event :: events).getLast?.map ControlEvent.now).getD last =
      (events.getLast?.map ControlEvent.now).getD event.now := by
  rw [getLast?_cons]
  cases events.getLast? <;> rfl

theorem follows_run {ceiling minPercent : ℕ} (hpos : 0 < ceiling) (hmax : ceiling ≤ u32Max)
    {past events : List ControlEvent} {last : ℕ} {c : AdaptiveRateController}
    (h : Follows ceiling minPercent past last c)
    (hevents : (last :: events.map ControlEvent.now).IsChain fun now next =>
      now ≤ next ∧ next / controlWindow < now / controlWindow + maxCatchupWindows) :
    Follows ceiling minPercent (past ++ events)
      ((events.getLast?.map ControlEvent.now).getD last) (observations.run c events) := by
  induction events generalizing past last c with
  | nil => rwa [append_nil]
  | cons event events ih =>
    rw [map_cons, isChain_cons_cons] at hevents
    have hnext := ih (h.roll hpos hmax hevents.1.1 hevents.1.2) hevents.2
    rw [append_assoc, singleton_append] at hnext
    rwa [getD_getLast?_cons]

/-- **The controller closes windows one at a time.**  Its rate is within its bounds, and where fewer
than 600 windows end between two events it is that of the windows before the last event. -/
theorem rate_eq_rateAfter {ceiling : ℕ} (hpos : 0 < ceiling) (hmax : ceiling ≤ u32Max)
    (minPercent : ℕ) (events : List ControlEvent) :
    (floorFor ceiling minPercent ≤ (observations.run (new ceiling minPercent) events).rate ∧
        (observations.run (new ceiling minPercent) events).rate ≤ ceiling) ∧
      (InStep events → (observations.run (new ceiling minPercent) events).rate =
        rateAfter ceiling (floorFor ceiling minPercent) (stepFor ceiling) events
          (lastTime events / controlWindow)) := by
  have hbounded := bounded_run hpos hmax minPercent events
  refine ⟨⟨hbounded.floor_le, hbounded.le_ceiling⟩, fun hevents => ?_⟩
  exact (follows_run hpos hmax (Follows.new hpos minPercent) hevents).effective_eq

section Sample

/-- A tick, an overload half a window behind the 600th one, and a tick in the next window. -/
def gap : List ControlEvent :=
  [⟨none, 900000000, by decide⟩, ⟨some .overload, 600500000000, by decide⟩,
    ⟨none, 601200000000, by decide⟩]

/-- An overload in the third window, and a tick behind it. -/
theorem rate_eq_rateAfter_halved :
    (observations.run (new 10000 10) [⟨some .overload, 2500000000, by decide⟩,
      ⟨none, 3000000000, by decide⟩]).rate =
      rateAfter 10000 (floorFor 10000 10) (stepFor 10000) [⟨some .overload, 2500000000, by decide⟩,
        ⟨none, 3000000000, by decide⟩] 3 :=
  (rate_eq_rateAfter (by decide) (by decide) 10 _).2 (by decide)

/-- The gap is shorter than 600 windows, and the controller begins a window anew in the middle of
one. -/
theorem not_rate_eq_rateAfter :
    (gap.map ControlEvent.now).IsChain
        (fun now next => now ≤ next ∧ next - now < maxCatchupWindows * controlWindow) ∧
      (observations.run (new 10000 10) gap).rate = 10000 ∧
      rateAfter 10000 (floorFor 10000 10) (stepFor 10000) gap (lastTime gap / controlWindow) =
        5000 := by
  refine ⟨by decide, by decide, by set_option maxRecDepth 30000 in decide⟩

end Sample

end AdaptiveRateController

end Cdm
