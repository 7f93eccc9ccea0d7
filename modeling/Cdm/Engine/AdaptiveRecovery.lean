import Mathlib.Data.List.Chain
import Cdm.Engine.AdaptiveWindows

/-!
# Recovery

In a quiet window the rate rises by a step, and the documentation of the step promises a full
recovery from the floor in twenty windows.  The step is five times the hundredth part of the
ceiling, and the hundredth part is rounded down before it is multiplied: what is left of the ceiling
behind the last full hundred is never made good, unless the floor covers it.

A gap in the observations is closed in one step, of at most 600 windows.  That is as good as all of
them, because 600 steps exceed any ceiling.
-/

namespace Cdm

namespace AdaptiveRateController

/-- Observations without an overload, in order, from a time on. -/
structure Quiet (start : ℕ) (events : List ControlEvent) : Prop where
  signal : ∀ event ∈ events, event.signal ≠ some .overload
  order : (start :: events.map ControlEvent.now).IsChain (· ≤ ·)

/-- How many windows end, from the start of the open one to the last event. -/
def windowsEnded (c : AdaptiveRateController) (events : List ControlEvent) : ℕ :=
  ((events.getLast?.map ControlEvent.now).getD c.windowStart - c.windowStart) / controlWindow

/-- From every rate within the bounds, twenty quiet windows bring the rate back to the ceiling. -/
def Recovers (ceiling minPercent : ℕ) : Prop :=
  ∀ c, Bounded ceiling minPercent c → c.overloaded = false →
    ∀ events, Quiet c.windowStart events → 20 ≤ c.windowsEnded events →
      (observations.run c events).rate = ceiling

/-! ### Steps -/

theorem stepFor_eq {ceiling : ℕ} (hpos : 0 < ceiling) (hmax : ceiling ≤ u32Max) :
    stepFor ceiling = max (5 * (ceiling / 100)) 1 := by
  rw [stepFor, if_neg hpos.ne', increasePercentOfCeiling]
  omega

/-- As many steps as one observation catches up with exceed the ceiling. -/
theorem le_stepFor_mul_maxCatchupWindows {ceiling : ℕ} (hpos : 0 < ceiling)
    (hmax : ceiling ≤ u32Max) : ceiling ≤ stepFor ceiling * maxCatchupWindows := by
  rw [stepFor_eq hpos hmax, maxCatchupWindows]
  omega

/-! ### Quiet windows -/

/-- The start of the open window stays within the type of the clock. -/
theorem saturating_windowStart {bound start before after now : ℕ} (hle : before ≤ after)
    (hafter : after ≤ now - start) (hstart : start ≤ now) (hnow : now ≤ bound) :
    min bound (start + before + min bound (after - before)) = start + after := by
  omega

/-- Between the time `start` and the time `last` the rate has risen by a step for each window.  A
controller at its ceiling may be in the middle of a window. -/
structure Rising (ceiling minPercent rate start last : ℕ) (c : AdaptiveRateController) : Prop
    extends Bounded ceiling minPercent c where
  quiet : c.overloaded = false
  effective_eq :
    c.effective = min (rate + stepFor ceiling * ((last - start) / controlWindow)) ceiling
  windowStart_eq : c.effective = ceiling ∨
    c.windowStart = start + controlWindow * ((last - start) / controlWindow)

section Rising

variable {ceiling minPercent rate start last : ℕ} {c : AdaptiveRateController}

theorem Rising.of_bounded (h : Bounded ceiling minPercent c) (hquiet : c.overloaded = false) :
    Rising ceiling minPercent c.effective c.windowStart c.windowStart c := by
  refine ⟨h, hquiet, ?_, .inr ?_⟩
  · have hle := h.le_ceiling
    rw [Nat.sub_self, Nat.zero_div, Nat.mul_zero, Nat.add_zero, min_eq_left hle]
  · rw [Nat.sub_self, Nat.zero_div, Nat.mul_zero, Nat.add_zero]

/-- Behind an open window that is quiet, so many windows raise the rate by a step each. -/
theorem Bounded.closed_eq_of_quiet (h : Bounded ceiling minPercent c) (hmax : ceiling ≤ u32Max)
    (hquiet : c.overloaded = false) {windows : ℕ} (hpos : 0 < windows)
    (hwindows : windows ≤ maxCatchupWindows) :
    c.closed windows = min (c.effective + stepFor ceiling * windows) ceiling := by
  have hfew : windows - 1 ≤ u32Max := by
    rw [maxCatchupWindows] at hwindows
    rw [u32Max]
    omega
  have hmul : stepFor ceiling * windows = stepFor ceiling * (windows - 1) + stepFor ceiling := by
    rw [← Nat.mul_succ, Nat.succ_eq_add_one, Nat.sub_add_cancel hpos]
  rw [h.closed_eq hmax hfew, hquiet, if_neg Bool.false_ne_true, hmul]
  omega

variable (h : Rising ceiling minPercent rate start last c) (hpos : 0 < ceiling)
  (hmax : ceiling ≤ u32Max)

include h hpos hmax

/-- At the ceiling a quiet observation changes nothing but where the open window begins. -/
theorem Rising.roll_ceiling (hceiling : c.effective = ceiling) {event : ControlEvent}
    (hlast : last ≤ event.now) (hsignal : event.signal ≠ some .overload) :
    Rising ceiling minPercent rate start event.now (c.roll event.signal event.now).2 := by
  have hactive : 0 < c.ceiling := h.ceiling_eq.symm ▸ hpos
  have hbounded := h.toBounded.roll hpos hmax event.signal event.now
  have hbeq : (event.signal == some .overload) = false := beq_eq_false_iff_ne.2 hsignal
  have htop : min (rate + stepFor ceiling * ((event.now - start) / controlWindow)) ceiling =
      ceiling := by
    have hmono : stepFor ceiling * ((last - start) / controlWindow) ≤
        stepFor ceiling * ((event.now - start) / controlWindow) :=
      Nat.mul_le_mul_left _ (Nat.div_le_div_right (by omega))
    have heffective := h.effective_eq
    omega
  rcases lt_or_ge (event.now - c.windowStart) c.windowNanos with hlt | hle
  · rw [roll_of_lt hactive hlt] at hbounded ⊢
    refine ⟨hbounded, ?_, hceiling.trans htop.symm, .inl hceiling⟩
    rw [h.quiet, hbeq, Bool.false_or]
  · have hone : 0 < (event.now - c.windowStart) / c.windowNanos :=
      Nat.div_pos hle (h.windowNanos_eq.symm ▸ by decide)
    have hclosed :
        c.closed (min ((event.now - c.windowStart) / c.windowNanos) maxCatchupWindows) =
          ceiling := by
      rw [h.toBounded.closed_eq_of_quiet hmax h.quiet (lt_min hone (by decide)) (min_le_right _ _),
        hceiling]
      omega
    rw [roll_of_le hactive hle] at hbounded ⊢
    exact ⟨hbounded, hbeq, hclosed.trans htop.symm, .inl hclosed⟩

/-- Below the ceiling the open window begins at a whole number of windows. -/
theorem Rising.roll_below
    (hstart : c.windowStart = start + controlWindow * ((last - start) / controlWindow))
    {event : ControlEvent} (hlast : last ≤ event.now) (hsignal : event.signal ≠ some .overload) :
    Rising ceiling minPercent rate start event.now (c.roll event.signal event.now).2 := by
  have hactive : 0 < c.ceiling := h.ceiling_eq.symm ▸ hpos
  have hbounded := h.toBounded.roll hpos hmax event.signal event.now
  have hbeq : (event.signal == some .overload) = false := beq_eq_false_iff_ne.2 hsignal
  have heffective := h.effective_eq
  have hmono : (last - start) / controlWindow ≤ (event.now - start) / controlWindow :=
    Nat.div_le_div_right (by omega)
  have hwindows : (event.now - c.windowStart) / c.windowNanos =
      (event.now - start) / controlWindow - (last - start) / controlWindow := by
    rw [hstart, h.windowNanos_eq, Nat.sub_add_eq, Nat.sub_mul_div]
  generalize (last - start) / controlWindow = before at *
  rcases lt_or_ge (event.now - c.windowStart) c.windowNanos with hlt | hle
  · -- the event is in the open window
    have hsame : (event.now - start) / controlWindow = before := by
      rw [Nat.div_eq_of_lt hlt] at hwindows
      omega
    rw [roll_of_lt hactive hlt] at hbounded ⊢
    refine ⟨hbounded, ?_, ?_, .inr ?_⟩
    · rw [h.quiet, hbeq, Bool.false_or]
    · rw [hsame, heffective]
    · rw [hsame, hstart]
  · have hone : 0 < (event.now - c.windowStart) / c.windowNanos :=
      Nat.div_pos hle (h.windowNanos_eq.symm ▸ by decide)
    have hclosed := h.toBounded.closed_eq_of_quiet hmax h.quiet
      (lt_min hone (show 0 < maxCatchupWindows by decide)) (min_le_right _ _)
    rw [roll_of_le hactive hle] at hbounded ⊢
    rw [hwindows] at hone hclosed hbounded ⊢
    have hsplit : stepFor ceiling * ((event.now - start) / controlWindow) =
        stepFor ceiling * before +
          stepFor ceiling * ((event.now - start) / controlWindow - before) := by
      rw [← Nat.mul_add, Nat.add_sub_cancel' hmono]
    rcases lt_or_ge ((event.now - start) / controlWindow - before) maxCatchupWindows
      with hfew | hmany
    · -- all windows that have ended are closed
      rw [min_eq_left hfew.le] at hclosed hbounded ⊢
      rw [if_neg (not_le.2 hfew)] at hbounded ⊢
      refine ⟨hbounded, hbeq, ?_, .inr ?_⟩
      · rw [hsplit]
        dsimp only
        omega
      · have hnow := event.now_le
        have hdiv := Nat.div_mul_le_self (event.now - start) controlWindow
        have hclosing := Nat.mul_le_mul_right controlWindow hmono
        have hstarted : start ≤ event.now := by
          by_contra hlt
          rw [Nat.sub_eq_zero_of_le (not_le.1 hlt).le, Nat.zero_div] at hone
          omega
        rw [h.windowNanos_eq, hstart, Nat.sub_mul, Nat.mul_comm controlWindow,
          Nat.mul_comm controlWindow]
        exact saturating_windowStart hclosing hdiv hstarted hnow
    · -- more have ended than one observation closes, but they reach the ceiling
      have hreach := (le_stepFor_mul_maxCatchupWindows hpos hmax).trans
        (Nat.mul_le_mul_left (stepFor ceiling) hmany)
      have hcatchup := le_stepFor_mul_maxCatchupWindows hpos hmax
      rw [min_eq_right hmany] at hclosed hbounded ⊢
      refine ⟨hbounded, hbeq, ?_, .inl ?_⟩
      · rw [hsplit]
        dsimp only
        omega
      · dsimp only
        omega

/-- One quiet observation more. -/
theorem Rising.roll {event : ControlEvent} (hlast : last ≤ event.now)
    (hsignal : event.signal ≠ some .overload) :
    Rising ceiling minPercent rate start event.now (c.roll event.signal event.now).2 := by
  rcases h.windowStart_eq with hceiling | hstart
  · exact h.roll_ceiling hpos hmax hceiling hlast hsignal
  · exact h.roll_below hpos hmax hstart hlast hsignal

theorem Rising.run {events : List ControlEvent} (hevents : Quiet last events) :
    Rising ceiling minPercent rate start ((events.getLast?.map ControlEvent.now).getD last)
      (observations.run c events) := by
  induction events generalizing last c with
  | nil => exact h
  | cons event events ih =>
    obtain ⟨hsignal, horder⟩ := hevents
    rw [List.map_cons, List.isChain_cons_cons] at horder
    have hnext := ih (h.roll hpos hmax horder.1 (hsignal event List.mem_cons_self))
      ⟨fun e he => hsignal e (List.mem_cons_of_mem _ he), horder.2⟩
    rwa [getD_getLast?_cons]

end Rising

/-- Quiet windows raise the rate by a step each, however they are observed. -/
theorem rate_run_quiet {ceiling minPercent : ℕ} (hpos : 0 < ceiling) (hmax : ceiling ≤ u32Max)
    {c : AdaptiveRateController} (h : Bounded ceiling minPercent c) (hquiet : c.overloaded = false)
    {events : List ControlEvent} (hevents : Quiet c.windowStart events) :
    (observations.run c events).rate =
      min (c.rate + stepFor ceiling * c.windowsEnded events) ceiling :=
  ((Rising.of_bounded h hquiet).run hpos hmax hevents).effective_eq

/-! ### Down to the floor -/

section Overload

variable {ceiling minPercent : ℕ} {c : AdaptiveRateController}

/-- An event at the end of an overloaded window halves the rate. -/
theorem Bounded.roll_of_overloaded (h : Bounded ceiling minPercent c) (hpos : 0 < ceiling)
    (hmax : ceiling ≤ u32Max) (hoverloaded : c.overloaded = true)
    (hnow : c.windowStart + controlWindow ≤ u128Max) (signal : Option LoadSignal) :
    (c.roll signal (c.windowStart + controlWindow)).2 =
      { c with
        effective := max (c.effective / 2) (floorFor ceiling minPercent)
        windowStart := c.windowStart + controlWindow
        overloaded := signal == some .overload } := by
  have hactive : 0 < c.ceiling := h.ceiling_eq.symm ▸ hpos
  have helapsed : c.windowStart + controlWindow - c.windowStart = c.windowNanos := by
    rw [Nat.add_sub_cancel_left, h.windowNanos_eq]
  have hwindows : min ((c.windowStart + controlWindow - c.windowStart) / c.windowNanos)
      maxCatchupWindows = 1 := by
    rw [helapsed, h.windowNanos_eq]
    decide
  have hclosed : c.closed 1 = max (c.effective / 2) (floorFor ceiling minPercent) := by
    have hfloor := h.floor_le
    have hle := h.le_ceiling
    rw [h.closed_eq hmax (Nat.zero_le _), hoverloaded, if_pos rfl, Nat.sub_self, Nat.mul_zero]
    omega
  rw [roll_of_le hactive helapsed.ge, hwindows, hclosed, if_neg (by decide), Nat.one_mul,
    h.windowNanos_eq, min_eq_right ((Nat.le_add_left _ _).trans hnow), min_eq_right hnow]

theorem max_div_pow (rate floor n : ℕ) :
    max (max (rate / 2) floor / 2 ^ (n + 1)) floor = max (rate / 2 ^ (n + 1 + 1)) floor := by
  have hhalf : rate / 2 ^ (n + 1 + 1) = rate / 2 / 2 ^ (n + 1) := by
    rw [Nat.div_div_eq_div_mul, ← Nat.pow_succ']
  have hfloor : floor / 2 ^ (n + 1) ≤ floor := Nat.div_le_self _ _
  rw [hhalf]
  rcases le_total (rate / 2) floor with hle | hle
  · have hdiv : rate / 2 / 2 ^ (n + 1) ≤ floor := (Nat.div_le_self _ _).trans hle
    rw [max_eq_right hle, max_eq_right hfloor, max_eq_right hdiv]
  · rw [max_eq_left hle]

/-- Overloaded windows halve the rate, one after the other. -/
theorem exists_run_halved (hpos : 0 < ceiling) (hmax : ceiling ≤ u32Max) (n : ℕ)
    (h : Bounded ceiling minPercent c) (hoverloaded : c.overloaded = true)
    (hnow : c.windowStart + (n + 1) * controlWindow ≤ u128Max) :
    ∃ events : List ControlEvent,
      (c.windowStart :: events.map ControlEvent.now).IsChain (· ≤ ·) ∧
        (observations.run c events).effective =
          max (c.effective / 2 ^ (n + 1)) (floorFor ceiling minPercent) ∧
        (observations.run c events).overloaded = false ∧
        (observations.run c events).windowStart = c.windowStart + (n + 1) * controlWindow := by
  induction n generalizing c with
  | zero =>
    rw [Nat.zero_add, Nat.one_mul] at hnow ⊢
    have hrun : observations.run c [⟨none, c.windowStart + controlWindow, hnow⟩] = _ :=
      h.roll_of_overloaded hpos hmax hoverloaded hnow none
    refine ⟨[⟨none, c.windowStart + controlWindow, hnow⟩], ?_, ?_, ?_, ?_⟩
    · simp
    · rw [hrun, Nat.pow_one]
    · rw [hrun]
      rfl
    · rw [hrun]
  | succ n ih =>
    have hsum : c.windowStart + controlWindow + (n + 1) * controlWindow =
        c.windowStart + (n + 1 + 1) * controlWindow := by
      rw [Nat.succ_mul (n + 1)]
      omega
    have hnext : c.windowStart + controlWindow ≤ u128Max := by omega
    have hroll := h.roll_of_overloaded hpos hmax hoverloaded hnext (some .overload)
    have hbounded := h.roll hpos hmax (some .overload) (c.windowStart + controlWindow)
    rw [hroll] at hbounded
    obtain ⟨events, horder, heffective, hquiet, hstart⟩ := ih hbounded rfl (hsum.le.trans hnow)
    have hrun : observations.run c (⟨some .overload, _, hnext⟩ :: events) =
        observations.run _ events := congrArg (observations.run · events) hroll
    refine ⟨⟨some .overload, _, hnext⟩ :: events, ?_, ?_, ?_, ?_⟩
    · rw [List.map_cons, List.isChain_cons_cons]
      exact ⟨Nat.le_add_right _ _, horder⟩
    · rw [hrun, heffective]
      exact max_div_pow _ _ _
    · rw [hrun, hquiet]
    · rw [hrun, hstart]
      exact hsum

/-- A run that meets nothing but overload comes down to the floor. -/
theorem exists_run_floor (hpos : 0 < ceiling) (hmax : ceiling ≤ u32Max) (minPercent : ℕ) :
    ∃ events : List ControlEvent, (0 :: events.map ControlEvent.now).IsChain (· ≤ ·) ∧
      (observations.run (new ceiling minPercent) events).effective = floorFor ceiling minPercent ∧
      (observations.run (new ceiling minPercent) events).overloaded = false ∧
      (observations.run (new ceiling minPercent) events).windowStart = 32 * controlWindow := by
  have hactive : 0 < (new ceiling minPercent).ceiling := hpos
  have hopen : ((new ceiling minPercent).roll (some .overload) 0).2 = _ :=
    roll_of_lt hactive (show 0 - 0 < controlWindow by decide) _
  have hbounded := (Bounded.new hpos minPercent).roll hpos hmax (some .overload) 0
  rw [hopen] at hbounded
  obtain ⟨events, horder, heffective, hquiet, hstart⟩ :=
    exists_run_halved hpos hmax 31 hbounded rfl
      (show 0 + (31 + 1) * controlWindow ≤ u128Max by decide)
  have hrun : observations.run (new ceiling minPercent)
      (⟨some .overload, 0, Nat.zero_le _⟩ :: events) = observations.run _ events :=
    congrArg (observations.run · events) hopen
  refine ⟨⟨some .overload, 0, Nat.zero_le _⟩ :: events, ?_, ?_, ?_, ?_⟩
  · rw [List.map_cons, List.isChain_cons_cons]
    exact ⟨le_rfl, horder⟩
  · have hzero : ceiling / 2 ^ (31 + 1) = 0 := by
      rw [u32Max] at hmax
      omega
    rw [hrun, heffective]
    dsimp only [new]
    rw [hzero, Nat.max_eq_right (Nat.zero_le _)]
  · rw [hrun, hquiet]
  · rw [hrun, hstart]
    exact Nat.zero_add _

end Overload

/-! ### Twenty windows -/

/-- **Recovery in twenty windows.**  From a hundred on, a ceiling is recovered from every rate down
to its floor exactly when the floor covers what exceeds the last full hundred; a smaller ceiling,
exactly when it exceeds the floor by twenty at most. -/
theorem recovers_iff {ceiling : ℕ} (hpos : 0 < ceiling) (hmax : ceiling ≤ u32Max)
    (minPercent : ℕ) :
    Recovers ceiling minPercent ↔
      if ceiling < 100 then ceiling ≤ floorFor ceiling minPercent + 20
      else ceiling % 100 ≤ floorFor ceiling minPercent := by
  have hcovered : (if ceiling < 100 then ceiling ≤ floorFor ceiling minPercent + 20
      else ceiling % 100 ≤ floorFor ceiling minPercent) ↔
      ceiling ≤ floorFor ceiling minPercent + stepFor ceiling * 20 := by
    rw [stepFor_eq hpos hmax]
    split_ifs <;> omega
  rw [hcovered]
  constructor
  · intro h
    obtain ⟨events, -, heffective, hquiet, hstart⟩ := exists_run_floor hpos hmax minPercent
    have hbounded := bounded_run hpos hmax minPercent events
    generalize observations.run (new ceiling minPercent) events = c at *
    -- one tick, twenty windows later
    have hnow : c.windowStart + 20 * controlWindow ≤ u128Max := by
      rw [hstart]
      decide
    have htick : Quiet c.windowStart [⟨none, c.windowStart + 20 * controlWindow, hnow⟩] :=
      ⟨by simp, by simp⟩
    have hended : c.windowsEnded [⟨none, c.windowStart + 20 * controlWindow, hnow⟩] = 20 := by
      show (c.windowStart + 20 * controlWindow - c.windowStart) / controlWindow = 20
      rw [Nat.add_sub_cancel_left]
      exact Nat.mul_div_cancel _ (by decide)
    have hrate := rate_run_quiet hpos hmax hbounded hquiet htick
    rw [h c hbounded hquiet _ htick hended.ge, hended, rate, heffective] at hrate
    omega
  · intro hcovers c hbounded hquiet events hevents hended
    have hsteps := Nat.mul_le_mul_left (stepFor ceiling) hended
    have hfloor := hbounded.floor_le
    rw [rate_run_quiet hpos hmax hbounded hquiet hevents, rate]
    omega

section Sample

/-- A signal at the start of a control window. -/
def signalAt (signal : LoadSignal) (window : Fin 29) : ControlEvent where
  signal := some signal
  now := window * controlWindow
  now_le := (Nat.mul_le_mul_right _ window.is_le).trans (by decide)

/-- A controller that eight overloaded windows have brought down to its floor. -/
def brokenDown : AdaptiveRateController :=
  observations.run (new 199 1)
    ([0, 1, 2, 3, 4, 5, 6, 7].map (signalAt .overload) ++ [signalAt .ok 8])

/-- The twenty windows behind, in each of which a request succeeds. -/
def quietWindows : List ControlEvent := (List.finRange 20).map fun n => signalAt .ok (n.addNat 9)

/-- A round ceiling. -/
theorem recovers_iff_round : Recovers 10000 10 :=
  (recovers_iff (by decide) (by decide) 10).2 (by decide)

/-- Below a ceiling of 199, a step is 5. -/
theorem not_recovers :
    brokenDown.rate = 1 ∧ Quiet brokenDown.windowStart quietWindows ∧
      brokenDown.windowsEnded quietWindows = 20 ∧
      (observations.run brokenDown quietWindows).rate = 101 ∧ ¬ Recovers 199 1 := by
  have hbounded : Bounded 199 1 brokenDown := bounded_run (by decide) (by decide) 1 _
  have hquiet : Quiet brokenDown.windowStart quietWindows := ⟨by decide, by decide⟩
  have hended : brokenDown.windowsEnded quietWindows = 20 := by decide
  have hrate : (observations.run brokenDown quietWindows).rate = 101 := by
    rw [rate_run_quiet (by decide) (by decide) hbounded (by decide) hquiet, hended]
    decide
  refine ⟨by decide, hquiet, hended, hrate, fun h => ?_⟩
  have hrecovered := h brokenDown hbounded (by decide) quietWindows hquiet hended.ge
  rw [hrate] at hrecovered
  exact absurd hrecovered (by decide)

end Sample

end AdaptiveRateController

end Cdm
