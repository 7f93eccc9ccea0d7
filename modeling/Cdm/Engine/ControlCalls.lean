import Cdm.Engine.Control
import Cdm.LTS.Basic
import Mathlib.Logic.Function.Basic
import Mathlib.Data.Fintype.Basic

/-!
# Concurrent calls of run control

Any number of callers pause, resume, stop and kill a run, and any number of workers wait while it is
paused.  The operations of the calls are interleaved one by one; `pause` and `signalled` look at the
flags before the first of them.  A worker that waits looks at the pause, subscribes to it, and then
sleeps until it changes or the run stops.
-/

namespace Cdm

/-- Where a worker is in `wait_while_paused`. -/
inductive WaitPoint
  /-- It is not waiting. -/
  | outside
  /-- About to look at the pause. -/
  | check
  | subscribe
  /-- About to look at the pause it has subscribed to; it has seen the version `seen`. -/
  | look (seen : ℕ)
  /-- About to look whether the run stops. -/
  | ask (seen : ℕ)
  /-- Asleep until the version is another one, or the run stops. -/
  | sleep (seen : ℕ)
  deriving DecidableEq, Repr

/-- The control of a run with the callers and the workers that hold it. -/
structure ControlCalls (γ ω : Type*) where
  control : RunControl
  /-- How often the pause has been sent. -/
  version : ℕ
  /-- What is left to do of a caller's call. -/
  pending : γ → List ControlOp
  worker : ω → WaitPoint

/-- A step of a caller or of a worker. -/
inductive ControlStep (γ ω : Type*)
  /-- A call begins, and looks at the flags if it does. -/
  | call (caller : γ) (request : ControlRequest)
  | perform (caller : γ)
  /-- A worker begins to wait. -/
  | enter (worker : ω)
  /-- A worker that waits goes on; `changed` is the branch of a sleeper that can take both. -/
  | wait (worker : ω) (changed : Bool)
  deriving DecidableEq, Repr

namespace ControlCalls

variable {γ ω : Type*}

def new : ControlCalls γ ω := ⟨{}, 0, fun _ => [], fun _ => .outside⟩

/-- The step of a worker that waits, if it can take one. -/
def goOn (control : RunControl) (version : ℕ) (changed : Bool) : WaitPoint → Option WaitPoint
  | .outside => none
  | .check => some (if control.paused then .subscribe else .outside)
  | .subscribe => some (.look version)
  | .look _ => some (if control.paused then .ask version else .outside)
  | .ask seen => some (if control.stopping then .outside else .sleep seen)
  | .sleep seen =>
    if changed then if version ≠ seen then some (.look version) else none
    else if control.stopping then some .outside else none

/-- The pause is sent again with every operation that sets it, whether it changes or not. -/
def versionAfter (version : ℕ) : ControlOp → ℕ
  | .setPaused _ => version + 1
  | _ => version

variable [DecidableEq γ] [DecidableEq ω]

/-- The callers and the workers of a run, interleaved. -/
def calls : LTS (ControlCalls γ ω) (ControlStep γ ω) where
  step s
    | .call caller request =>
      match s.pending caller with
      | [] => some { s with pending := Function.update s.pending caller (request.ops s.control) }
      | _ => none
    | .perform caller =>
      match s.pending caller with
      | [] => none
      | op :: ops =>
        some { s with
          control := s.control.perform op
          version := versionAfter s.version op
          pending := Function.update s.pending caller ops }
    | .enter worker =>
      match s.worker worker with
      | .outside => some { s with worker := Function.update s.worker worker .check }
      | _ => none
    | .wait worker changed =>
      (goOn s.control s.version changed (s.worker worker)).map fun point =>
        { s with worker := Function.update s.worker worker point }

/-- A stop is between clearing the pause and cancelling the token, its last operation. -/
def Clearing (ops : List ControlOp) : Prop := ops.head? = some .cancelStopping

/-- A pause takes effect before any stop has cleared it. -/
def PausesBefore (s : ControlCalls γ ω) : ControlStep γ ω → Prop
  | .perform caller => (s.pending caller).head? = some (.setPaused true) →
      s.control.stopping = false ∧ ∀ other, ¬ Clearing (s.pending other)
  | _ => True

instance decidableClearing (ops : List ControlOp) : Decidable (Clearing ops) :=
  inferInstanceAs (Decidable (ops.head? = some .cancelStopping))

instance decidablePausesBefore [Fintype γ] (s : ControlCalls γ ω) :
    ∀ l, Decidable (PausesBefore s l)
  | .perform caller =>
    inferInstanceAs (Decidable ((s.pending caller).head? = some (.setPaused true) →
      s.control.stopping = false ∧ ∀ other, ¬ Clearing (s.pending other)))
  | .call _ _ | .enter _ | .wait _ _ => instDecidableTrue

/-- How many steps a worker that waits is away from its return, once the run stops. -/
def rank : WaitPoint → ℕ
  | .outside => 0
  | .ask _ => 1
  | .look _ => 2
  | .subscribe | .sleep _ => 3
  | .check => 4

/-! ### What is left of a call -/

/-- The token of the kill is cancelled only behind that of the stop: this is what is left to do of a
call that keeps to that order, given whether the run stops already. -/
def StopsFirst : Bool → List ControlOp → Prop
  | _, [] => True
  | _, .cancelStopping :: ops => StopsFirst true ops
  | stopping, .cancelKilled :: ops => stopping = true ∧ StopsFirst stopping ops
  | stopping, _ :: ops => StopsFirst stopping ops

/-- The pause is cleared right before the token is cancelled. -/
def ClearsBefore : List ControlOp → Prop
  | [] => True
  | op :: ops => (Clearing ops → op = .setPaused false) ∧ ClearsBefore ops

theorem stopsFirst_ops (stopping : Bool) (c : RunControl) (request : ControlRequest) :
    StopsFirst stopping (request.ops c) := by
  cases request <;> simp only [ControlRequest.ops] <;> (try split_ifs) <;>
    simp [StopsFirst, killOps, stopOps]

theorem clearsBefore_ops (c : RunControl) (request : ControlRequest) :
    ClearsBefore (request.ops c) ∧ ¬ Clearing (request.ops c) := by
  cases request <;> simp only [ControlRequest.ops] <;> (try split_ifs) <;>
    simp [ClearsBefore, Clearing, killOps, stopOps]

theorem stopsFirst_mono {stopping stopping' : Bool} {ops : List ControlOp}
    (h : stopping = true → stopping' = true) (hops : StopsFirst stopping ops) :
    StopsFirst stopping' ops := by
  induction ops generalizing stopping stopping' with
  | nil => trivial
  | cons op ops ih =>
    cases op with
    | record reason => exact ih h hops
    | setPaused paused => exact ih h hops
    | cancelStopping => exact hops
    | cancelKilled => exact ⟨h hops.1, ih h hops.2⟩

/-! ### What no operation takes back -/

/-- The flags and the reason of a later state. -/
structure Later (before after : RunControl) : Prop where
  reason : ∀ reason, before.reason = some reason → after.reason = some reason
  stopping : before.stopping = true → after.stopping = true
  killed : before.killed = true → after.killed = true

theorem Later.refl (c : RunControl) : Later c c := ⟨fun _ => id, id, id⟩

theorem Later.trans {c d e : RunControl} (h : Later c d) (h' : Later d e) : Later c e :=
  ⟨fun r hr => h'.reason r (h.reason r hr), h'.stopping ∘ h.stopping, h'.killed ∘ h.killed⟩

theorem later_perform (c : RunControl) (op : ControlOp) : Later c (c.perform op) := by
  cases op with
  | record reason => exact ⟨fun r hr => by simp [RunControl.perform, hr], id, id⟩
  | setPaused paused => exact ⟨fun _ => id, id, id⟩
  | cancelStopping => exact ⟨fun _ => id, fun _ => rfl, id⟩
  | cancelKilled => exact ⟨fun _ => id, id, fun _ => rfl⟩

omit [DecidableEq γ] [DecidableEq ω] in
theorem mem_update {ι α : Type*} [DecidableEq ι] {f : ι → α} {P : α → Prop} {i : ι} {a : α}
    (ha : P a) (hf : ∀ j, P (f j)) (j : ι) : P (Function.update f i a j) := by
  by_cases hj : j = i
  · subst hj
    rwa [Function.update_self]
  · rw [Function.update_of_ne hj]
    exact hf j

/-- What one step does to the flags and to the calls: an operation is performed, or the flags stay
and at most a call begins. -/
theorem step_cases {s s' : ControlCalls γ ω} {l : ControlStep γ ω} (h : calls.step s l = some s') :
    (∃ caller op ops, l = .perform caller ∧ s.pending caller = op :: ops ∧
      s'.control = s.control.perform op ∧
      s'.pending = Function.update s.pending caller ops ∧ s'.worker = s.worker) ∨
    (∃ caller request, l = .call caller request ∧ s'.control = s.control ∧
      s'.pending = Function.update s.pending caller (request.ops s.control) ∧
      s'.worker = s.worker) ∨
    s'.control = s.control ∧ s'.pending = s.pending := by
  cases l with
  | call caller request =>
    simp only [calls] at h
    split at h
    · cases h
      exact .inr (.inl ⟨caller, request, rfl, rfl, rfl, rfl⟩)
    · cases h
  | perform caller =>
    simp only [calls] at h
    split at h
    · cases h
    · rename_i op ops hpending
      cases h
      exact .inl ⟨caller, op, ops, rfl, hpending, rfl, rfl, rfl⟩
  | enter worker =>
    simp only [calls] at h
    split at h
    · cases h
      exact .inr (.inr ⟨rfl, rfl⟩)
    · cases h
  | wait worker changed =>
    simp only [calls] at h
    obtain ⟨point, -, rfl⟩ := Option.map_eq_some_iff.1 h
    exact .inr (.inr ⟨rfl, rfl⟩)

theorem later_step {s s' : ControlCalls γ ω} {l : ControlStep γ ω} (h : calls.step s l = some s') :
    Later s.control s'.control := by
  rcases step_cases h with ⟨_, op, _, _, _, hcontrol, _⟩ | ⟨_, _, _, hcontrol, _⟩ | ⟨hcontrol, _⟩
  · rw [hcontrol]
    exact later_perform _ _
  · rw [hcontrol]
    exact Later.refl _
  · rw [hcontrol]
    exact Later.refl _

theorem later_exec {s s' : ControlCalls γ ω} {ls : List (ControlStep γ ω)}
    (h : calls.exec s ls = some s') : Later s.control s'.control :=
  LTS.exec_invariant (I := fun t => Later s.control t.control) h (Later.refl _)
    fun _ _ _ hs hl => hs.trans (later_step hl)

/-! ### The flags imply one another -/

/-- A killed run stops, a stopping run has a reason, and what is left of the calls keeps to their
order. -/
structure Sound (s : ControlCalls γ ω) : Prop where
  explained : s.control.Explained
  killed : s.control.killed = true → s.control.stopping = true
  records : ∀ caller, RecordsFirst s.control.reason.isSome (s.pending caller)
  stops : ∀ caller, StopsFirst s.control.stopping (s.pending caller)
  clears : ∀ caller, ClearsBefore (s.pending caller)

omit [DecidableEq γ] [DecidableEq ω] in
theorem Sound.new : (new : ControlCalls γ ω).Sound :=
  ⟨nofun, nofun, fun _ => trivial, fun _ => trivial, fun _ => trivial⟩

/-- The order of the two tokens, behind one operation more. -/
theorem stopsFirst_perform {c : RunControl} {op : ControlOp} {ops : List ControlOp}
    (hkilled : c.killed = true → c.stopping = true) (h : StopsFirst c.stopping (op :: ops)) :
    ((c.perform op).killed = true → (c.perform op).stopping = true) ∧
      StopsFirst (c.perform op).stopping ops := by
  cases op with
  | record reason => exact ⟨hkilled, h⟩
  | setPaused paused => exact ⟨hkilled, h⟩
  | cancelStopping => exact ⟨fun _ => rfl, h⟩
  | cancelKilled => exact ⟨fun _ => h.1, h.2⟩

theorem Sound.step {s s' : ControlCalls γ ω} {l : ControlStep γ ω} (h : s.Sound)
    (hstep : calls.step s l = some s') : s'.Sound := by
  have hlater := later_step hstep
  have hknown : s.control.reason.isSome = true → s'.control.reason.isSome = true := by
    intro hsome
    obtain ⟨reason, hreason⟩ := Option.isSome_iff_exists.1 hsome
    rw [hlater.reason reason hreason]
    rfl
  rcases step_cases hstep with ⟨caller, op, ops, -, hpending, hcontrol, hpending', -⟩ |
    ⟨caller, request, -, hcontrol, hpending', -⟩ | ⟨hcontrol, hpending'⟩
  · -- an operation: what it needs stands at the head of what was left of its call
    have hrecords := h.records caller
    have hstops := h.stops caller
    have hclears := h.clears caller
    rw [hpending] at hrecords hstops hclears
    obtain ⟨hexplained, hrecords⟩ := h.explained.perform hrecords
    obtain ⟨hkilled, hstops⟩ := stopsFirst_perform h.killed hstops
    rw [← hcontrol] at hexplained hrecords hkilled hstops
    refine ⟨hexplained, hkilled, ?_, ?_, ?_⟩ <;> rw [hpending']
    · exact mem_update hrecords fun other => recordsFirst_mono hknown (h.records other)
    · exact mem_update hstops fun other => stopsFirst_mono hlater.stopping (h.stops other)
    · exact mem_update hclears.2 h.clears
  · -- a call that begins keeps to the order, whatever flags it sees
    refine ⟨hcontrol ▸ h.explained, hcontrol ▸ h.killed, ?_, ?_, ?_⟩ <;> rw [hpending']
    · rw [hcontrol]
      exact mem_update (recordsFirst_ops _ _ _) h.records
    · rw [hcontrol]
      exact mem_update (stopsFirst_ops _ _ _) h.stops
    · exact mem_update (clearsBefore_ops _ _).1 h.clears
  · refine ⟨hcontrol ▸ h.explained, hcontrol ▸ h.killed, ?_, ?_, ?_⟩ <;> rw [hpending']
    · exact hcontrol ▸ h.records
    · exact hcontrol ▸ h.stops
    · exact h.clears

/-! ### A stopped run is not paused -/

/-- The pause is off once a stop has cleared it. -/
structure Cleared (s : ControlCalls γ ω) : Prop extends Sound s where
  stopped : s.control.stopping = true → s.control.paused = false
  clearing : ∀ caller, Clearing (s.pending caller) → s.control.paused = false

omit [DecidableEq ω] in
theorem clearing_update {pending : γ → List ControlOp} {caller : γ} {ops : List ControlOp}
    {p : Prop} (hops : Clearing ops → p) (h : ∀ other, Clearing (pending other) → p) (other : γ) :
    Clearing (Function.update pending caller ops other) → p :=
  mem_update (P := fun ops => Clearing ops → p) hops h other

omit [DecidableEq γ] [DecidableEq ω] in
theorem Cleared.new : (new : ControlCalls γ ω).Cleared := ⟨Sound.new, nofun, nofun⟩

theorem Cleared.step {s s' : ControlCalls γ ω} {l : ControlStep γ ω} (h : s.Cleared)
    (hpause : PausesBefore s l) (hstep : calls.step s l = some s') : s'.Cleared := by
  have hparts : (s'.control.stopping = true → s'.control.paused = false) ∧
      ∀ caller, Clearing (s'.pending caller) → s'.control.paused = false := by
    rcases step_cases hstep with ⟨caller, op, ops, rfl, hpending, hcontrol, hpending', -⟩ |
      ⟨caller, request, -, hcontrol, hpending', -⟩ | ⟨hcontrol, hpending'⟩
    · have hrest : Clearing ops → op = .setPaused false := by
        have hclears := h.clears caller
        rw [hpending] at hclears
        exact hclears.1
      rw [PausesBefore, hpending] at hpause
      rw [hcontrol, hpending']
      cases op with
      | record reason =>
        exact ⟨h.stopped, clearing_update (fun hops => nomatch hrest hops) h.clearing⟩
      | setPaused paused =>
        cases paused with
        | false => exact ⟨fun _ => rfl, fun _ _ => rfl⟩
        | true =>
          -- the pause is set while no stop is under way behind it
          obtain ⟨hstopping, hothers⟩ := hpause rfl
          refine ⟨fun hstopped => ?_, clearing_update (fun hops => nomatch hrest hops)
            fun other hother => absurd hother (hothers other)⟩
          exact absurd (hstopping.symm.trans hstopped) Bool.false_ne_true
      | cancelStopping =>
        have hcleared := h.clearing caller (by rw [hpending]; rfl)
        exact ⟨fun _ => hcleared, fun _ _ => hcleared⟩
      | cancelKilled =>
        exact ⟨h.stopped, clearing_update (fun hops => nomatch hrest hops) h.clearing⟩
    · rw [hcontrol, hpending']
      exact ⟨h.stopped,
        clearing_update (fun hops => absurd hops (clearsBefore_ops _ _).2) h.clearing⟩
    · rw [hcontrol, hpending']
      exact ⟨h.stopped, h.clearing⟩
  exact ⟨h.toSound.step hstep, hparts.1, hparts.2⟩

/-! ### Workers return from a stopped run -/

/-- Once the run stops, a worker that waits can go on. -/
theorem exists_goOn {c : RunControl} (h : c.stopping = true) (version : ℕ) {point : WaitPoint}
    (hpoint : point ≠ .outside) : ∃ changed next, goOn c version changed point = some next := by
  cases point with
  | outside => exact absurd rfl hpoint
  | check => exact ⟨false, _, rfl⟩
  | subscribe => exact ⟨false, _, rfl⟩
  | look seen => exact ⟨false, _, rfl⟩
  | ask seen => exact ⟨false, _, rfl⟩
  | sleep seen => exact ⟨false, .outside, by simp [goOn, h]⟩

/-- Each of its steps then brings it nearer to its return. -/
theorem rank_goOn {c : RunControl} (h : c.stopping = true) {version : ℕ} {changed : Bool}
    {point next : WaitPoint} (hgo : goOn c version changed point = some next) :
    rank next < rank point := by
  cases point with
  | outside => cases hgo
  | check =>
    rw [goOn] at hgo
    split_ifs at hgo <;> cases hgo <;> simp [rank]
  | subscribe =>
    cases hgo
    simp [rank]
  | look seen =>
    rw [goOn] at hgo
    split_ifs at hgo <;> cases hgo <;> simp [rank]
  | ask seen =>
    rw [goOn, h, if_pos rfl] at hgo
    cases hgo
    simp [rank]
  | sleep seen =>
    rw [goOn, h] at hgo
    split_ifs at hgo <;> cases hgo <;> simp [rank]

theorem rank_le (point : WaitPoint) : rank point ≤ 4 := by
  cases point <;> simp [rank]

/-- A worker that waits takes a step exactly when it goes on. -/
theorem step_wait {s : ControlCalls γ ω} {worker : ω} {changed : Bool} {s' : ControlCalls γ ω}
    (h : calls.step s (.wait worker changed) = some s') :
    goOn s.control s.version changed (s.worker worker) = some (s'.worker worker) := by
  obtain ⟨point, hgo, rfl⟩ := Option.map_eq_some_iff.1 h
  have hself : Function.update s.worker worker point worker = point := Function.update_self ..
  exact hgo.trans (congrArg some hself.symm)

/-- A worker in `wait_while_paused` can take a step of its own and is at most four of them away from
its return, whatever the others do meanwhile. -/
def Returns (s : ControlCalls γ ω) (worker : ω) : Prop :=
  rank (s.worker worker) ≤ 4 ∧
    (s.worker worker ≠ .outside → ∃ changed, (calls.step s (.wait worker changed)).isSome) ∧
    ∀ changed s', calls.step s (.wait worker changed) = some s' →
      rank (s'.worker worker) < rank (s.worker worker)

theorem returns_of_stopping {s : ControlCalls γ ω} (h : s.control.stopping = true) (worker : ω) :
    s.Returns worker := by
  refine ⟨rank_le _, fun hpoint => ?_, fun changed s' hstep => rank_goOn h (step_wait hstep)⟩
  obtain ⟨changed, next, hgo⟩ := exists_goOn h s.version hpoint
  refine ⟨changed, ?_⟩
  simp only [calls, hgo, Option.map_some, Option.isSome_some]

/-- Only the worker itself changes where it is. -/
theorem worker_step {s s' : ControlCalls γ ω} {l : ControlStep γ ω} (h : calls.step s l = some s')
    {worker : ω} (henter : l ≠ .enter worker) (hwait : ∀ changed, l ≠ .wait worker changed) :
    s'.worker worker = s.worker worker := by
  cases l with
  | call caller request =>
    simp only [calls] at h
    split at h <;> cases h
    rfl
  | perform caller =>
    simp only [calls] at h
    split at h <;> cases h
    rfl
  | enter other =>
    simp only [calls] at h
    split at h <;> cases h
    have hne : worker ≠ other := fun heq => henter (by rw [heq])
    exact Function.update_of_ne hne _ _
  | wait other changed =>
    obtain ⟨point, -, rfl⟩ := Option.map_eq_some_iff.1 h
    have hne : worker ≠ other := fun heq => hwait changed (by rw [heq])
    exact Function.update_of_ne hne _ _

/-! ### The control of a run -/

theorem sound_exec {ls : List (ControlStep γ ω)} {s : ControlCalls γ ω}
    (h : calls.exec new ls = some s) : s.Sound :=
  LTS.exec_invariant h Sound.new fun _ _ _ hs hl => hs.step hl

theorem cleared_exec {ls : List (ControlStep γ ω)} {s : ControlCalls γ ω}
    (h : calls.exec new ls = some s) (hpauses : calls.Along PausesBefore new ls) : s.Cleared :=
  LTS.exec_invariant_along h hpauses Cleared.new fun _ _ _ hs hG hl => hs.step hG hl

/-- However the operations of the calls are interleaved, the first recorded reason and the two
tokens stay, a killed run stops and a stopping one has a reason, and every worker returns from
`wait_while_paused`.  A run that stops is not paused, provided that no call of `pause` that has
found it running sets the flag when it no longer is. -/
theorem control_sound {ls : List (ControlStep γ ω)} {s : ControlCalls γ ω}
    (h : calls.exec new ls = some s) :
    (∀ ms s', calls.exec s ms = some s' → Later s.control s'.control) ∧
      (s.control.killed = true → s.control.stopping = true) ∧
      (s.control.stopping = true → s.control.reason.isSome = true) ∧
      (s.control.stopping = true → ∀ worker, s.Returns worker ∧
        ∀ l s', calls.step s l = some s' → l ≠ .enter worker →
          (∀ changed, l ≠ .wait worker changed) → s'.worker worker = s.worker worker) ∧
      (calls.Along PausesBefore new ls → s.control.stopping = true → s.control.paused = false) := by
  have hsound := sound_exec h
  refine ⟨fun ms s' hms => later_exec hms, hsound.killed,
    fun hstopping => hsound.explained (.inl hstopping),
    fun hstopping worker => ⟨returns_of_stopping hstopping worker,
      fun l s' hstep henter hwait => worker_step hstep henter hwait⟩, fun hpauses => ?_⟩
  exact (cleared_exec h hpauses).stopped

/-- The two callers. -/
def first : Fin 2 := ⟨0, Nat.two_pos⟩

def second : Fin 2 := ⟨1, Nat.one_lt_two⟩

/-- A worker waits, and then the run stops. -/
def stopAsleep : List (ControlStep (Fin 2) (Fin 1)) :=
  [.call first .pause, .perform first, .enter 0, .wait 0 false, .wait 0 false, .wait 0 false,
    .wait 0 false, .call second (.stop .operator), .perform second, .perform second,
    .perform second]

theorem control_sound_asleep :
    ∃ s, calls.exec new stopAsleep = some s ∧ s.control.stopping = true ∧ s.worker 0 = .sleep 1 ∧
      s.Returns 0 ∧ s.control.paused = false := by
  obtain ⟨s, hs⟩ := Option.isSome_iff_exists.1 (rfl : (calls.exec new stopAsleep).isSome = true)
  have hvalues : (calls.exec new stopAsleep).map (fun s => (s.control.stopping, s.worker 0)) =
      some (true, .sleep 1) := rfl
  rw [hs, Option.map_some, Option.some.injEq, Prod.mk.injEq] at hvalues
  obtain ⟨-, -, -, hreturns, hpaused⟩ := control_sound hs
  exact ⟨s, hs, hvalues.1, hvalues.2, (hreturns hvalues.1 0).1,
    hpaused (by decide) hvalues.1⟩

/-- A call of `pause` that has found the run going pauses it after it has stopped. -/
def pauseLate : List (ControlStep (Fin 2) (Fin 1)) :=
  [.call first .pause, .call second (.stop .operator), .perform second, .perform second,
    .perform second, .perform first]

theorem not_control_sound :
    ¬ ∀ ls s, calls.exec (new : ControlCalls (Fin 2) (Fin 1)) ls = some s →
      s.control.stopping = true → s.control.paused = false := by
  intro h
  obtain ⟨s, hs⟩ := Option.isSome_iff_exists.1 (rfl : (calls.exec new pauseLate).isSome = true)
  have hvalues : (calls.exec new pauseLate).map (fun s => (s.control.stopping, s.control.paused)) =
      some (true, true) := rfl
  rw [hs, Option.map_some, Option.some.injEq, Prod.mk.injEq] at hvalues
  exact Bool.false_ne_true ((h pauseLate s hs hvalues.1).symm.trans hvalues.2)

end ControlCalls

end Cdm
