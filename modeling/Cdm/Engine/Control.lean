import Cdm.Core.Error

/-!
# Run control and the work list

`RunControl` is shared by the workers of a run and by whoever may pause, resume, stop or kill it.
None of its methods is atomic: `stop` records a reason, clears the pause and cancels a token, each of
which another thread can run between.  A call is therefore the list of its atomic operations, which
are performed one at a time.

`WorkQueue` is the cursor over the planned ranges that the workers claim from.
-/

namespace Cdm

/-- Why a run stopped before its plan was exhausted. -/
inductive StopReason
  /-- `SIGINT` or `SIGTERM`. -/
  | signal
  /-- The total `ERROR` exceeded the limit. -/
  | errorLimit
  /-- A range failed with a fatal error kind. -/
  | fatal
  /-- An operator asked for it. -/
  | operator
  deriving DecidableEq, Repr

/-- The status of a run that stopped for this reason. -/
def StopReason.runStatus : StopReason → RunStatus
  | signal => .interrupted
  | errorLimit | fatal | operator => .aborted

theorem StopReason.runStatus_ne_ended (reason : StopReason) : reason.runStatus ≠ .ended := by
  cases reason <;> decide

/-- The pause, stop and kill flags of a run. -/
structure RunControl where
  paused : Bool := false
  stopping : Bool := false
  killed : Bool := false
  /-- Why the run stops: the first reason that was recorded. -/
  reason : Option StopReason := none
  deriving DecidableEq, Repr

/-- An atomic operation on a run's control. -/
inductive ControlOp
  | record (reason : StopReason)
  | setPaused (paused : Bool)
  | cancelStopping
  | cancelKilled
  deriving DecidableEq, Repr

/-- The effect of one operation. -/
def RunControl.perform (c : RunControl) : ControlOp → RunControl
  | .record reason => { c with reason := c.reason.or (some reason) }
  | .setPaused paused => { c with paused := paused }
  | .cancelStopping => { c with stopping := true }
  | .cancelKilled => { c with killed := true }

/-- `stop`. -/
def stopOps (reason : StopReason) : List ControlOp :=
  [.record reason, .setPaused false, .cancelStopping]

/-- `kill`. -/
def killOps : List ControlOp := stopOps .signal ++ [ControlOp.cancelKilled]

/-- A call of a method of `RunControl`. -/
inductive ControlRequest
  | pause
  | resume
  | stop (reason : StopReason)
  | kill
  /-- A delivered signal. -/
  | signalled
  /-- The watchdog, when the grace period is over. -/
  | graceExpired
  deriving DecidableEq, Repr

/-- The operations of a call, once it has looked at the flags. -/
def ControlRequest.ops (c : RunControl) : ControlRequest → List ControlOp
  | pause => if c.stopping then [] else [.setPaused true]
  | resume => [.setPaused false]
  | stop reason => stopOps reason
  | kill => killOps
  | signalled => if c.stopping then killOps else stopOps .signal
  | graceExpired => if c.killed then [] else killOps

/-- A token is cancelled only after a reason was recorded: this is what is left to do of a call that
keeps to that order, given whether a reason is recorded already. -/
def RecordsFirst : Bool → List ControlOp → Prop
  | _, [] => True
  | _, .record _ :: ops => RecordsFirst true ops
  | known, .setPaused _ :: ops => RecordsFirst known ops
  | known, .cancelStopping :: ops => known = true ∧ RecordsFirst known ops
  | known, .cancelKilled :: ops => known = true ∧ RecordsFirst known ops

theorem recordsFirst_mono {known known' : Bool} {ops : List ControlOp}
    (h : known = true → known' = true) (hops : RecordsFirst known ops) :
    RecordsFirst known' ops := by
  induction ops generalizing known known' with
  | nil => trivial
  | cons op ops ih =>
    cases op with
    | record reason => exact hops
    | setPaused paused => exact ih h hops
    | cancelStopping => exact ⟨h hops.1, ih h hops.2⟩
    | cancelKilled => exact ⟨h hops.1, ih h hops.2⟩

theorem recordsFirst_stopOps (known : Bool) (reason : StopReason) :
    RecordsFirst known (stopOps reason) :=
  ⟨rfl, trivial⟩

theorem recordsFirst_ops (known : Bool) (c : RunControl) (request : ControlRequest) :
    RecordsFirst known (request.ops c) := by
  cases request with
  | pause =>
    simp only [ControlRequest.ops]
    split_ifs
    · trivial
    · trivial
  | resume => trivial
  | stop reason => exact recordsFirst_stopOps known reason
  | kill => exact ⟨rfl, rfl, trivial⟩
  | signalled =>
    simp only [ControlRequest.ops]
    split_ifs
    · exact ⟨rfl, rfl, trivial⟩
    · exact recordsFirst_stopOps known .signal
  | graceExpired =>
    simp only [ControlRequest.ops]
    split_ifs
    · trivial
    · exact ⟨rfl, rfl, trivial⟩

/-- A stopping or killed run has a reason. -/
def RunControl.Explained (c : RunControl) : Prop :=
  c.stopping = true ∨ c.killed = true → c.reason.isSome = true

/-- A recorded reason is never taken back. -/
theorem RunControl.isSome_reason_perform {c : RunControl} (op : ControlOp)
    (h : c.reason.isSome = true) : (c.perform op).reason.isSome = true := by
  cases op with
  | record reason => simp [perform]
  | setPaused paused => exact h
  | cancelStopping => exact h
  | cancelKilled => exact h

/-- An operation of a call that records first keeps the run explained, and what is left of the call
still records first. -/
theorem RunControl.Explained.perform {c : RunControl} {op : ControlOp} {ops : List ControlOp}
    (h : c.Explained) (hops : RecordsFirst c.reason.isSome (op :: ops)) :
    (c.perform op).Explained ∧ RecordsFirst (c.perform op).reason.isSome ops := by
  cases op with
  | record reason =>
    have hrest : RecordsFirst true ops := hops
    exact ⟨fun _ => by simp [RunControl.perform], by simpa [RunControl.perform] using hrest⟩
  | setPaused paused => exact ⟨h, hops⟩
  | cancelStopping => exact ⟨fun _ => hops.1, hops.2⟩
  | cancelKilled => exact ⟨fun _ => hops.1, hops.2⟩

/-! ### The work list -/

/-- The most elements a `Vec` holds. -/
def isizeMax : ℕ := 2 ^ 63 - 1

/-- A shared cursor over the planned ranges. -/
structure WorkQueue where
  ranges : List TokenRange
  next : UInt64
  ranges_length_le : ranges.length ≤ isizeMax

namespace WorkQueue

/-- A queue over the plan's ranges. -/
def new (ranges : List TokenRange) (h : ranges.length ≤ isizeMax) : WorkQueue := ⟨ranges, 0, h⟩

/-- Takes the next unclaimed range, or `none` once the plan is exhausted; the cursor moves in either
case. -/
def claim (q : WorkQueue) : Option TokenRange × WorkQueue :=
  (q.ranges[q.next.toNat]?, { q with next := q.next + 1 })

/-- How many ranges have been handed out. -/
def claimed (q : WorkQueue) : ℕ := min q.next.toNat q.ranges.length

/-- The ranges no worker ever claimed. -/
def unclaimed (q : WorkQueue) : List TokenRange := q.ranges.drop q.claimed

/-- The ranges that have been handed out. -/
def taken (q : WorkQueue) : List TokenRange := q.ranges.take q.claimed

theorem taken_append_unclaimed (q : WorkQueue) : q.taken ++ q.unclaimed = q.ranges :=
  List.take_append_drop _ _

theorem toNat_next_claim {q : WorkQueue} (h : q.next.toNat + 1 < 2 ^ 64) :
    q.claim.2.next.toNat = q.next.toNat + 1 := by
  change (q.next + 1).toNat = _
  rw [UInt64.toNat_add]
  exact Nat.mod_eq_of_lt h

theorem lt_length_of_claim {q : WorkQueue} {range : TokenRange} (h : q.claim.1 = some range) :
    q.next.toNat < q.ranges.length :=
  (List.getElem?_eq_some_iff.1 h).1

theorem length_le_of_claim_none {q : WorkQueue} (h : q.claim.1 = none) :
    q.ranges.length ≤ q.next.toNat :=
  List.getElem?_eq_none_iff.1 h

/-- A claim takes the range it finds. -/
theorem taken_claim {q : WorkQueue} (h : q.next.toNat + 1 < 2 ^ 64) :
    q.claim.2.taken = q.taken ++ q.claim.1.toList := by
  unfold taken claimed
  rw [toNat_next_claim h]
  change q.ranges.take (min (q.next.toNat + 1) q.ranges.length) = _
  cases hc : q.claim.1 with
  | none =>
    have := length_le_of_claim_none hc
    rw [min_eq_right this, min_eq_right (this.trans (Nat.le_succ _)), Option.toList_none,
      List.append_nil]
  | some range =>
    have := lt_length_of_claim hc
    have hget : q.ranges[q.next.toNat]? = some range := hc
    rw [min_eq_left this.le, min_eq_left this, List.take_add_one, hget]

end WorkQueue

end Cdm
