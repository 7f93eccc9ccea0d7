import Cdm.Core.Error
import Mathlib.Data.UInt
import Mathlib.Algebra.BigOperators.Group.List.Basic

/-!
# Counters and the metrics string

A job registers some of thirteen counters.  Each has an interim level, which the work on a range
increments, and a committed level, which `flush` folds the interim level into and `add` merges from
one registry into another.  All of them are 64-bit and wrap.

The committed levels are rendered as a string, `Read: 10; Write: 9; …`, that is stored with the run;
a later run reads the number of failed partitions back out of it.
-/

namespace Cdm

/-- The counters. -/
inductive CounterKind
  /-- Rows read from the origin. -/
  | read
  /-- Rows written to the target. -/
  | write
  | mismatch
  | correctedMismatch
  | missing
  | correctedMissing
  | valid
  | skipped
  | large
  /-- Rows a failed range could not account for. -/
  | error
  /-- Writes issued but not yet flushed. -/
  | unflushed
  | partitionsPassed
  | partitionsFailed
  deriving DecidableEq, Repr

namespace CounterKind

/-- The name in the Prometheus, OTLP and REST output. -/
def asStr : CounterKind → String
  | read => "READ"
  | write => "WRITE"
  | mismatch => "MISMATCH"
  | correctedMismatch => "CORRECTED_MISMATCH"
  | missing => "MISSING"
  | correctedMissing => "CORRECTED_MISSING"
  | valid => "VALID"
  | skipped => "SKIPPED"
  | large => "LARGE"
  | error => "ERROR"
  | unflushed => "UNFLUSHED"
  | partitionsPassed => "PARTITIONS_PASSED"
  | partitionsFailed => "PARTITIONS_FAILED"

/-- The spelling in the metrics string. -/
def titleCase : CounterKind → String
  | read => "Read"
  | write => "Write"
  | mismatch => "Mismatch"
  | correctedMismatch => "Corrected Mismatch"
  | missing => "Missing"
  | correctedMissing => "Corrected Missing"
  | valid => "Valid"
  | skipped => "Skipped"
  | large => "Large"
  | error => "Error"
  | unflushed => "Unflushed"
  | partitionsPassed => "Partitions Passed"
  | partitionsFailed => "Partitions Failed"

/-- Whether this counter counts token ranges rather than records. -/
def isPartitionCounter : CounterKind → Bool
  | partitionsPassed | partitionsFailed => true
  | _ => false

/-- Whether the given job registers this counter. -/
def isRegisteredFor (kind : CounterKind) : JobKind → Bool
  | .migrate =>
    match kind with
    | read | write | skipped | error | unflushed | partitionsPassed | partitionsFailed => true
    | _ => false
  | .validate =>
    match kind with
    | read | valid | mismatch | correctedMismatch | missing | correctedMissing | skipped | error
    | partitionsPassed | partitionsFailed => true
    | _ => false
  | .guardrail =>
    match kind with
    | read | valid | skipped | large | partitionsPassed | partitionsFailed => true
    | _ => false

end CounterKind

/-- The counters a job registers, in rendering order. -/
def registeredCounters : JobKind → List CounterKind
  | .migrate => [.read, .write, .skipped, .error, .unflushed, .partitionsPassed, .partitionsFailed]
  | .validate =>
    [.read, .mismatch, .correctedMismatch, .missing, .correctedMissing, .valid, .skipped, .error,
      .partitionsPassed, .partitionsFailed]
  | .guardrail => [.read, .valid, .skipped, .large, .partitionsPassed, .partitionsFailed]

theorem mem_registeredCounters {kind : CounterKind} {job : JobKind} :
    kind ∈ registeredCounters job ↔ kind.isRegisteredFor job = true := by
  cases job <;> cases kind <;> decide

/-- Which level of a counter is read. -/
inductive CounterView
  | interim
  | committed
  deriving DecidableEq, Repr

/-- One counter's two levels. -/
structure CounterUnit where
  interim : UInt64 := 0
  committed : UInt64 := 0
  deriving DecidableEq, Repr

namespace CounterUnit

def get (u : CounterUnit) : CounterView → UInt64
  | .interim => u.interim
  | .committed => u.committed

def increment (u : CounterUnit) (by' : UInt64) : CounterUnit :=
  { u with interim := u.interim + by' }

/-- Folds the interim value into the total and clears it. -/
def flush (u : CounterUnit) : CounterUnit :=
  if u.interim ≠ 0 then ⟨0, u.committed + u.interim⟩ else u

def addCommitted (u : CounterUnit) (by' : UInt64) : CounterUnit :=
  { u with committed := u.committed + by' }

end CounterUnit

/-- A counter that a job is known to register. -/
structure Counter where
  kind : CounterKind
  job : JobKind
  deriving DecidableEq, Repr

/-- The counters of one job, or of one range within it. -/
structure JobCounters where
  job : JobKind
  units : CounterKind → CounterUnit

namespace JobCounters

/-- All counters at zero. -/
def new (job : JobKind) : JobCounters := ⟨job, fun _ => {}⟩

def registered (c : JobCounters) : List CounterKind := registeredCounters c.job

def isRegistered (c : JobCounters) (kind : CounterKind) : Bool := kind.isRegisteredFor c.job

/-- Resolves a counter to a token. -/
def counter (c : JobCounters) (kind : CounterKind) : Except CdmError Counter :=
  if kind.isRegisteredFor c.job then .ok ⟨kind, c.job⟩
  else .error ⟨.internal,
    "counter " ++ kind.asStr ++ " is not registered for the " ++ c.job.asStr ++
      " job; it registers " ++ ", ".intercalate (c.registered.map CounterKind.asStr), {}⟩

/-- Adds `n` to a counter's interim value. -/
def incrementBy (c : JobCounters) (counter : Counter) (n : UInt64) : JobCounters :=
  { c with units := Function.update c.units counter.kind ((c.units counter.kind).increment n) }

/-- Adds `n` to the interim value of a counter, if the job registers it. -/
def incrementKind (c : JobCounters) (kind : CounterKind) (n : UInt64) : JobCounters :=
  match c.counter kind with
  | .ok counter => c.incrementBy counter n
  | .error _ => c

/-- One level of a counter; zero for one this job does not register. -/
def countOf (c : JobCounters) (kind : CounterKind) (view : CounterView) : UInt64 :=
  if c.isRegistered kind then (c.units kind).get view else 0

/-- Folds every registered interim value into its total. -/
def flush (c : JobCounters) : JobCounters :=
  { c with units := fun kind => if c.isRegistered kind then (c.units kind).flush else c.units kind }

/-- Discards the interim value of a counter, if the job registers it. -/
def reset (c : JobCounters) (kind : CounterKind) : JobCounters :=
  match c.counter kind with
  | .ok counter =>
    { c with units := Function.update c.units counter.kind { c.units counter.kind with interim := 0 } }
  | .error _ => c

/-- Merges another registry's committed values into this one's. -/
def add (c other : JobCounters) : Except CdmError JobCounters :=
  if other.job = c.job then
    .ok { c with
      units := fun kind =>
        let value := (other.units kind).committed
        if c.isRegistered kind ∧ value ≠ 0 then (c.units kind).addCommitted value else c.units kind }
  else .error ⟨.internal,
    "cannot merge " ++ other.job.asStr ++ " counters into " ++ c.job.asStr ++ " counters", {}⟩

/-- The separator of the metrics string. -/
def metricSeparator : String := "; "

/-- One entry of the metrics string. -/
def entry (c : JobCounters) (view : CounterView) (kind : CounterKind) : String :=
  kind.titleCase ++ ": " ++ toString (c.countOf kind view)

/-- The metrics string. -/
def metrics (c : JobCounters) (view : CounterView) : String :=
  metricSeparator.intercalate
    ((c.registered.filter fun kind => view = .interim || kind ≠ .unflushed).map (c.entry view))

/-- The string stored with a range and with a run. -/
def runInfo (c : JobCounters) : String := c.metrics .committed

/-! ### The committed level -/

/-- The committed value of a registered counter. -/
abbrev committed (c : JobCounters) (kind : CounterKind) : UInt64 := c.countOf kind .committed

theorem CounterUnit.committed_flush (u : CounterUnit) :
    u.flush.committed = u.committed + u.interim := by
  unfold CounterUnit.flush
  split_ifs with h
  · rfl
  · rw [not_not.1 h, UInt64.add_zero]

@[simp] theorem job_flush (c : JobCounters) : c.flush.job = c.job := rfl

@[simp] theorem committed_new (job : JobKind) (kind : CounterKind) :
    (new job).committed kind = 0 := by
  unfold committed countOf
  split_ifs <;> rfl

/-- A flush credits the interim level. -/
theorem committed_flush (c : JobCounters) (kind : CounterKind) :
    c.flush.committed kind = c.committed kind + c.countOf kind .interim := by
  unfold committed countOf isRegistered flush
  by_cases h : kind.isRegisteredFor c.job = true
  · simp only [h, if_true, isRegistered]
    exact CounterUnit.committed_flush _
  · simp [h]

/-- A registry without interim work is left alone by a flush. -/
theorem committed_flush_of_idle {c : JobCounters} {kind : CounterKind}
    (h : (c.units kind).interim = 0) : c.flush.committed kind = c.committed kind := by
  rw [committed_flush]
  simp [countOf, CounterUnit.get, h]

@[simp] theorem job_incrementKind (c : JobCounters) (kind : CounterKind) (n : UInt64) :
    (c.incrementKind kind n).job = c.job := by
  unfold incrementKind
  split <;> rfl

/-- Counting one thing changes its interim level only. -/
theorem countOf_incrementKind (c : JobCounters) (kind kind' : CounterKind) (n : UInt64)
    (view : CounterView) :
    (c.incrementKind kind' n).countOf kind view =
      c.countOf kind view +
        if kind = kind' ∧ view = .interim ∧ c.isRegistered kind' = true then n else 0 := by
  unfold incrementKind counter
  by_cases hreg : kind'.isRegisteredFor c.job = true
  · by_cases hk : kind = kind'
    · subst hk
      cases view <;>
        simp [countOf, isRegistered, hreg, incrementBy, CounterUnit.increment, CounterUnit.get]
    · have hsame : ¬ (kind = kind' ∧ view = .interim ∧ c.isRegistered kind' = true) :=
        fun h => hk h.1
      rw [if_pos hreg, if_neg hsame, UInt64.add_zero]
      simp only [countOf, isRegistered, incrementBy, Function.update_of_ne hk]
      rfl
  · simp [isRegistered, hreg]

@[simp] theorem job_reset (c : JobCounters) (kind : CounterKind) : (c.reset kind).job = c.job := by
  unfold reset
  split <;> rfl

/-- A reset clears one interim level. -/
theorem countOf_reset (c : JobCounters) (kind kind' : CounterKind) (view : CounterView) :
    (c.reset kind').countOf kind view =
      if kind = kind' ∧ view = .interim then 0 else c.countOf kind view := by
  unfold reset counter
  by_cases hreg : kind'.isRegisteredFor c.job = true
  · by_cases hk : kind = kind'
    · subst hk
      cases view <;> simp [countOf, isRegistered, hreg, CounterUnit.get]
    · rw [if_pos hreg, if_neg fun h => hk h.1]
      simp only [countOf, isRegistered, Function.update_of_ne hk]
      rfl
  · rw [if_neg hreg]
    by_cases hk : kind = kind' ∧ view = .interim
    · rw [if_pos hk, countOf, isRegistered, hk.1, if_neg hreg]
    · rw [if_neg hk]

theorem add_eq_ok {c other c' : JobCounters} (h : c.add other = .ok c') :
    other.job = c.job ∧ c'.job = c.job ∧
      ∀ kind, c'.committed kind = c.committed kind + other.committed kind ∧
        (c'.units kind).interim = (c.units kind).interim := by
  unfold add at h
  split_ifs at h with hjob
  cases h
  refine ⟨hjob, rfl, fun kind => ?_⟩
  unfold committed countOf isRegistered
  rw [hjob]
  by_cases hreg : kind.isRegisteredFor c.job = true
  · by_cases hval : (other.units kind).committed = 0
    · simp [hreg, hval, CounterUnit.get]
    · simp [hreg, hval, CounterUnit.get, CounterUnit.addCommitted]
  · simp [hreg]

theorem exists_add {c other : JobCounters} (h : other.job = c.job) : ∃ c', c.add other = .ok c' := by
  unfold add
  rw [if_pos h]
  exact ⟨_, rfl⟩

/-! ### Counting -/

/-- The registry of a range has counted `f kind` of each kind it registers, and nothing has been
flushed yet. -/
structure Counts (c : JobCounters) (f : CounterKind → ℕ) : Prop where
  interim : ∀ kind, c.isRegistered kind = true → c.countOf kind .interim = .ofNat (f kind)
  committed : ∀ kind, c.committed kind = 0

namespace Counts

variable {c : JobCounters} {f : CounterKind → ℕ}

theorem new (job : JobKind) : Counts (.new job) fun _ => 0 where
  interim kind hreg := by
    rw [countOf, if_pos hreg]
    rfl
  committed := committed_new job

theorem increment (h : c.Counts f) (kind : CounterKind) (n : ℕ) :
    (c.incrementKind kind (.ofNat n)).Counts (Function.update f kind (f kind + n)) where
  interim kind' hreg := by
    have hreg' : c.isRegistered kind' = true := by
      rwa [isRegistered, job_incrementKind] at hreg
    rw [countOf_incrementKind, h.interim kind' hreg']
    by_cases hkind : kind' = kind
    · subst hkind
      simp [hreg', UInt64.ofNat_add]
    · simp [hkind]
  committed kind' := by
    show (c.incrementKind kind (.ofNat n)).countOf kind' .committed = 0
    rw [countOf_incrementKind, if_neg (by simp), UInt64.add_zero]
    exact h.committed kind'

theorem reset (h : c.Counts f) (kind : CounterKind) :
    (c.reset kind).Counts (Function.update f kind 0) where
  interim kind' hreg := by
    have hreg' : c.isRegistered kind' = true := by
      rwa [isRegistered, job_reset] at hreg
    rw [countOf_reset, Function.update_apply]
    by_cases hkind : kind' = kind
    · simp [hkind]
    · simp [hkind, h.interim kind' hreg']
  committed kind' := by
    show (c.reset kind).countOf kind' .committed = 0
    rw [countOf_reset, if_neg (by simp)]
    exact h.committed kind'

/-- A flush credits what has been counted. -/
theorem committed_flush (h : c.Counts f) {kind : CounterKind} (hreg : c.isRegistered kind = true) :
    c.flush.committed kind = .ofNat (f kind) := by
  rw [JobCounters.committed_flush, h.committed, h.interim kind hreg, UInt64.zero_add]

end Counts

/-! ### The metrics string -/

/-- The counters of the stored string; the number of failed partitions comes last. -/
theorem exists_rendered (job : JobKind) : ∃ kinds, kinds ≠ [] ∧
    (registeredCounters job).filter (fun kind =>
      CounterView.committed = .interim || kind ≠ .unflushed) = kinds ++ [CounterKind.partitionsFailed] := by
  cases job
  · exact ⟨[.read, .write, .skipped, .error, .partitionsPassed], by decide, by decide⟩
  · exact ⟨[.read, .mismatch, .correctedMismatch, .missing, .correctedMissing, .valid, .skipped,
      .error, .partitionsPassed], by decide, by decide⟩
  · exact ⟨[.read, .valid, .skipped, .large, .partitionsPassed], by decide, by decide⟩

/-- The stored string ends with the number of failed partitions. -/
theorem runInfo_eq (c : JobCounters) :
    ∃ start, c.runInfo = start ++ metricSeparator ++ c.entry .committed .partitionsFailed := by
  obtain ⟨kinds, hne, hkinds⟩ := exists_rendered c.job
  unfold runInfo metrics registered
  rw [hkinds, List.map_append, String.intercalate_append_of_ne_nil (by simpa using hne) (by simp)]
  exact ⟨_, rfl⟩

/-- The stored string starts with the number of rows read. -/
theorem runInfo_eq_read (c : JobCounters) : ∃ rest, c.runInfo.toList = "Read".toList ++ rest := by
  have hread : ∃ kinds, kinds ≠ [] ∧ (registeredCounters c.job).filter (fun kind =>
      CounterView.committed = .interim || kind ≠ .unflushed) = .read :: kinds := by
    cases c.job
    · exact ⟨_, by decide, rfl⟩
    · exact ⟨_, by decide, rfl⟩
    · exact ⟨_, by decide, rfl⟩
  obtain ⟨kinds, hne, hkinds⟩ := hread
  unfold runInfo metrics registered
  rw [hkinds, List.map_cons, String.intercalate_cons_of_ne_nil (by simpa using hne), entry]
  simp only [String.toList_append, List.append_assoc]
  exact ⟨_, rfl⟩

end JobCounters

end Cdm
