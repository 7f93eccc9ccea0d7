import Cdm.LTS.Basic
import Cdm.Lib.Tally
import Cdm.Metrics.Registry

/-!
# Counters under concurrency

A registry is shared by the tasks that work on a range, and none of its methods is atomic: a flush
swaps each interim level out and adds it to the committed one in a second step, and a merge reads a
committed level before it adds it to the other registry's.  Here every atomic step is one of its own,
and a run is any interleaving of the steps of any number of tasks.
-/

universe u v

namespace Cdm

open JobCounters List

/-- An atomic step of a method of `JobCounters`, on the registries `ρ`. -/
inductive CounterOp (ρ : Type*)
  /-- `increment_by`: `interim.fetch_add`. -/
  | increment (registry : ρ) (kind : CounterKind) (n : UInt64)
  /-- `flush`: `interim.swap(0)`. -/
  | swap (registry : ρ) (kind : CounterKind)
  /-- `flush`: `committed.fetch_add` of what was swapped out. -/
  | credit (registry : ρ) (kind : CounterKind) (value : UInt64)
  /-- `add`: `committed.load` of the other registry. -/
  | load (into source : ρ) (kind : CounterKind)
  /-- `add`: `committed.fetch_add` of what was loaded. -/
  | merge (into : ρ) (kind : CounterKind) (value : UInt64)
  /-- Wait for the tasks that work on a registry. -/
  | join (registry : ρ)
  deriving DecidableEq

/-- A call a task makes. -/
inductive CounterCall (ρ : Type*)
  | incrementBy (registry : ρ) (counter : Counter) (n : UInt64)
  | flush (registry : ρ)
  | add (into source : ρ)
  | join (registry : ρ)
  deriving DecidableEq

/-- A task: the registry it works on, when another task waits for it, and the steps it has still to
take. -/
structure CounterTask (ρ : Type*) where
  worksOn : Option ρ
  ops : List (CounterOp ρ)
  deriving DecidableEq

/-- The registries, and the tasks that share them. -/
structure Racing (ρ : Type*) where
  registries : ρ → JobCounters
  tasks : List (CounterTask ρ)

/-- A registry with one counter changed. -/
def JobCounters.modifyUnit (c : JobCounters) (kind : CounterKind) (f : CounterUnit → CounterUnit) :
    JobCounters :=
  { c with units := Function.update c.units kind (f (c.units kind)) }

variable {ρ : Type*} [DecidableEq ρ]

/-- The steps of a call; `add` returns an error, and does nothing, for registries of two jobs. -/
def CounterCall.ops (job : ρ → JobKind) : CounterCall ρ → List (CounterOp ρ)
  | incrementBy registry counter n => [.increment registry counter.kind n]
  | flush registry => (registeredCounters (job registry)).map (.swap registry)
  | add into source =>
    if job source = job into then (registeredCounters (job into)).map (.load into source) else []
  | join registry => [.join registry]

namespace Racing

/-- One counter of one registry changed. -/
def update (registries : ρ → JobCounters) (registry : ρ) (kind : CounterKind)
    (f : CounterUnit → CounterUnit) : ρ → JobCounters :=
  Function.update registries registry ((registries registry).modifyUnit kind f)

/-- What a step does to the registries, and what it leaves to be done right after it. -/
def perform (registries : ρ → JobCounters) :
    CounterOp ρ → (ρ → JobCounters) × List (CounterOp ρ)
  | .increment registry kind n => (update registries registry kind (·.increment n), [])
  | .swap registry kind =>
    let interim := ((registries registry).units kind).interim
    (update registries registry kind fun u => { u with interim := 0 },
      if interim ≠ 0 then [.credit registry kind interim] else [])
  | .credit registry kind value => (update registries registry kind (·.addCommitted value), [])
  | .load into source kind =>
    let value := ((registries source).units kind).committed
    (registries, if value ≠ 0 then [.merge into kind value] else [])
  | .merge into kind value => (update registries into kind (·.addCommitted value), [])
  | .join _ => (registries, [])

/-- The tasks that work on a registry have finished. -/
def joined (s : Racing ρ) (registry : ρ) : Bool :=
  s.tasks.all fun task => task.worksOn ≠ some registry || task.ops.isEmpty

/-- Whether a step can be taken: a join has to wait. -/
def enabled (s : Racing ρ) : CounterOp ρ → Bool
  | .join registry => s.joined registry
  | _ => true

/-- The state after task `i`, at `task`, has taken the step `op`. -/
def after (s : Racing ρ) (i : ℕ) (task : CounterTask ρ) (op : CounterOp ρ)
    (rest : List (CounterOp ρ)) : Racing ρ where
  registries := (perform s.registries op).1
  tasks := s.tasks.set i { task with ops := (perform s.registries op).2 ++ rest }

/-- All interleavings: the label says which task takes its next step. -/
def steps : LTS (Racing ρ) ℕ where
  step s i :=
    match s.tasks[i]? with
    | some task =>
      match task.ops with
      | op :: rest => if s.enabled op then some (s.after i task op rest) else none
      | [] => none
    | none => none

/-- Every task has taken all of its steps. -/
def Finished (s : Racing ρ) : Prop := ∀ task ∈ s.tasks, task.ops = []

instance (s : Racing ρ) : Decidable s.Finished :=
  inferInstanceAs (Decidable (∀ task ∈ s.tasks, task.ops = []))

/-- The tasks of a list of calls. -/
def start (registries : ρ → JobCounters) (tasks : List (Option ρ × List (CounterCall ρ))) :
    Racing ρ where
  registries := registries
  tasks := tasks.map fun task =>
    ⟨task.1, task.2.flatMap (CounterCall.ops fun registry => (registries registry).job)⟩

theorem step_eq_some {s s' : Racing ρ} {i : ℕ} (h : steps.step s i = some s') :
    ∃ task op rest, s.tasks[i]? = some task ∧ task.ops = op :: rest ∧ s.enabled op = true ∧
      s' = s.after i task op rest := by
  simp only [steps] at h
  cases htask : s.tasks[i]? with
  | none =>
    rw [htask] at h
    cases h
  | some task =>
    rw [htask] at h
    cases hops : task.ops with
    | nil =>
      simp only [hops] at h
      cases h
    | cons op rest =>
      simp only [hops] at h
      split_ifs at h with henabled
      cases h
      exact ⟨task, op, rest, rfl, hops, henabled, rfl⟩

/-! ### Levels -/

theorem units_update (registries : ρ → JobCounters) (registry r : ρ) (kind k : CounterKind)
    (f : CounterUnit → CounterUnit) :
    (update registries registry kind f r).units k =
      if r = registry ∧ k = kind then f ((registries r).units k) else (registries r).units k := by
  unfold update modifyUnit
  by_cases hr : r = registry
  · subst hr
    by_cases hk : k = kind
    · subst hk
      simp
    · simp [hk]
  · simp [hr]

@[simp] theorem job_update (registries : ρ → JobCounters) (registry r : ρ) (kind : CounterKind)
    (f : CounterUnit → CounterUnit) : (update registries registry kind f r).job =
      (registries r).job := by
  unfold update modifyUnit
  by_cases hr : r = registry
  · subst hr
    simp
  · simp [hr]

@[simp] theorem job_perform (registries : ρ → JobCounters) (op : CounterOp ρ) (r : ρ) :
    ((perform registries op).1 r).job = (registries r).job := by
  cases op <;> simp [perform]

/-- The two levels of a counter together. -/
def level (registries : ρ → JobCounters) (r : ρ) (kind : CounterKind) : UInt64 :=
  ((registries r).units kind).interim + ((registries r).units kind).committed

/-- What a step still owes the counter `kind` of `r`, when a load from `source` is expected to read
`expects source kind`. -/
def weight (expects : ρ → CounterKind → UInt64) (r : ρ) (kind : CounterKind) :
    CounterOp ρ → UInt64
  | .increment registry k n => if registry = r ∧ k = kind then n else 0
  | .credit registry k value => if registry = r ∧ k = kind then value else 0
  | .merge into k value => if into = r ∧ k = kind then value else 0
  | .load into source k => if into = r ∧ k = kind then expects source k else 0
  | .swap _ _ => 0
  | .join _ => 0

/-- What a step reads out of another registry for the counter `kind` of `r`. -/
def reads (registries : ρ → JobCounters) (r : ρ) (kind : CounterKind) : CounterOp ρ → UInt64
  | .load into source k =>
    if into = r ∧ k = kind then ((registries source).units k).committed else 0
  | _ => 0

/-- What it was expected to read. -/
def expected (expects : ρ → CounterKind → UInt64) (r : ρ) (kind : CounterKind) :
    CounterOp ρ → UInt64
  | .load into source k => if into = r ∧ k = kind then expects source k else 0
  | _ => 0

/-- What a list of steps still owes. -/
def owed (expects : ρ → CounterKind → UInt64) (r : ρ) (kind : CounterKind)
    (ops : List (CounterOp ρ)) : UInt64 :=
  (ops.map (weight expects r kind)).sum

/-- What all tasks still owe. -/
def outstanding (expects : ρ → CounterKind → UInt64) (s : Racing ρ) (r : ρ) (kind : CounterKind) :
    UInt64 :=
  (s.tasks.map fun task => owed expects r kind task.ops).sum

/-- A counter's levels, with everything the tasks still owe it. -/
def potential (expects : ρ → CounterKind → UInt64) (s : Racing ρ) (r : ρ) (kind : CounterKind) :
    UInt64 :=
  level s.registries r kind + outstanding expects s r kind

theorem level_update (registries : ρ → JobCounters) (registry r : ρ) (kind k : CounterKind)
    (f : CounterUnit → CounterUnit) (n : UInt64)
    (hf : ∀ u, (f u).interim + (f u).committed = u.interim + u.committed + n) :
    level (update registries registry kind f) r k =
      level registries r k + if registry = r ∧ kind = k then n else 0 := by
  unfold level
  rw [units_update]
  by_cases h : r = registry ∧ k = kind
  · rw [if_pos h, if_pos ⟨h.1.symm, h.2.symm⟩, hf]
  · rw [if_neg h, if_neg fun h' => h ⟨h'.1.symm, h'.2.symm⟩, add_zero]

/-- **One step.** What a step adds to a counter's levels, and leaves owed, is what it owed before;
only a load puts what it read in the place of what it was expected to read. -/
theorem level_perform (expects : ρ → CounterKind → UInt64) (registries : ρ → JobCounters)
    (op : CounterOp ρ) (r : ρ) (kind : CounterKind) :
    level (perform registries op).1 r kind + owed expects r kind (perform registries op).2 +
        expected expects r kind op =
      level registries r kind + weight expects r kind op + reads registries r kind op := by
  cases op with
  | increment registry k n =>
    simp only [perform, owed, weight, reads, expected, map_nil, sum_nil, add_zero]
    exact level_update registries registry r k kind _ n fun u => by
      simp only [CounterUnit.increment]
      abel
  | swap registry k =>
    simp only [perform, weight, reads, expected, add_zero]
    unfold level
    rw [units_update]
    by_cases h : r = registry ∧ kind = k
    · obtain ⟨rfl, rfl⟩ := h
      by_cases hzero : ((registries r).units kind).interim = 0
      · simp [owed, hzero]
      · simp [owed, hzero, weight, add_comm]
    · have h' : ¬(registry = r ∧ k = kind) := fun e => h ⟨e.1.symm, e.2.symm⟩
      rw [if_neg h]
      split_ifs
      · simp [owed, weight, h']
      · simp [owed]
  | credit registry k value =>
    simp only [perform, owed, weight, reads, expected, map_nil, sum_nil, add_zero]
    exact level_update registries registry r k kind _ value fun u => by
      simp only [CounterUnit.addCommitted]
      abel
  | load into source k =>
    simp only [perform, weight, reads, expected]
    by_cases h : into = r ∧ k = kind
    · obtain ⟨rfl, rfl⟩ := h
      by_cases hzero : ((registries source).units k).committed = 0
      · simp [owed, hzero]
      · simp only [ne_eq, hzero, not_false_eq_true, if_true, owed, map_cons, map_nil,
          sum_cons, sum_nil, weight, and_self, add_zero]
        abel
    · split_ifs with hzero
      · simp [owed, weight, h]
      · simp [owed]
  | merge into k value =>
    simp only [perform, owed, weight, reads, expected, map_nil, sum_nil, add_zero]
    exact level_update registries into r k kind _ value fun u => by
      simp only [CounterUnit.addCommitted]
      abel
  | join registry => simp [perform, owed, weight, reads, expected]

variable {expects : ρ → CounterKind → UInt64}

theorem owed_cons (r : ρ) (kind : CounterKind) (op : CounterOp ρ) (ops : List (CounterOp ρ)) :
    owed expects r kind (op :: ops) = weight expects r kind op + owed expects r kind ops := by
  simp [owed]

theorem owed_append (r : ρ) (kind : CounterKind) (ops ops' : List (CounterOp ρ)) :
    owed expects r kind (ops ++ ops') = owed expects r kind ops + owed expects r kind ops' := by
  simp [owed]

/-- What a step does to the potential of a counter. -/
theorem potential_after (expects : ρ → CounterKind → UInt64) {s : Racing ρ} {i : ℕ}
    {task : CounterTask ρ} {op : CounterOp ρ}
    {rest : List (CounterOp ρ)} (htask : s.tasks[i]? = some task) (hops : task.ops = op :: rest)
    (r : ρ) (kind : CounterKind) :
    potential expects (s.after i task op rest) r kind + expected expects r kind op =
      potential expects s r kind + reads s.registries r kind op := by
  have hlevel := level_perform expects s.registries op r kind
  have hsum : outstanding expects (s.after i task op rest) r kind +
        (weight expects r kind op + owed expects r kind rest) =
      outstanding expects s r kind +
        (owed expects r kind (perform s.registries op).2 + owed expects r kind rest) := by
    rw [← owed_cons, ← owed_append, ← hops]
    exact Tally.sum_map_set htask _ fun task => owed expects r kind task.ops
  unfold potential
  simp only [show (s.after i task op rest).registries = (perform s.registries op).1 from rfl]
  -- what the step owed, and what it left owed, stand on both sides
  grind

/-! ### No increment is lost or duplicated -/

/-- A value that was read out of one registry to be merged into another. -/
structure Merged (ρ : Type*) where
  into : ρ
  kind : CounterKind
  value : UInt64

/-- What the next step of task `i` reads to be merged. -/
def merged (s : Racing ρ) (i : ℕ) : Option (Merged ρ) :=
  match (s.tasks[i]?).bind fun task => task.ops.head? with
  | some (.load into source kind) => some ⟨into, kind, ((s.registries source).units kind).committed⟩
  | _ => none

/-- What has been read for the counter `kind` of `r`. -/
def mergedInto (r : ρ) (kind : CounterKind) (values : List (Merged ρ)) : UInt64 :=
  (values.map fun m => if m.into = r ∧ m.kind = kind then m.value else 0).sum

/-- What a call adds to the counter `kind` of `r`. -/
def callIncrement (r : ρ) (kind : CounterKind) : CounterCall ρ → UInt64
  | .incrementBy registry counter n => if registry = r ∧ counter.kind = kind then n else 0
  | _ => 0

/-- The sum of all increments of the tasks. -/
def incremented (tasks : List (Option ρ × List (CounterCall ρ))) (r : ρ) (kind : CounterKind) :
    UInt64 :=
  (tasks.map fun task => (task.2.map (callIncrement r kind)).sum).sum

/-- Nothing is expected of a load. -/
def nothing : ρ → CounterKind → UInt64 := fun _ _ => 0

theorem owed_eq_zero {r : ρ} {kind : CounterKind} {ops : List (CounterOp ρ)}
    (h : ∀ op ∈ ops, weight expects r kind op = 0) : owed expects r kind ops = 0 := by
  unfold owed
  refine sum_eq_zero ?_
  intro x hx
  obtain ⟨op, hop, rfl⟩ := mem_map.1 hx
  exact h op hop

theorem outstanding_eq_zero {s : Racing ρ} {r : ρ} {kind : CounterKind}
    (h : ∀ task ∈ s.tasks, owed expects r kind task.ops = 0) :
    outstanding expects s r kind = 0 := by
  unfold outstanding
  refine sum_eq_zero ?_
  intro x hx
  obtain ⟨task, htask, rfl⟩ := mem_map.1 hx
  exact h task htask

/-- Finished tasks owe nothing. -/
theorem potential_of_finished {s : Racing ρ} (h : s.Finished) (r : ρ) (kind : CounterKind) :
    potential expects s r kind = level s.registries r kind := by
  have hzero : outstanding expects s r kind = 0 :=
    outstanding_eq_zero fun task htask => by rw [h task htask]; rfl
  rw [potential, hzero, add_zero]

/-- At the start a task owes its increments. -/
theorem owed_ops (job : ρ → JobKind) (r : ρ) (kind : CounterKind) (calls : List (CounterCall ρ)) :
    owed nothing r kind (calls.flatMap (CounterCall.ops job)) =
      (calls.map (callIncrement r kind)).sum := by
  induction calls with
  | nil => rfl
  | cons call calls ih =>
    rw [flatMap_cons, owed_append, ih, map_cons, sum_cons]
    congr 1
    cases call with
    | incrementBy registry counter n =>
      simp [CounterCall.ops, owed, weight, callIncrement]
    | flush registry =>
      refine owed_eq_zero ?_
      intro op hop
      obtain ⟨k, -, rfl⟩ := mem_map.1 hop
      rfl
    | add into source =>
      refine owed_eq_zero ?_
      intro op hop
      simp only [CounterCall.ops] at hop
      split_ifs at hop
      · obtain ⟨k, -, rfl⟩ := mem_map.1 hop
        simp [weight, nothing]
      · cases hop
    | join registry => simp [CounterCall.ops, owed, weight, callIncrement]

theorem potential_start (registries : ρ → JobCounters)
    (tasks : List (Option ρ × List (CounterCall ρ))) (r : ρ) (kind : CounterKind) :
    potential nothing (start registries tasks) r kind =
      level registries r kind + incremented tasks r kind := by
  unfold potential outstanding incremented start
  simp only [map_map, Function.comp_def, owed_ops]

/-- **No step loses or duplicates an increment.** After any interleaving, a counter's interim and
committed levels and what the tasks still owe it are its levels at the start, all increments of the
tasks, and what was read out of other registries for it. -/
theorem potential_eq {registries : ρ → JobCounters}
    {tasks : List (Option ρ × List (CounterCall ρ))} {ls : List ℕ} {s : Racing ρ}
    (h : steps.exec (start registries tasks) ls = some s) (r : ρ) (kind : CounterKind) :
    potential nothing s r kind =
      level registries r kind + incremented tasks r kind +
        mergedInto r kind (steps.outputs merged (start registries tasks) ls) := by
  refine LTS.exec_invariant_outputs (I := fun s values => potential nothing s r kind =
    level registries r kind + incremented tasks r kind + mergedInto r kind values) h ?_ ?_
  · rw [potential_start]
    simp [mergedInto]
  · intro s i s' values hI hstep
    obtain ⟨task, op, rest, htask, hops, -, rfl⟩ := step_eq_some hstep
    have hafter := potential_after nothing htask hops r kind
    have hexpected : expected (ρ := ρ) nothing r kind op = 0 := by
      cases op <;> simp [expected, nothing]
    have hread : mergedInto r kind (s.merged i).toList = reads s.registries r kind op := by
      simp only [merged, htask, Option.bind_some, hops, head?_cons]
      cases op <;> simp [mergedInto, reads]
    have hsplit : mergedInto r kind (values ++ (s.merged i).toList) =
        mergedInto r kind values + mergedInto r kind (s.merged i).toList := by
      simp [mergedInto]
    rw [hexpected, add_zero] at hafter
    rw [hafter, hI, hsplit, hread, add_assoc]

/-- The registries keep their jobs. -/
theorem job_of_exec {s₀ s : Racing ρ} {ls : List ℕ} (h : steps.exec s₀ ls = some s) (r : ρ) :
    (s.registries r).job = (s₀.registries r).job := by
  refine LTS.exec_invariant (I := fun s => (s.registries r).job = (s₀.registries r).job) h rfl ?_
  intro s i s' hI hstep
  obtain ⟨task, op, rest, -, -, -, rfl⟩ := step_eq_some hstep
  exact (job_perform s.registries op r).trans hI

omit [DecidableEq ρ] in
/-- A flush commits both levels of a registered counter. -/
theorem committed_flush_eq_level {registries : ρ → JobCounters} {r : ρ} {kind : CounterKind}
    (hkind : kind ∈ (registries r).registered) :
    (registries r).flush.committed kind = level registries r kind := by
  have hreg : (registries r).isRegistered kind = true := mem_registeredCounters.1 hkind
  rw [committed_flush, JobCounters.committed, countOf, countOf,
    if_pos hreg, if_pos hreg, level, add_comm]
  rfl

/-- Into a registry that no task merges into, nothing is merged. -/
theorem mergedInto_eq_zero {registries : ρ → JobCounters}
    {tasks : List (Option ρ × List (CounterCall ρ))} {ls : List ℕ} {s : Racing ρ} {r : ρ}
    (h : steps.exec (start registries tasks) ls = some s)
    (hadd : ∀ task ∈ tasks, ∀ source, .add r source ∉ task.2) (kind : CounterKind) :
    mergedInto r kind (steps.outputs merged (start registries tasks) ls) = 0 := by
  refine (LTS.exec_invariant_outputs (f := merged) (I := fun s values =>
    (∀ task ∈ s.tasks, ∀ source k, .load r source k ∉ task.ops) ∧ mergedInto r kind values = 0)
    h ⟨?_, rfl⟩ ?_).2
  · intro task htask source k hload
    obtain ⟨calls, hcalls, rfl⟩ := mem_map.1 htask
    obtain ⟨call, hcall, hop⟩ := mem_flatMap.1 hload
    cases call with
    | add into source' =>
      simp only [CounterCall.ops] at hop
      split_ifs at hop
      · obtain ⟨k', -, hk'⟩ := mem_map.1 hop
        cases hk'
        exact hadd calls hcalls source hcall
      · cases hop
    | _ => simp [CounterCall.ops] at hop
  · rintro s i s' values ⟨hloads, hzero⟩ hstep
    obtain ⟨task, op, rest, htask, hops, -, rfl⟩ := step_eq_some hstep
    have hnot := hloads task (mem_of_getElem? htask)
    refine ⟨?_, ?_⟩
    · intro task' htask' source k hload
      rcases mem_or_eq_of_mem_set htask' with hmem | rfl
      · exact hloads task' hmem source k hload
      · rcases mem_append.1 hload with hmem | hmem
        · cases op <;> simp_all [perform]
        · exact hnot source k (hops ▸ mem_cons_of_mem _ hmem)
    · have hread : mergedInto r kind (s.merged i).toList = 0 := by
        simp only [merged, htask, Option.bind_some, hops, head?_cons]
        cases op with
        | load into source k =>
          have hne : into ≠ r := by
            rintro rfl
            exact hnot source k (hops ▸ mem_cons_self)
          simp [mergedInto, hne]
        | _ => rfl
      have hsplit : mergedInto r kind (values ++ (s.merged i).toList) =
          mergedInto r kind values + mergedInto r kind (s.merged i).toList := by
        simp [mergedInto]
      rw [hsplit, hzero, hread, add_zero]

/-! ### Ranges merged once -/

section Ranges

variable {ι : Type*} [DecidableEq ι]

/-- What a task that works on a range calls. -/
inductive RangeCall
  | incrementBy (counter : Counter) (n : UInt64)
  | flush
  deriving DecidableEq

/-- The call, on the registry of range `i`. -/
def RangeCall.on (i : ι) : RangeCall → CounterCall (Option ι)
  | incrementBy counter n => .incrementBy (some i) counter n
  | flush => .flush (some i)

/-- The tasks of a run: any number of tasks for each range, and for each of `ranges` one that waits
for them, flushes the range's registry and merges it into the run's, which is `none`. -/
def mergingTasks (workers : List (ι × List RangeCall)) (ranges : List ι) :
    List (Option (Option ι) × List (CounterCall (Option ι))) :=
  workers.map (fun w => (some (some w.1), w.2.map (RangeCall.on w.1))) ++
    ranges.map fun i => (none, [CounterCall.join (some i), CounterCall.flush (some i),
      CounterCall.add none (some i)])

/-- What a task of the run is for. -/
inductive Role (ι : Type*)
  | worker (i : ι)
  | owner (i : ι)

/-- The roles of the tasks, in order. -/
def roles (workers : List (ι × List RangeCall)) (ranges : List ι) : List (Role ι) :=
  workers.map (fun w => Role.worker w.1) ++ ranges.map Role.owner

/-- The range a task is for. -/
def Role.range : Role ι → ι
  | worker i | owner i => i

/-- Whether other tasks wait for it. -/
def Role.worksOn : Role ι → Option (Option ι)
  | worker i => some (some i)
  | owner _ => none

/-- The steps a task takes, by its role: a worker counts and flushes on the range's registry; an owner
waits, flushes and merges into the run's. -/
def Role.Takes (job : JobKind) : Role ι → CounterOp (Option ι) → Prop
  | worker i, .increment r _ _ | worker i, .swap r _ | worker i, .credit r _ _ => r = some i
  | owner i, .join r | owner i, .swap r _ | owner i, .credit r _ _ => r = some i
  | owner i, .load into source kind =>
    into = none ∧ source = some i ∧ kind ∈ registeredCounters job
  | owner _, .merge into _ _ => into = none
  | _, _ => False

/-- The phase a step belongs to: waiting, counting and flushing, merging. -/
def phase : CounterOp (Option ι) → ℕ
  | .join _ => 0
  | .increment .. | .swap .. | .credit .. => 1
  | .load .. | .merge .. => 2

/-- What a task has still to do: the steps of its role, in the order of their phases. -/
structure Fits (job : JobKind) (role : Role ι) (task : CounterTask (Option ι)) : Prop where
  worksOn : task.worksOn = role.worksOn
  takes : ∀ op ∈ task.ops, role.Takes job op
  ordered : task.ops.Pairwise fun op op' => phase op ≤ phase op'

/-- What holds in every state of such a run. -/
structure Merging (job : JobKind) (roles : List (Role ι)) (total : ι → CounterKind → UInt64)
    (sum : CounterKind → UInt64) (s : Racing (Option ι)) : Prop where
  length : s.tasks.length = roles.length
  fits : ∀ (n : ℕ) role task, roles[n]? = some role → s.tasks[n]? = some task → Fits job role task
  /-- An owner that still waits has every counter to flush. -/
  waits : ∀ (n : ℕ) i task, roles[n]? = some (.owner i) → s.tasks[n]? = some task →
    .join (some i) ∈ task.ops → ∀ kind ∈ registeredCounters job, .swap (some i) kind ∈ task.ops
  /-- An owner that has stopped waiting works alone, and has cleared what it has swapped. -/
  alone : ∀ (n : ℕ) i task, roles[n]? = some (.owner i) → s.tasks[n]? = some task →
    .join (some i) ∉ task.ops →
      (∀ (m : ℕ) worker, roles[m]? = some (.worker i) → s.tasks[m]? = some worker →
        worker.ops = []) ∧
      ∀ kind ∈ registeredCounters job, .swap (some i) kind ∉ task.ops →
        ((s.registries (some i)).units kind).interim = 0
  /-- Nothing is counted on the run's registry itself. -/
  idle : ∀ kind, ((s.registries none).units kind).interim = 0
  range : ∀ i kind, potential nothing s (some i) kind = total i kind
  run : ∀ kind, potential (fun r k => r.elim 0 fun i => total i k) s none kind = sum kind

variable {job : JobKind} {roles : List (Role ι)} {total : ι → CounterKind → UInt64}
  {sum : CounterKind → UInt64} {s : Racing (Option ι)}

/-! #### One step of a task -/

/-- A task owes nothing to a range that is not its own. -/
theorem weight_of_ne {role : Role ι} {j : ι} (hne : role.range ≠ j) {op : CounterOp (Option ι)}
    (h : role.Takes job op) (kind : CounterKind) : weight nothing (some j) kind op = 0 := by
  cases role <;> cases op <;> simp_all [Role.Takes, Role.range, weight]

/-- Nor does a merge owe anything to a range. -/
theorem weight_of_merging {role : Role ι} {op : CounterOp (Option ι)} (h : role.Takes job op)
    (hphase : phase op = 2) (kind : CounterKind) (j : ι) :
    weight nothing (some j) kind op = 0 := by
  cases role <;> cases op <;> simp_all [Role.Takes, phase, weight]

/-- A task does not touch a range that is not its own. -/
theorem perform_of_ne {role : Role ι} {j : ι} (hne : role.range ≠ j) {op : CounterOp (Option ι)}
    (h : role.Takes job op) (registries : Option ι → JobCounters) (kind : CounterKind) :
    ((perform registries op).1 (some j)).units kind = (registries (some j)).units kind := by
  cases role <;> cases op <;>
    simp_all [Role.Takes, Role.range, perform, units_update, eq_comm]

/-- An owner changes no interim level but the one it swaps out. -/
theorem interim_perform_owner {i : ι} {op : CounterOp (Option ι)}
    (h : (Role.owner i).Takes job op) (registries : Option ι → JobCounters) (kind : CounterKind) :
    (((perform registries op).1 (some i)).units kind).interim =
      if op = .swap (some i) kind then 0 else ((registries (some i)).units kind).interim := by
  cases op with
  | increment r k n => cases h
  | swap r k =>
    cases h
    simp only [perform, units_update, true_and, CounterOp.swap.injEq]
    by_cases hk : kind = k
    · simp [hk]
    · simp [hk, Ne.symm hk]
  | credit r k value =>
    simp only [perform, units_update]
    split_ifs <;> simp_all [CounterUnit.addCommitted]
  | load into source k => simp [perform]
  | merge into k value =>
    cases h
    simp [perform, units_update]
  | join r => simp [perform]

/-- No task changes an interim level of the run's registry. -/
theorem interim_perform_none {role : Role ι} {op : CounterOp (Option ι)} (h : role.Takes job op)
    (registries : Option ι → JobCounters) (kind : CounterKind) :
    (((perform registries op).1 none).units kind).interim =
      ((registries none).units kind).interim := by
  cases role <;> cases op <;>
    simp_all [Role.Takes, perform, units_update, CounterUnit.addCommitted, apply_ite]

/-- What a step leaves to be done is of its own phase and role. -/
theorem left_perform {role : Role ι} {op : CounterOp (Option ι)} (h : role.Takes job op)
    (registries : Option ι → JobCounters) :
    ∀ op' ∈ (perform registries op).2, phase op' = phase op ∧ role.Takes job op' := by
  intro op' hop'
  cases role <;> cases op <;> simp_all [Role.Takes, perform, phase]

theorem Fits.after {role : Role ι} {task : CounterTask (Option ι)} {op : CounterOp (Option ι)}
    {rest : List (CounterOp (Option ι))} (h : Fits job role task) (hops : task.ops = op :: rest)
    (registries : Option ι → JobCounters) :
    Fits job role { task with ops := (perform registries op).2 ++ rest } := by
  have htakes := h.takes op (hops ▸ mem_cons_self)
  have hleft := left_perform htakes registries
  have hordered := h.ordered
  rw [hops, pairwise_cons] at hordered
  refine ⟨h.worksOn, ?_, ?_⟩
  · intro op' hop'
    rcases mem_append.1 hop' with hop' | hop'
    · exact (hleft op' hop').2
    · exact h.takes op' (hops ▸ mem_cons_of_mem _ hop')
  · refine pairwise_append.2 ⟨?_, hordered.2, ?_⟩
    · refine pairwise_of_forall_mem_list ?_
      intro a ha b hb
      rw [(hleft a ha).1, (hleft b hb).1]
    · intro a ha b hb
      rw [(hleft a ha).1]
      exact hordered.1 b hb

namespace Merging

variable (h : Merging job roles total sum s)
  (hunique : ∀ (n m : ℕ) i, roles[n]? = some (.owner i) → roles[m]? = some (.owner i) → n = m)

include h

theorem exists_role {n : ℕ} {task : CounterTask (Option ι)}
    (htask : s.tasks[n]? = some task) : ∃ role, roles[n]? = some role := by
  have hlt := (List.getElem?_eq_some_iff.1 htask).1
  rw [h.length] at hlt
  exact ⟨_, getElem?_eq_getElem hlt⟩

include hunique in
/-- An owner that has only to merge finds the range's committed level complete. -/
theorem committed_of_merging {n : ℕ} {i : ι} {task : CounterTask (Option ι)} (hrole : roles[n]? = some (.owner i))
    (htask : s.tasks[n]? = some task) (hmerging : ∀ op ∈ task.ops, phase op = 2)
    {kind : CounterKind} (hkind : kind ∈ registeredCounters job) :
    ((s.registries (some i)).units kind).committed = total i kind := by
  have hjoin : .join (some i) ∉ task.ops := fun hmem => by simpa [phase] using hmerging _ hmem
  have hswap : .swap (some i) kind ∉ task.ops := fun hmem => by simpa [phase] using hmerging _ hmem
  obtain ⟨hworkers, hinterim⟩ := h.alone n i task hrole htask hjoin
  have hzero : outstanding nothing s (some i) kind = 0 := by
    refine outstanding_eq_zero ?_
    intro task' hmem
    obtain ⟨m, hm⟩ := mem_iff_getElem?.1 hmem
    obtain ⟨role, hrole'⟩ := h.exists_role hm
    have htakes := (h.fits m role task' hrole' hm).takes
    by_cases hne : role.range = i
    · cases role with
      | worker j =>
        cases hne
        rw [hworkers m task' hrole' hm]
        rfl
      | owner j =>
        cases hne
        cases hunique n m _ hrole hrole'
        cases htask.symm.trans hm
        exact owed_eq_zero fun op hop => weight_of_merging (htakes op hop) (hmerging op hop) kind _
    · exact owed_eq_zero fun op hop => weight_of_ne hne (htakes op hop) kind
  have hrange := h.range i kind
  rw [potential, hzero, add_zero, level, hinterim kind hkind hswap, zero_add] at hrange
  exact hrange

/-! #### Every step keeps the invariant -/

section Step

variable {n : ℕ} {role : Role ι} {task : CounterTask (Option ι)} {op : CounterOp (Option ι)}
  {rest : List (CounterOp (Option ι))}

omit h in
/-- After a step of task `n`, the other tasks are where they were. -/
theorem tasks_after {m : ℕ} {task' : CounterTask (Option ι)}
    (h : (s.after n task op rest).tasks[m]? = some task') :
    (m = n ∧ task' = { task with ops := (perform s.registries op).2 ++ rest }) ∨
      (m ≠ n ∧ s.tasks[m]? = some task') := by
  simp only [after, getElem?_set] at h
  by_cases hm : n = m
  · rw [if_pos hm] at h
    split_ifs at h
    exact .inl ⟨hm.symm, (Option.some_inj.1 h).symm⟩
  · rw [if_neg hm] at h
    exact .inr ⟨Ne.symm hm, h⟩

/-- A step that waits only is taken when the tasks it waits for have finished. -/
theorem ops_of_enabled_join {i : ι}
    (henabled : s.enabled (.join (some i)) = true) {m : ℕ} {worker : CounterTask (Option ι)}
    (hrole : roles[m]? = some (.worker i)) (hworker : s.tasks[m]? = some worker) :
    worker.ops = [] := by
  have hall := all_eq_true.1 henabled worker (mem_of_getElem? hworker)
  have hworks : worker.worksOn = some (some i) := (h.fits m _ worker hrole hworker).worksOn
  simpa [hworks] using hall

theorem waits_after (hrole : roles[n]? = some role) (htask : s.tasks[n]? = some task)
    (hops : task.ops = op :: rest) :
    ∀ (m : ℕ) i task', roles[m]? = some (.owner i) →
      (s.after n task op rest).tasks[m]? = some task' → .join (some i) ∈ task'.ops →
      ∀ kind ∈ registeredCounters job, .swap (some i) kind ∈ task'.ops := by
  intro m i task' hm htask' hjoin kind hkind
  obtain ⟨rfl, rfl⟩ | ⟨hne, hsame⟩ := tasks_after htask'
  · have hfits := h.fits m _ task hrole htask
    have hleft := left_perform (hfits.takes op (hops ▸ mem_cons_self)) s.registries
    have hordered := hfits.ordered
    rw [hops, pairwise_cons] at hordered
    have hphase : phase op = 0 := by
      rcases mem_append.1 hjoin with hmem | hmem
      · exact (hleft _ hmem).1.symm
      · exact Nat.le_zero.1 (hordered.1 _ hmem)
    have hbefore : .join (some i) ∈ task.ops := by
      rcases mem_append.1 hjoin with hmem | hmem
      · cases op <;> simp_all [phase, perform]
      · exact hops ▸ mem_cons_of_mem _ hmem
    have hswap := h.waits m i task hm htask hbefore kind hkind
    rw [hops] at hswap
    rcases mem_cons.1 hswap with heq | hmem
    · rw [← heq] at hphase
      cases hphase
    · exact mem_append_right _ hmem
  · exact h.waits m i task' hm hsame hjoin kind hkind

include hunique

theorem alone_after (hrole : roles[n]? = some role) (htask : s.tasks[n]? = some task)
    (hops : task.ops = op :: rest) (henabled : s.enabled op = true) :
    ∀ (m : ℕ) i task', roles[m]? = some (.owner i) →
      (s.after n task op rest).tasks[m]? = some task' → .join (some i) ∉ task'.ops →
      (∀ (m : ℕ) worker, roles[m]? = some (.worker i) →
        (s.after n task op rest).tasks[m]? = some worker → worker.ops = []) ∧
      ∀ kind ∈ registeredCounters job, .swap (some i) kind ∉ task'.ops →
        (((s.after n task op rest).registries (some i)).units kind).interim = 0 := by
  intro m i task' hm htask' hjoin
  have htakes := (h.fits n role task hrole htask).takes op (hops ▸ mem_cons_self)
  obtain ⟨rfl, rfl⟩ | ⟨hne, hsame⟩ := tasks_after htask'
  · -- the owner itself moves
    cases hm.symm.trans hrole
    have hworkers : ∀ (k : ℕ) worker, roles[k]? = some (.worker i) → s.tasks[k]? = some worker →
        worker.ops = [] := by
      intro k worker hk hworker
      by_cases hop : op = .join (some i)
      · subst hop
        exact ops_of_enabled_join h henabled hk hworker
      · have hbefore : .join (some i) ∉ task.ops := by
          rw [hops]
          rintro hmem
          rcases mem_cons.1 hmem with heq | hmem
          · exact hop heq.symm
          · exact hjoin (mem_append_right _ hmem)
        exact (h.alone m i task hm htask hbefore).1 k worker hk hworker
    refine ⟨?_, ?_⟩
    · intro k worker hk hworker
      obtain ⟨rfl, -⟩ | ⟨-, hsame⟩ := tasks_after hworker
      · cases hk.symm.trans hm
      · exact hworkers k worker hk hsame
    · intro kind hkind hswap
      show (((perform s.registries op).1 (some i)).units kind).interim = 0
      rw [interim_perform_owner htakes]
      split_ifs with hop
      · rfl
      · have hnot : .swap (some i) kind ∉ task.ops := by
          rw [hops]
          intro hmem
          rcases mem_cons.1 hmem with heq | hmem
          · exact hop heq.symm
          · exact hswap (mem_append_right _ hmem)
        have hbefore : .join (some i) ∉ task.ops := fun hmem =>
          hnot (h.waits m i task hm htask hmem kind hkind)
        exact (h.alone m i task hm htask hbefore).2 kind hkind hnot
  · -- another task moves: it is no worker of the range, and not its owner
    obtain ⟨hworkers, hinterim⟩ := h.alone m i task' hm hsame hjoin
    have hrange : role.range ≠ i := by
      rintro rfl
      cases role with
      | worker j =>
        rw [hworkers n task hrole htask] at hops
        cases hops
      | owner j => exact hne (hunique m n _ hm hrole)
    refine ⟨?_, ?_⟩
    · intro k worker hk hworker
      obtain ⟨rfl, rfl⟩ | ⟨-, hsame⟩ := tasks_after hworker
      · cases hk.symm.trans hrole
        exact absurd rfl hrange
      · exact hworkers k worker hk hsame
    · intro kind hkind hswap
      show (((perform s.registries op).1 (some i)).units kind).interim = 0
      rw [perform_of_ne hrange htakes]
      exact hinterim kind hkind hswap

/-- A load reads what it is expected to read. -/
theorem expected_eq_reads (hrole : roles[n]? = some role) (htask : s.tasks[n]? = some task)
    (hops : task.ops = op :: rest) (kind : CounterKind) :
    expected (fun r k => r.elim 0 fun i => total i k) none kind op =
      reads s.registries none kind op := by
  have hfits := h.fits n role task hrole htask
  have htakes := hfits.takes op (hops ▸ mem_cons_self)
  cases op with
  | load into source k =>
    cases role with
    | worker j => cases htakes
    | owner j =>
      obtain ⟨rfl, rfl, hk⟩ := htakes
      -- everything left to do comes after the first load
      have hmerging : ∀ op ∈ task.ops, phase op = 2 := by
        have hordered := hfits.ordered
        rw [hops, pairwise_cons] at hordered
        intro op hop
        rw [hops] at hop
        rcases mem_cons.1 hop with rfl | hop
        · rfl
        · have hge : 2 ≤ phase op := hordered.1 op hop
          have hle : phase op ≤ 2 := by cases op <;> simp [phase]
          omega
      have hcommitted := h.committed_of_merging hunique hrole htask hmerging hk
      simp [expected, reads, hcommitted]
  | _ => rfl

theorem after (htask : s.tasks[n]? = some task) (hops : task.ops = op :: rest)
    (henabled : s.enabled op = true) : Merging job roles total sum (s.after n task op rest) := by
  obtain ⟨role, hrole⟩ := h.exists_role htask
  have hfits := h.fits n role task hrole htask
  have htakes := hfits.takes op (hops ▸ mem_cons_self)
  refine ⟨?_, ?_, h.waits_after hrole htask hops, h.alone_after hunique hrole htask hops henabled,
    ?_, ?_, ?_⟩
  · simp [Racing.after, h.length]
  · intro m role' task' hm htask'
    obtain ⟨rfl, rfl⟩ | ⟨-, hsame⟩ := tasks_after htask'
    · cases hm.symm.trans hrole
      exact hfits.after hops s.registries
    · exact h.fits m role' task' hm hsame
  · intro kind
    show (((perform s.registries op).1 none).units kind).interim = 0
    rw [interim_perform_none htakes]
    exact h.idle kind
  · intro i kind
    have hpotential := potential_after nothing htask hops (some i) kind
    have hexpected : expected nothing (some i) kind op = 0 := by
      cases op <;> simp [expected, nothing]
    have hreads : reads s.registries (some i) kind op = 0 := by
      cases role <;> cases op <;> simp_all [Role.Takes, reads]
    rw [hexpected, hreads, add_zero, add_zero] at hpotential
    rw [hpotential, h.range]
  · intro kind
    have hpotential := potential_after (fun r k => r.elim 0 fun i => total i k) htask hops none kind
    rw [h.expected_eq_reads hunique hrole htask hops kind] at hpotential
    rw [add_right_cancel hpotential, h.run]

end Step

end Merging

/-! #### The start -/

section Start

variable {workers : List (ι × List RangeCall)} {ranges : List ι}

section Roles

omit [DecidableEq ι]

/-- What the owner of range `i` has to do at the start. -/
def ownerOps (job : JobKind) (i : ι) : List (CounterOp (Option ι)) :=
  .join (some i) :: ((registeredCounters job).map (.swap (some i)) ++
    (registeredCounters job).map (.load none (some i)))

/-- The run with fresh registries. -/
def startRanges (job : JobKind) (workers : List (ι × List RangeCall)) (ranges : List ι) :
    Racing (Option ι) :=
  start (fun _ => .new job) (mergingTasks workers ranges)

theorem tasks_startRanges (job : JobKind) (workers : List (ι × List RangeCall)) (ranges : List ι) :
    (startRanges job workers ranges).tasks =
      workers.map (fun w => ⟨some (some w.1),
        (w.2.map (RangeCall.on w.1)).flatMap (CounterCall.ops fun _ => job)⟩) ++
      ranges.map fun i => ⟨none, ownerOps job i⟩ := by
  simp [startRanges, start, mergingTasks, ownerOps, CounterCall.ops, JobCounters.new,
    Function.comp_def]

theorem getElem?_roles {n : ℕ} {role : Role ι} (h : (Racing.roles workers ranges)[n]? = some role) :
    (∃ w, workers[n]? = some w ∧ role = .worker w.1) ∨
      ∃ k i, n = workers.length + k ∧ ranges[k]? = some i ∧ role = .owner i := by
  unfold Racing.roles at h
  by_cases hn : n < workers.length
  · rw [getElem?_append_left (by simpa using hn), getElem?_map] at h
    obtain ⟨w, hw, rfl⟩ := Option.map_eq_some_iff.1 h
    exact .inl ⟨w, hw, rfl⟩
  · rw [getElem?_append_right (by simpa using hn), length_map, getElem?_map] at h
    obtain ⟨i, hi, rfl⟩ := Option.map_eq_some_iff.1 h
    exact .inr ⟨n - workers.length, i, by omega, hi, rfl⟩

theorem owner_unique (hranges : ranges.Nodup) (n m : ℕ) (i : ι)
    (hn : (Racing.roles workers ranges)[n]? = some (.owner i))
    (hm : (Racing.roles workers ranges)[m]? = some (.owner i)) : n = m := by
  obtain ⟨w, -, hw⟩ | ⟨k, j, rfl, hk, hj⟩ := getElem?_roles hn
  · cases hw
  · obtain ⟨w, -, hw⟩ | ⟨k', j', rfl, hk', hj'⟩ := getElem?_roles hm
    · cases hw
    · cases hj
      cases hj'
      obtain ⟨hlt, -⟩ := List.getElem?_eq_some_iff.1 hk
      rw [(getElem?_inj hlt hranges).1 (hk.trans hk'.symm)]

/-- Where a task of the run starts. -/
theorem getElem?_startRanges {n : ℕ} {role : Role ι} {task : CounterTask (Option ι)}
    (hrole : (Racing.roles workers ranges)[n]? = some role)
    (htask : (startRanges job workers ranges).tasks[n]? = some task) :
    (∃ i, ∃ calls : List RangeCall, role = .worker i ∧ task = ⟨some (some i),
      (calls.map (RangeCall.on i)).flatMap (CounterCall.ops fun _ => job)⟩) ∨
      ∃ i, role = .owner i ∧ task = ⟨none, ownerOps job i⟩ := by
  rw [tasks_startRanges] at htask
  obtain ⟨w, hw, rfl⟩ | ⟨k, i, rfl, hk, rfl⟩ := getElem?_roles hrole
  · have hlt := (List.getElem?_eq_some_iff.1 hw).1
    rw [getElem?_append_left (by simpa using hlt), getElem?_map, hw] at htask
    cases htask
    exact .inl ⟨w.1, w.2, rfl, rfl⟩
  · rw [getElem?_append_right (by simp), length_map, Nat.add_sub_cancel_left,
      getElem?_map, hk] at htask
    cases htask
    exact .inr ⟨i, rfl, rfl⟩

theorem fits_worker (job : JobKind) (i : ι) (calls : List RangeCall) :
    Fits job (.worker i) ⟨some (some i),
      (calls.map (RangeCall.on i)).flatMap (CounterCall.ops fun _ => job)⟩ := by
  have hop : ∀ op ∈ (calls.map (RangeCall.on i)).flatMap (CounterCall.ops fun _ => job),
      (Role.worker i).Takes job op ∧ phase op = 1 := by
    intro op hop
    obtain ⟨call, hcall, hop⟩ := mem_flatMap.1 hop
    obtain ⟨call, -, rfl⟩ := mem_map.1 hcall
    cases call with
    | incrementBy counter n =>
      cases mem_singleton.1 hop
      exact ⟨rfl, rfl⟩
    | flush =>
      obtain ⟨k, -, rfl⟩ := mem_map.1 hop
      exact ⟨rfl, rfl⟩
  refine ⟨rfl, fun op h => (hop op h).1, pairwise_of_forall_mem_list ?_⟩
  intro a ha b hb
  rw [(hop a ha).2, (hop b hb).2]

theorem fits_owner (job : JobKind) (i : ι) : Fits job (.owner i) ⟨none, ownerOps job i⟩ := by
  refine ⟨rfl, ?_, ?_⟩
  · intro op hop
    simp only [ownerOps, mem_cons, mem_append, mem_map] at hop
    obtain rfl | ⟨k, -, rfl⟩ | ⟨k, hk, rfl⟩ := hop
    · rfl
    · rfl
    · exact ⟨rfl, rfl, hk⟩
  · refine pairwise_cons.2 ⟨fun op _ => Nat.zero_le _, pairwise_append.2 ⟨?_, ?_, ?_⟩⟩
    · exact pairwise_map.2 (pairwise_of_forall_mem_list fun _ _ _ _ => Nat.le_refl 1)
    · exact pairwise_map.2 (pairwise_of_forall_mem_list fun _ _ _ _ => Nat.le_refl 2)
    · intro a ha b hb
      obtain ⟨k, -, rfl⟩ := mem_map.1 ha
      obtain ⟨k', -, rfl⟩ := mem_map.1 hb
      exact Nat.le_succ 1

end Roles

/-- What the owner of a range still owes the run: the range's total, once. -/
theorem owed_ownerOps {expects : Option ι → CounterKind → UInt64} {i : ι} {kind : CounterKind}
    (hkind : kind ∈ registeredCounters job) :
    owed expects none kind (ownerOps job i) = expects (some i) kind := by
  have hswaps : owed expects none kind ((registeredCounters job).map (.swap (some i))) = 0 := by
    refine owed_eq_zero ?_
    intro op hop
    obtain ⟨k, -, rfl⟩ := mem_map.1 hop
    rfl
  have hloads : owed expects none kind ((registeredCounters job).map (.load none (some i))) =
      expects (some i) kind := by
    unfold owed
    rw [map_map]
    have hnodup : (registeredCounters job).Nodup := by cases job <;> decide
    generalize registeredCounters job = kinds at hkind hnodup
    have hcount : kinds.count kind = 1 := count_eq_one_of_mem hnodup hkind
    have hmiss : (kinds.map fun _ => (0 : UInt64)).sum = 0 := by simp
    simp only [Function.comp_def, weight, true_and, sum_map_ite_eq, hcount, hmiss, sub_zero,
      add_zero]
    exact one_nsmul (M := UInt64) _
  rw [ownerOps, owed_cons, owed_append, hswaps, hloads]
  simp [weight]

theorem startRanges_merging (job : JobKind) (workers : List (ι × List RangeCall))
    (ranges : List ι) :
    Merging job (Racing.roles workers ranges)
      (fun i kind => incremented (mergingTasks workers ranges) (some i) kind)
      (fun kind => potential (fun r k => r.elim 0 fun i =>
        incremented (mergingTasks workers ranges) (some i) k) (startRanges job workers ranges)
          none kind)
      (startRanges job workers ranges) where
  length := by simp [tasks_startRanges, Racing.roles]
  fits n role task hrole htask := by
    obtain ⟨i, calls, rfl, rfl⟩ | ⟨i, rfl, rfl⟩ := getElem?_startRanges hrole htask
    · exact fits_worker job i calls
    · exact fits_owner job i
  waits n i task hrole htask _ kind hkind := by
    obtain ⟨j, calls, hj, -⟩ | ⟨j, hj, rfl⟩ := getElem?_startRanges hrole htask
    · cases hj
    · cases hj
      simp [ownerOps, hkind]
  alone n i task hrole htask hjoin := by
    obtain ⟨j, calls, hj, -⟩ | ⟨j, hj, rfl⟩ := getElem?_startRanges hrole htask
    · cases hj
    · cases hj
      exact absurd mem_cons_self hjoin
  idle kind := rfl
  range i kind := by
    rw [startRanges, potential_start]
    exact zero_add _
  run kind := rfl

/-- At the start the run is owed every range's total. -/
theorem potential_startRanges {expects : Option ι → CounterKind → UInt64} {kind : CounterKind}
    (hkind : kind ∈ registeredCounters job) :
    potential expects (startRanges job workers ranges) none kind =
      (ranges.map fun i => expects (some i) kind).sum := by
  have hlevel : level (startRanges job workers ranges).registries none kind = 0 := rfl
  have hworkers : ∀ w ∈ workers, owed expects none kind
      ((w.2.map (RangeCall.on w.1)).flatMap (CounterCall.ops fun _ => job)) = 0 := by
    intro w _
    refine owed_eq_zero ?_
    intro op hop
    have htakes := (fits_worker job w.1 w.2).takes op hop
    cases op <;> simp_all [Role.Takes, weight]
  have hsum : (workers.map fun w => owed expects none kind
      ((w.2.map (RangeCall.on w.1)).flatMap (CounterCall.ops fun _ => job))).sum = 0 := by
    refine sum_eq_zero ?_
    intro x hx
    obtain ⟨w, hw, rfl⟩ := mem_map.1 hx
    exact hworkers w hw
  rw [potential, hlevel, zero_add, outstanding, tasks_startRanges, map_append, sum_append,
    map_map, map_map]
  simp only [Function.comp_def, hsum, zero_add, owed_ownerOps hkind]

/-- **Ranges merged once.** Once every task has finished, every merged range has committed exactly
its increments, and the run the sum over the ranges. -/
theorem merged_once (hranges : ranges.Nodup) {ls : List ℕ}
    (h : steps.exec (startRanges job workers ranges) ls = some s) (hfinished : s.Finished)
    {kind : CounterKind} (hkind : kind ∈ registeredCounters job) :
    (∀ i ∈ ranges, (s.registries (some i)).committed kind =
      incremented (mergingTasks workers ranges) (some i) kind) ∧
    (s.registries none).committed kind =
      (ranges.map fun i => incremented (mergingTasks workers ranges) (some i) kind).sum := by
  have hunique : ∀ (n m : ℕ) (i : ι), (Racing.roles workers ranges)[n]? = some (Role.owner i) →
      (Racing.roles workers ranges)[m]? = some (Role.owner i) → n = m := owner_unique hranges
  have hmerging := LTS.exec_invariant h (startRanges_merging job workers ranges) <| by
    intro s n s' hI hstep
    obtain ⟨task, op, rest, htask, hops, henabled, rfl⟩ := step_eq_some hstep
    exact hI.after hunique htask hops henabled
  have hcommitted : ∀ r, (s.registries r).committed kind =
      ((s.registries r).units kind).committed := by
    intro r
    have hreg : (s.registries r).isRegistered kind = true := by
      rw [isRegistered, job_of_exec h]
      exact mem_registeredCounters.1 hkind
    rw [JobCounters.committed, countOf, if_pos hreg]
    rfl
  refine ⟨?_, ?_⟩
  · intro i hi
    obtain ⟨k, hk⟩ := mem_iff_getElem?.1 hi
    have hrole : (Racing.roles workers ranges)[workers.length + k]? = some (.owner i) := by
      simp [Racing.roles, getElem?_append_right, hk]
    have hlt : workers.length + k < s.tasks.length := by
      rw [hmerging.length]
      exact (List.getElem?_eq_some_iff.1 hrole).1
    have htask := getElem?_eq_getElem hlt
    rw [hcommitted]
    refine hmerging.committed_of_merging hunique hrole htask ?_ hkind
    intro op hop
    rw [hfinished _ (mem_of_getElem? htask)] at hop
    cases hop
  · have hrun := hmerging.run kind
    rw [potential_of_finished hfinished, level, hmerging.idle, zero_add,
      potential_startRanges hkind] at hrun
    rw [hcommitted]
    exact hrun

end Start

end Ranges

/-- **No increment is lost or duplicated, in any interleaving.** In every state a counter's levels,
with what the tasks still owe it, are its levels at the start, all increments, and what was read out
of other registries for it; once all tasks have finished, one last flush commits that, and the
increments alone where nothing is merged in.  A run registry into which every range is merged once
commits the sum over the ranges. -/
theorem increments_conserved :
    (∀ (ρ : Type u) [DecidableEq ρ] (registries : ρ → JobCounters)
        (tasks : List (Option ρ × List (CounterCall ρ))) (ls : List ℕ) (s : Racing ρ),
      steps.exec (start registries tasks) ls = some s → ∀ r,
        (∀ kind, level s.registries r kind + outstanding nothing s r kind =
          level registries r kind + incremented tasks r kind +
            mergedInto r kind (steps.outputs merged (start registries tasks) ls)) ∧
        (s.Finished → ∀ kind ∈ (registries r).registered,
          (s.registries r).flush.committed kind =
              level registries r kind + incremented tasks r kind +
                mergedInto r kind (steps.outputs merged (start registries tasks) ls) ∧
            ((∀ task ∈ tasks, ∀ source, .add r source ∉ task.2) →
              (s.registries r).flush.committed kind =
                level registries r kind + incremented tasks r kind))) ∧
    ∀ (ι : Type v) [DecidableEq ι] (job : JobKind) (workers : List (ι × List RangeCall))
        (ranges : List ι), ranges.Nodup → ∀ (ls : List ℕ) (s : Racing (Option ι)),
      steps.exec (startRanges job workers ranges) ls = some s → s.Finished →
        ∀ kind ∈ registeredCounters job,
          (∀ i ∈ ranges, (s.registries (some i)).committed kind =
            incremented (mergingTasks workers ranges) (some i) kind) ∧
          (s.registries none).committed kind =
            (ranges.map fun i => incremented (mergingTasks workers ranges) (some i) kind).sum := by
  refine ⟨?_, ?_⟩
  · intro ρ _ registries tasks ls s h r
    refine ⟨fun kind => potential_eq h r kind, ?_⟩
    intro hfinished kind hkind
    have hflush : (s.registries r).flush.committed kind =
        level registries r kind + incremented tasks r kind +
          mergedInto r kind (steps.outputs merged (start registries tasks) ls) := by
      have hkind' : kind ∈ (s.registries r).registered := by
        rw [JobCounters.registered, job_of_exec h]
        exact hkind
      rw [committed_flush_eq_level hkind', ← potential_eq h r kind, potential_of_finished hfinished]
    refine ⟨hflush, fun hadd => ?_⟩
    rw [hflush, mergedInto_eq_zero h hadd, add_zero]
  · intro ι _ job workers ranges hranges ls s h hfinished kind hkind
    exact merged_once hranges h hfinished hkind

namespace TwoRanges

/-- Two tasks count rows of the first range while a third flushes it; one task works on the second. -/
def workers : List (Bool × List RangeCall) :=
  [(false, [.incrementBy ⟨.read, .guardrail⟩ 3, .incrementBy ⟨.read, .guardrail⟩ 1]),
    (false, [.incrementBy ⟨.read, .guardrail⟩ 4]), (false, [.flush]),
    (true, [.incrementBy ⟨.read, .guardrail⟩ 5])]

/-- The flush swaps between two increments, and credits after the second; the owners take turns. -/
def schedule : List ℕ :=
  [0, 2, 1, 2, 0] ++ List.replicate 5 2 ++ [3] ++ (List.replicate 15 [4, 5]).flatten

theorem increments_conserved_twoRanges :
    (steps.exec (startRanges .guardrail workers [false, true]) schedule).map (fun s =>
      (s.registries none).committed .read) = some 13 := by
  have hrun : ((steps.exec (startRanges .guardrail workers [false, true]) schedule).map fun s =>
      decide s.Finished) = some true := by decide
  obtain ⟨s, hs, hfinished⟩ := Option.map_eq_some_iff.1 hrun
  have hsum := (increments_conserved.{0, 0}.2 Bool .guardrail workers [false, true] (by decide) schedule s
    hs (of_decide_eq_true hfinished) .read (by decide)).2
  rw [hs, Option.map_some, hsum]
  set_option maxRecDepth 30000 in decide

end TwoRanges

end Racing

end Cdm
