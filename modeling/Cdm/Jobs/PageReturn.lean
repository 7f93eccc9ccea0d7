import Cdm.Jobs.Delivery

/-!
# What a page leaves behind

The writes of a page are pipelined: a request is handed to the sink when its batch is sent, and is
awaited by the next flush.  A flush awaits every request, also after one of them has failed.  The
other ways out of a page await nothing: when a row cannot be decoded, and when there is no slot for
a request, the requests in flight are dropped with the buffer, and nobody knows how they end.

A counter write is awaited before it is counted, so that a counter run has nothing in flight.
-/

namespace Cdm

/-! ### Errors of the whole range -/

/-- The statement of a resolved plan is a counter update exactly in a counter run. -/
theorem MigratePlan.counter_eq_isCounterRun [AlphanumericTable] {mapping : ColumnMapping}
    {projection : OriginProjection} {planner : Planner} {missingKey : MissingKeyPolicy}
    {mapRemoveNullValue : Bool} {features : MigrateFeatures} {plan : MigratePlan}
    (h : resolve mapping projection planner missingKey mapRemoveNullValue features = .ok plan) :
    plan.binder.statement.counter = plan.isCounterRun := by
  obtain ⟨upsert, hupsert, hbinder, hcounters⟩ := resolve_eq_ok h
  rw [(Binder.new_eq_ok hbinder).2.1, isCounterRun]
  rw [TargetUpsert.new] at hupsert
  cases htarget : mapping.targetIsCounter with
  | false =>
    rw [htarget, if_neg Bool.false_ne_true] at hupsert
    cases hupsert
    rw [CounterPlan.columns_eq_nil hcounters htarget]
    rfl
  | true =>
    rw [htarget, if_pos rfl] at hupsert
    have hcounter : upsert.counter = true := by
      simp only [TargetUpsert.update] at hupsert
      split_ifs at hupsert
      · obtain ⟨_, hthrow, -⟩ := Fallible.bind_eq_ok.1 hupsert
        cases hthrow
      · obtain ⟨_, -, hupsert⟩ := Fallible.bind_eq_ok.1 hupsert
        cases hupsert
        rfl
    have hcolumns : plan.counters.columns.isEmpty = false := by
      rw [CounterPlan.resolve, htarget, Bool.true_and] at hcounters
      split_ifs at hcounters with hempty
      rw [← Except.ok.inj hcounters]
      exact Bool.eq_false_of_not_eq_true hempty
    rw [hcounter, hcolumns]
    rfl

namespace MigrateRange

/-! ### The requests of a run -/

section

variable [LiteralParsers] [SerdeJson] (plan : MigratePlan) (settings : MigrateSettings)
  (positions : List ℕ)

/-- The requests that a step hands to the sink, and those whose outcome it learns. -/
def traffic (s : MigrateRange) :
    Act → Option (List Request × List Request)
  | .push slot _ =>
    match s.phase with
    | .writing ⟨write :: _, _, _⟩ =>
      -- a counter write is awaited on the spot
      if plan.isCounterRun then some ([[write]], [[write]])
      else
        match s.buffer.push settings positions slot write with
        | .ok buffer => some (buffer.inflight.drop s.buffer.inflight.length, [])
        | .error _ => none
    | _ => none
  | .flush slot results =>
    match s.phase with
    | .flushing _ =>
      match s.buffer.sendBatch slot with
      | .ok sent =>
        if results.length = sent.inflight.length then
          some (sent.inflight.drop s.buffer.inflight.length, sent.inflight)
        else none
      | .error _ => none
    | _ => none
  | _ => none

/-- The requests that a run has handed to the sink. -/
def handed (acts : List Act) : List Request :=
  ((lts plan settings positions).outputs (traffic plan settings positions) init
    acts).flatMap Prod.fst

/-- The requests of a run that have run to completion. -/
def awaited (acts : List Act) : List Request :=
  ((lts plan settings positions).outputs (traffic plan settings positions) init
    acts).flatMap Prod.snd

end

/-- `process_page` has returned.  A panic does not return. -/
def Phase.Returned : Phase → Prop
  | .scanning => True
  | .ended (.panic _) => False
  | .ended _ => True
  | _ => False

/-- The step does not leave the page with requests in flight: a row that cannot be decoded, and a
request that there is no slot for, find none. -/
def Orderly (s : MigrateRange) : Act → Prop
  | .nextRow => (∃ e rows, s.rows = .error e :: rows) → s.buffer.inflight = []
  | .push slot _ => (∃ request, slot request ≠ .ok ()) → s.buffer.inflight = []
  | .flush slot _ => (∃ request, slot request ≠ .ok ()) → s.buffer.inflight = []
  | _ => True

/-! ### Errors of the whole range -/

section

variable {plan : MigratePlan} {lookup : BoundWrite → Except CdmError (Option Row)}

/-- Only a counter row fails with its range. -/
theorem isCounterRun_of_writeRow (hplan : plan.binder.statement.counter = plan.isCounterRun)
    {row : Row} {inputs : BindInputs} {e : CdmError}
    (h : MigrateJob.writeRow plan lookup row inputs = .error (.range e)) :
    plan.isCounterRun = true := by
  by_contra hcounter
  rw [Bool.not_eq_true] at hcounter
  rw [MigrateJob.writeRow, hcounter, if_neg Bool.false_ne_true, hplan, hcounter] at h
  unfold MigrateJob.bindRecord at h
  cases hbind : plan.binder.bind row inputs with
  | error failure =>
    rw [hbind] at h
    cases h
  | ok values =>
    rw [hbind] at h
    cases h

theorem isCounterRun_of_processRow [LiteralParsers] [SerdeJson]
    (hplan : plan.binder.statement.counter = plan.isCounterRun) {row : Row} {e : CdmError}
    (h : (MigrateJob.processRow plan lookup row).error = some (.range e)) :
    plan.isCounterRun = true := by
  have hall {row : Row} {inputs : List BindInputs}
      (h : (MigrateJob.writeAll plan lookup row inputs).error = some (.range e)) :
      plan.isCounterRun = true := by
    obtain ⟨input, -, hinput⟩ := Fallible.exists_of_runAll h
    exact isCounterRun_of_writeRow hplan hinput
  unfold MigrateJob.processRow at h
  dsimp only at h
  split_ifs at h with hneeds
  · exact hall h
  · split at h
    · cases h
    · cases h
    · exact hall h

end

/-! ### What is in flight -/

/-- The requests handed out by these steps. -/
abbrev handedBy (os : List (List Request × List Request)) :
    List Request :=
  os.flatMap Prod.fst

/-- The requests awaited by these steps. -/
abbrev awaitedBy (os : List (List Request × List Request)) :
    List Request :=
  os.flatMap Prod.snd

/-- What is left of the row, when a row is being written. -/
def Phase.left : Phase → Option RowOutcome
  | .writing left => some left
  | .counting left => some left
  | .flushing left => left
  | _ => none

/-- The page is being processed. -/
def Phase.InPage : Phase → Prop
  | .scanning => False
  | .ended _ => False
  | _ => True

/-- What is in flight: within a page the requests of its buffer, of which a counter run has none, and
nothing once the page has been left. -/
structure InFlight (plan : MigratePlan) (settings : MigrateSettings) (positions : List ℕ)
    (s : MigrateRange)
    (os : List (List Request × List Request)) : Prop where
  inPage : s.phase.InPage → handedBy os = awaitedBy os ++ s.buffer.inflight
  buffer : s.phase.InPage → s.buffer.Open settings positions
  returned : s.phase.Returned → handedBy os = awaitedBy os
  counter : s.phase.InPage → plan.isCounterRun = true → s.buffer.inflight = []
  left : ∀ left ∈ s.phase.left, ∀ e, left.error = some (.range e) → plan.isCounterRun = true

section Steps

variable {plan : MigratePlan} {settings : MigrateSettings} {positions : List ℕ}
  {s s' : MigrateRange}
  {os : List (List Request × List Request)}

/-- A page is left with nothing in flight. -/
theorem inFlight_of_left (hphase : ¬s.phase.InPage) (hleft : s.phase.left = none)
    (h : handedBy os = awaitedBy os) : InFlight plan settings positions s os :=
  ⟨fun hin => absurd hin hphase, fun hin => absurd hin hphase, fun _ => h,
    fun hin => absurd hin hphase, by simp [hleft]⟩

/-- A step within a page that leaves the buffer alone. -/
theorem InFlight.move (hi : InFlight plan settings positions s os) (hin : s.phase.InPage)
    {counters : JobCounters} {rows : List (Except CdmError Row)} {phase : Phase}
    (hphase : phase.InPage)
    (hleft : ∀ left ∈ phase.left, ∀ e, left.error = some (.range e) → plan.isCounterRun = true) :
    InFlight plan settings positions ⟨counters, rows, s.buffer, phase⟩ os := by
  refine ⟨fun _ => hi.inPage hin, fun _ => hi.buffer hin, fun hreturned => ?_,
    fun _ => hi.counter hin, hleft⟩
  cases phase with
  | scanning => exact hphase.elim
  | ended result => exact hphase.elim
  | paging => exact hreturned.elim
  | processing row => exact hreturned.elim
  | writing left => exact hreturned.elim
  | counting left => exact hreturned.elim
  | flushing left => exact hreturned.elim

/-- A page that fails with nothing in flight. -/
theorem InFlight.fail (hi : InFlight plan settings positions s os) (hin : s.phase.InPage)
    (hempty : s.buffer.inflight = []) {counters : JobCounters} {rows : List (Except CdmError Row)}
    {buffer : WriteBuffer} {result : RangeResult} :
    InFlight plan settings positions ⟨counters, rows, buffer, .ended result⟩ os := by
  refine inFlight_of_left id rfl ?_
  rw [hi.inPage hin, hempty, List.append_nil]

variable [LiteralParsers] [SerdeJson] (hplan : plan.binder.statement.counter = plan.isCounterRun)
  (hi : InFlight plan settings positions s os)

include hi

theorem nextPage_inFlight {page : Except CdmError (Option (List (Except CdmError Row)))}
    (hs : step plan settings positions s (.nextPage page) = some s') :
    InFlight plan settings positions s' os := by
  simp only [step] at hs
  split at hs
  · rename_i hscanning
    have hsame : handedBy os = awaitedBy os := hi.returned (by rw [hscanning]; trivial)
    split at hs
    · cases hs
      exact inFlight_of_left id rfl hsame
    · cases hs
      exact inFlight_of_left id rfl hsame
    · cases hs
      exact hi
    · cases hs
      exact ⟨fun _ => by rw [hsame, List.append_nil], fun _ => WriteBuffer.open_empty [],
        fun hreturned => hreturned.elim, fun _ _ => rfl, by simp [Phase.left]⟩
  · cases hs

theorem nextRow_inFlight (horderly : s.Orderly .nextRow)
    (hs : step plan settings positions s .nextRow = some s') :
    InFlight plan settings positions s' os := by
  simp only [step] at hs
  split at hs
  · rename_i hpaging hrows
    cases hs
    exact hi.move (by rw [hpaging]; trivial) trivial (by simp [Phase.left])
  · rename_i e rows hpaging hrows
    cases hs
    exact hi.fail (by rw [hpaging]; trivial) (horderly ⟨e, rows, hrows⟩)
  · rename_i row rows hpaging hrows
    cases hs
    exact hi.move (by rw [hpaging]; trivial) trivial (by simp [Phase.left])
  · cases hs

include hplan in
theorem process_inFlight {lookup : BoundWrite → Except CdmError (Option Row)}
    (hs : step plan settings positions s (.process lookup) = some s') :
    InFlight plan settings positions s' os := by
  simp only [step] at hs
  split at hs
  · rename_i row hprocessing
    have hin : s.phase.InPage := by rw [hprocessing]; trivial
    split_ifs at hs with hskipped
    · cases hs
      exact hi.move hin trivial (by simp [Phase.left])
    · cases hs
      refine hi.move hin trivial ?_
      intro left hleft e he
      cases hleft
      exact isCounterRun_of_processRow hplan he
  · cases hs

/-- A push hands over what it adds to the requests in flight. -/
theorem push_inFlight {slot : WriteSlot} {written : Except CdmError Unit}
    (horderly : s.Orderly (.push slot written))
    (hs : step plan settings positions s (.push slot written) = some s') :
    InFlight plan settings positions s'
      (os ++ (traffic plan settings positions s (.push slot written)).toList) := by
  simp only [step] at hs
  split at hs
  · rename_i write pushed skipped error hwriting
    have hin : s.phase.InPage := by rw [hwriting]; trivial
    have hleft : ∀ e, error = some (.range e) → plan.isCounterRun = true :=
      hi.left ⟨write :: pushed, skipped, error⟩ (by rw [hwriting]; rfl)
    simp only [traffic, hwriting]
    by_cases hcounter : plan.isCounterRun = true
    · -- the write has been awaited before it is counted, or before the range fails
      rw [if_pos hcounter] at hs ⊢
      have hempty := hi.counter hin hcounter
      have hsame : handedBy (os ++ (some ([[write]], [[write]])).toList) =
          awaitedBy (os ++ (some ([[write]], [[write]])).toList) := by
        simp [handedBy, awaitedBy, hempty, hi.inPage hin]
      cases written with
      | error e =>
        cases hs
        exact inFlight_of_left id rfl hsame
      | ok _ =>
        cases hs
        exact ⟨fun _ => by rw [hsame, hempty, List.append_nil], fun _ => hi.buffer hin,
          fun hreturned => hreturned.elim, fun _ _ => hempty, fun _ _ _ _ => hcounter⟩
    · rw [if_neg hcounter] at hs ⊢
      cases hpush : s.buffer.push settings positions slot write with
      | error e =>
        rw [hpush] at hs
        cases hs
        simp only [Option.toList_none, List.append_nil]
        refine hi.fail hin (horderly ?_)
        by_contra hslot
        obtain ⟨buffer, hbuffer⟩ := WriteBuffer.exists_push settings positions
          (fun request => not_not.1 (not_exists.1 hslot request)) s.buffer write
        rw [hpush] at hbuffer
        cases hbuffer
      | ok buffer =>
        rw [hpush] at hs
        cases hs
        obtain ⟨hopen, sent, hinflight, -, -⟩ := WriteBuffer.push_spec (hi.buffer hin) hpush
        -- what was sent is handed over, and awaited by the next flush
        refine ⟨fun _ => ?_, fun _ => hopen, fun hreturned => hreturned.elim,
          fun _ h => absurd h hcounter, ?_⟩
        · simp [handedBy, awaitedBy, hi.inPage hin, hinflight]
        · intro left h e he
          cases h
          exact hleft e he
  · cases hs

theorem count_inFlight (hs : step plan settings positions s .count = some s') :
    InFlight plan settings positions s' os := by
  simp only [step] at hs
  split at hs
  · rename_i left hcounting
    have hin : s.phase.InPage := by rw [hcounting]; trivial
    have hleft := hi.left left (by rw [hcounting]; rfl)
    cases hs
    split_ifs
    · refine hi.move hin trivial ?_
      intro left' h
      cases h
      exact hleft
    · refine hi.move hin trivial ?_
      intro left' h
      cases h
      exact hleft
  · cases hs

/-- A flush hands over the batch and awaits every request, unless there is no slot for the batch. -/
theorem flush_inFlight {slot : WriteSlot} {results : List (Except CdmError Unit)}
    (horderly : s.Orderly (.flush slot results))
    (hs : step plan settings positions s (.flush slot results) = some s') :
    InFlight plan settings positions s'
      (os ++ (traffic plan settings positions s (.flush slot results)).toList) := by
  simp only [step] at hs
  split at hs
  · rename_i left hflushing
    have hin : s.phase.InPage := by rw [hflushing]; trivial
    have hleft : ∀ outcome ∈ left, ∀ e, outcome.error = some (.range e) →
        plan.isCounterRun = true :=
      fun outcome houtcome => hi.left outcome (by rw [hflushing]; exact houtcome)
    simp only [traffic, hflushing, WriteBuffer.drain] at hs ⊢
    cases hsend : s.buffer.sendBatch slot with
    | error e =>
      rw [hsend] at hs
      cases hs
      simp only [Option.toList_none, List.append_nil]
      refine hi.fail hin (horderly ?_)
      by_contra hslot
      obtain ⟨sent, hsent⟩ := WriteBuffer.exists_sendBatch s.buffer
        fun request => not_not.1 (not_exists.1 hslot request)
      rw [hsend] at hsent
      cases hsent
    | ok sent =>
      simp only [hsend] at hs ⊢
      obtain rfl := WriteBuffer.sendBatch_eq_ok hsend
      obtain ⟨added, hadded, -, -⟩ := (hi.buffer hin).requests_eq
      split_ifs at hs ⊢ with hlen
      · have hsame : handedBy (os ++ (some (s.buffer.requests.drop s.buffer.inflight.length,
            s.buffer.requests)).toList) = awaitedBy (os ++ (some (s.buffer.requests.drop
            s.buffer.inflight.length, s.buffer.requests)).toList) := by
          simp [handedBy, awaitedBy, hi.inPage hin, hadded]
        cases hresults : results.forM id with
        | error e =>
          rw [hresults] at hs
          cases hs
          exact inFlight_of_left id rfl hsame
        | ok _ =>
          rw [hresults] at hs
          cases hs
          cases left with
          -- the flush at the end of a page returns from it
          | none => exact inFlight_of_left id rfl hsame
          | some outcome =>
            exact ⟨fun _ => by rw [hsame, List.append_nil], fun _ => WriteBuffer.open_empty [],
              fun _ => hsame, fun _ _ => rfl, hleft⟩
  · cases hs

theorem settle_inFlight (hs : step plan settings positions s .settle = some s') :
    InFlight plan settings positions s' os := by
  simp only [step] at hs
  split at hs
  · rename_i hwriting
    cases hs
    exact hi.move (by rw [hwriting]; trivial) trivial (by simp [Phase.left])
  · rename_i hwriting
    cases hs
    exact hi.move (by rw [hwriting]; trivial) trivial (by simp [Phase.left])
  · rename_i skipped e hwriting
    have hin : s.phase.InPage := by rw [hwriting]; trivial
    have hcounter := hi.left _ (by rw [hwriting]; rfl) e rfl
    cases hs
    exact hi.fail hin (hi.counter hin hcounter)
  · cases hs

include hplan in
theorem step_inFlight {a : Act} (horderly : s.Orderly a)
    (hs : step plan settings positions s a = some s') :
    InFlight plan settings positions s'
      (os ++ (traffic plan settings positions s a).toList) := by
  cases a with
  | nextPage page => simpa [traffic] using nextPage_inFlight hi hs
  | nextRow => simpa [traffic] using nextRow_inFlight hi horderly hs
  | process lookup => simpa [traffic] using process_inFlight hplan hi hs
  | push slot written => exact push_inFlight hi horderly hs
  | count => simpa [traffic] using count_inFlight hi hs
  | flush slot results => exact flush_inFlight hi horderly hs
  | settle => simpa [traffic] using settle_inFlight hi hs
  | panic message =>
    simp only [step] at hs
    split at hs
    · cases hs
    · cases hs
      exact ⟨fun hin => hin.elim, fun hin => hin.elim, fun hreturned => hreturned.elim,
        fun hin => hin.elim, by simp [Phase.left]⟩

end Steps

/-! ### The range as a whole -/

section Range

variable [LiteralParsers] [SerdeJson] {plan : MigratePlan} {settings : MigrateSettings}
  {positions : List ℕ} {s : MigrateRange} {acts : List Act}

theorem inFlight_of_exec (hplan : plan.binder.statement.counter = plan.isCounterRun)
    (h : (lts plan settings positions).exec init acts = some s)
    (horderly : (lts plan settings positions).Along Orderly init acts) :
    InFlight plan settings positions s
      ((lts plan settings positions).outputs (traffic plan settings positions)
        init acts) := by
  refine LTS.exec_invariant_outputs_along (I := InFlight plan settings positions) h
    horderly (inFlight_of_left id rfl rfl) ?_
  intro s a s' os hi hG hs
  exact step_inFlight hplan hi hG hs

/-- A row that cannot be decoded while requests are in flight makes the page abandon them. -/
theorem abandons (hplan : plan.binder.statement.counter = plan.isCounterRun)
    (h : (lts plan settings positions).exec init acts = some s)
    (horderly : (lts plan settings positions).Along Orderly init acts)
    (hphase : s.phase = .paging) {e : CdmError} {rows : List (Except CdmError Row)}
    (hrows : s.rows = .error e :: rows) (hinflight : s.buffer.inflight ≠ []) :
    (∃ s', step plan settings positions s .nextRow = some s' ∧
      s'.phase = .ended (.error e)) ∧
    handed plan settings positions (acts ++ [Act.nextRow]) ≠
      awaited plan settings positions (acts ++ [Act.nextRow]) := by
  have hi := inFlight_of_exec hplan h horderly
  constructor
  · simp only [step, hphase, hrows]
    exact ⟨_, rfl, rfl⟩
  · have hpage := hi.inPage (by rw [hphase]; trivial)
    have hquiet : traffic plan settings positions s .nextRow = none := rfl
    rw [handed, awaited, LTS.outputs_concat h, hquiet, Option.toList_none, List.append_nil]
    exact fun hsame => hinflight (List.append_right_eq_self.1 (hpage.symm.trans hsame))

/-- **No request is abandoned by an orderly page.** When no row fails to decode, and no request is
refused a slot, while requests are in flight, every request that was handed to the sink has run to
completion whenever a page has been processed, also when the range has failed. -/
theorem awaited_of_orderly [AlphanumericTable] {mapping : ColumnMapping}
    {projection : OriginProjection} {planner : Planner} {missingKey : MissingKeyPolicy}
    {mapRemoveNullValue : Bool} {features : MigrateFeatures}
    (hplan : MigratePlan.resolve mapping projection planner missingKey mapRemoveNullValue features =
      .ok plan)
    (h : (lts plan settings positions).exec init acts = some s)
    (horderly : (lts plan settings positions).Along Orderly init acts)
    (hreturned : s.phase.Returned) :
    handed plan settings positions acts = awaited plan settings positions acts :=
  (inFlight_of_exec (MigratePlan.counter_eq_isCounterRun hplan) h horderly).returned hreturned

end Range

/-! ### A row that cannot be decoded -/

namespace PageSample

local instance : AlphanumericTable := AlphanumericTable.ascii

attribute [local instance] LiteralParsers.rejecting SerdeJson.rejecting

def settings : MigrateSettings := .new 1 1000 .strict false false

def decodeFailed : CdmError := ⟨.read, "the row could not be decoded", {}⟩

/-- The first row is written; the second cannot be decoded. -/
def undecodable : List Act :=
  [.nextPage (.ok (some [.ok ⟨[some [0, 0, 0, 7], some [0, 0, 0, 1]]⟩, .error decodeFailed])),
    .nextRow, .process fun _ => .ok none, .push (fun _ => .ok ()) (.ok ()), .count, .settle, .nextRow]

/-- One row is written, and its page is flushed. -/
def written : List Act :=
  [.nextPage (.ok (some [.ok ⟨[some [0, 0, 0, 7], some [0, 0, 0, 1]]⟩])), .nextRow,
    .process fun _ => .ok none, .push (fun _ => .ok ()) (.ok ()), .count, .settle, .nextRow,
    .flush (fun _ => .ok ()) [.error decodeFailed]]

theorem orderly_written : (lts MigrateSample.plan settings [0]).Along Orderly init written := by
  refine LTS.along_cons rfl trivial ?_
  refine LTS.along_cons rfl (fun _ => rfl) ?_
  refine LTS.along_cons rfl trivial ?_
  refine LTS.along_cons rfl (fun _ => rfl) ?_
  refine LTS.along_cons rfl trivial ?_
  refine LTS.along_cons rfl trivial ?_
  refine LTS.along_cons rfl ?_ ?_
  · rintro ⟨e, rows, hrows⟩
    cases hrows
  · refine LTS.along_cons rfl ?_ trivial
    rintro ⟨request, hslot⟩
    exact absurd rfl hslot

/-- The write has failed, and its outcome is known. -/
theorem awaited_written : ∃ s, (lts MigrateSample.plan settings [0]).exec init written = some s ∧
    handed MigrateSample.plan settings [0] written = awaited MigrateSample.plan settings [0] written :=
  ⟨_, rfl, awaited_of_orderly (s := ⟨_, _, _, _⟩) MigrateSample.resolved rfl orderly_written trivial⟩

/-- The write of the first row was handed to the sink, and its outcome is not known. -/
theorem not_awaited : ∃ s, (lts MigrateSample.plan settings [0]).exec init undecodable = some s ∧
    s.phase.Returned ∧ handed MigrateSample.plan settings [0] undecodable =
      [[[.value [0, 0, 0, 7], .value [0, 0, 0, 1]]]] ∧
    awaited MigrateSample.plan settings [0] undecodable = [] :=
  ⟨_, rfl, trivial, rfl, rfl⟩

end PageSample

end MigrateRange

end Cdm
