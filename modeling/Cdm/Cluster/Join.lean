import Cdm.Cluster.Coordinator
import Cdm.LTS.Basic
import Cdm.Lib.Text
import Cdm.Metrics.Registry
import Cdm.Track.Backends

/-!
# Joining a run

Any number of nodes call `Coordinator::join` on one run id.  A call is several steps: the election,
an `INSERT … IF NOT EXISTS` of the run row; for the winner one insert for each planned range, and
then the write that marks the run `STARTED`; for a loser the read of the row it lost to, the check of
the configuration hash, and polls of the run row until it is `STARTED`.  A call may fail at any
step.  The nodes that are in already write outcomes of ranges, and close the run, while others join.

`Election.winner` is a ghost: the call whose election insert was applied.
-/

namespace Cdm

open Function

/-- How a node came to be part of a run. -/
inductive JoinOutcome
  /-- This node won the election and initialised the run. -/
  | initialised
  /-- Another node did, and has finished. -/
  | joined
  deriving DecidableEq, Repr

/-- What the configuration hash is stored with. -/
def configHashPrefix : String := "config_hash="

/-- The configuration hash a metrics string column holds, if it holds one. -/
def recordedHash (info : Option String) : Option String :=
  info.bind fun info =>
    (Text.stripPrefix configHashPrefix.toList info.toList).map String.ofList

/-- `check_config_hash`: a node joins a run that was initialised with its own configuration. -/
def checkConfigHash (existing : RunRecord) (configHash : String) : Except CdmError Unit :=
  match recordedHash existing.info with
  | some recorded =>
    if recorded = configHash then .ok ()
    else .error (CdmError.withConfigKey ⟨.config,
      s!"run {existing.runId} was initialised by a node whose configuration hashes to {recorded}; " ++
        s!"this node's hashes to {configHash}. Every node of a distributed run must be started " ++
        "with the same configuration (DST-003) — differing token splits, column mappings or " ++
        "feature settings would have the nodes writing different data into one table. " ++
        "`cdm plan --summary-out` prints a node's own hash; compare them and re-run.", {}⟩
      "cluster.enabled")
  | none =>
    .error (CdmError.withConfigKey ⟨.config,
      s!"run {existing.runId} exists but records no configuration hash, so this node cannot verify " ++
        "that it was started with the same configuration (DST-003). A run initialised by Java CDM, " ++
        "or by cdm-rs with cluster.enabled unset, cannot be joined; start a new run id with " ++
        "cluster.enabled on every node.", {}⟩ "track_run.run_id")

namespace CassandraStore

/-- `decode_run`: a row of `cdm_run_info` as it is read. -/
def decodeRun (id : RunId) (table : TableRef) (row : InfoRow) : RunRecord where
  runId := id
  previousRunId := (row.prevRunId.filter (· ≠ 0)).map fun id => ⟨.ofInt id⟩
  table := table
  job := row.runType.getD .migrate
  status := decodeStatus row.status
  startedAt := row.startTime.map fromCqlTimestamp
  endedAt := row.endTime.map fromCqlTimestamp
  info := row.runInfo

/-- `INSERT INTO cdm_run_info … IF NOT EXISTS`; `none` when it was not applied. -/
def insertRunInfoIfNotExists (s : Tracking) (run : RunRecord) (now : ℤ) (status : RunStatus)
    (info : String) : Option Tracking :=
  match s.info with
  | some _ => none
  | none =>
    some { s with info := some {
      runType := some run.job
      prevRunId := some (run.previousRunId.elim 0 fun id => id.raw.toInt)
      startTime := some (toMillis now)
      runInfo := some info
      status := some status } }

end CassandraStore

/-- The arguments of one call of `join`, and the settings of the node that makes it. -/
structure JoinCall where
  run : RunRecord
  ranges : List TokenRange
  configHash : String
  settings : CoordinatorSettings

namespace JoinCall

/-- The metrics string the winner of the election creates the run row with. -/
def recorded (call : JoinCall) : String := configHashPrefix ++ call.configHash

/-- A run row that was there and is not read back. -/
def notReadBack (call : JoinCall) : CdmError :=
  ⟨.lease, s!"the run row for {call.run.runId} blocked this node's initialisation and then could " ++
    "not be read back; the target keyspace is not answering consistently", {}⟩

/-- A run row that is not there when it is polled. -/
def disappeared (call : JoinCall) : CdmError :=
  ⟨.lease, s!"run {call.run.runId} lost the initialisation election to another node and then " ++
    "disappeared; the target keyspace is not answering consistently", {}⟩

/-- A run that is neither planned nor running. -/
def finished (call : JoinCall) (status : RunStatus) : CdmError :=
  ⟨.lease, s!"run {call.run.runId} is already {status.asStr}; a node cannot join a run that has " ++
    "finished. Start a new run, or resume this one with " ++
    s!"track_run.previous_run_id = {call.run.runId}", {}⟩

/-- A run that was not started in time. -/
def notStarted (call : JoinCall) : CdmError :=
  ⟨.lease, s!"the node initialising run {call.run.runId} did not reach STARTED within " ++
    "cluster.lease_duration; it is not coming back. Check whether it is still running before " ++
    "starting the run again", {}⟩

end JoinCall

namespace Election

/-- How far a call has got. -/
inductive Phase
  | calling
  /-- It won the election, and has these range rows left to insert. -/
  | inserting (bounds : List (ℤ × ℤ))
  /-- It lost the election, and has not read the row it lost to. -/
  | lost
  /-- Its configuration hash is the one in that row. -/
  | checked
  /-- It polls the run row until the deadline. -/
  | awaiting (deadline : ℤ)
  /-- It has read that the run is not started yet. -/
  | polled (deadline : ℤ)
  | returned (result : Except CdmError JoinOutcome)

end Election

/-- The clock, the rows of the run, the calls, and which of them has won. -/
structure Election where
  now : ℤ
  rows : CassandraStore.Tracking
  phase : ℕ → Election.Phase
  winner : Option ℕ

namespace Election

/-- The moves of the calls, and of the nodes that are in. -/
inductive Act
  | tick (nanos : ℕ)
  /-- The election insert. -/
  | elect (i : ℕ)
  /-- The winner inserts one range row. -/
  | insertRange (i : ℕ)
  /-- The winner marks the run `STARTED`. -/
  | markStarted (i : ℕ)
  /-- A loser reads the row it lost to, and checks the configuration hash. -/
  | readBack (i : ℕ)
  /-- A loser fixes its deadline. -/
  | sample (i : ℕ)
  /-- A loser polls the run row. -/
  | poll (i : ℕ)
  /-- A loser that has found the run not started looks at the clock. -/
  | rest (i : ℕ)
  /-- A statement of the call fails, before or after it took effect. -/
  | fail (i : ℕ) (e : CdmError)
  /-- A node that is in writes the outcome of a range. -/
  | finishRange (i : ℕ) (range : TokenRange) (status : RunStatus) (counters : JobCounters)
  /-- A node that is in closes the run. -/
  | closeRun (i : ℕ) (status : RunStatus) (counters : JobCounters)

/-- Nobody has called, and there is no run row. -/
def init (now : ℤ) (details : ℤ → Option CassandraStore.DetailRow) : Election :=
  ⟨now, ⟨none, details⟩, fun _ => .calling, none⟩

def setPhase (s : Election) (i : ℕ) (phase : Phase) : Election :=
  { s with phase := Function.update s.phase i phase }

/-- Writes to the rows of the run; a write that fails leaves them alone. -/
def track (s : Election) (call : TrackingCall) : Election :=
  { s with rows := (CassandraStore.tracking.step s.rows call).1 }

variable (calls : ℕ → JoinCall)

/-- One move. -/
def step (s : Election) : Act → Option Election
  | .tick nanos => some { s with now := s.now + nanos }
  | .elect i =>
    match s.phase i with
    | .calling =>
      -- a bound that cannot be stored is an error before anything is written
      match tokenBounds (calls i).ranges with
      | .error e => some (s.setPhase i (.returned (.error e)))
      | .ok bounds =>
        match CassandraStore.insertRunInfoIfNotExists s.rows (calls i).run s.now .notStarted
            (calls i).recorded with
        | none => some (s.setPhase i .lost)
        | some rows => some { (s.setPhase i (.inserting bounds)) with rows, winner := some i }
    | _ => none
  | .insertRange i =>
    match s.phase i with
    | .inserting ((min, max) :: bounds) =>
      some { (s.setPhase i (.inserting bounds)) with
        rows := CassandraStore.insertRunDetail s.rows min max .notStarted }
    | _ => none
  | .markStarted i =>
    match s.phase i with
    | .inserting [] =>
      some { (s.setPhase i (.returned (.ok .initialised))) with
        rows := CassandraStore.insertRunInfo s.rows (calls i).run s.now .started }
    | _ => none
  | .readBack i =>
    match s.phase i with
    | .lost =>
      match s.rows.info with
      | none => some (s.setPhase i (.returned (.error (calls i).notReadBack)))
      | some row =>
        let existing := CassandraStore.decodeRun (calls i).run.runId (calls i).run.table row
        match checkConfigHash existing (calls i).configHash with
        | .error e => some (s.setPhase i (.returned (.error e)))
        | .ok _ => some (s.setPhase i .checked)
    | _ => none
  | .sample i =>
    match s.phase i with
    | .checked => some (s.setPhase i (.awaiting (s.now + (calls i).settings.leaseDuration)))
    | _ => none
  | .poll i =>
    match s.phase i with
    | .awaiting deadline =>
      match s.rows.info with
      | none => some (s.setPhase i (.returned (.error (calls i).disappeared)))
      | some row =>
        match CassandraStore.decodeStatus row.status with
        | .started => some (s.setPhase i (.returned (.ok .joined)))
        | .notStarted => some (s.setPhase i (.polled deadline))
        | terminal => some (s.setPhase i (.returned (.error ((calls i).finished terminal))))
    | _ => none
  | .rest i =>
    match s.phase i with
    | .polled deadline =>
      if deadline ≤ s.now then some (s.setPhase i (.returned (.error (calls i).notStarted)))
      else some (s.setPhase i (.awaiting deadline))
    | _ => none
  | .fail i e =>
    match s.phase i with
    | .returned _ => none
    | _ => some (s.setPhase i (.returned (.error e)))
  | .finishRange i range status counters =>
    match s.phase i with
    | .returned (.ok _) => some (s.track (.updateRange (.finishWrite range status counters.runInfo)
        s.now))
    | _ => none
  | .closeRun i status counters =>
    match s.phase i with
    | .returned (.ok _) => some (s.track (.updateRun status (some counters.runInfo) s.now))
    | _ => none

/-- The calls `calls i` of `join`. -/
def lts : LTS Election Act := ⟨step calls⟩

/-! ### What a call knows -/

/-- The row under `min` is one that the call `w` planned. -/
def Planned (s : Election) (w : ℕ) (min : ℤ) : Prop :=
  ∃ row, s.rows.details min = some row ∧
    ∃ planned ∈ (calls w).ranges, planned.min = min ∧ row.tokenMax = some planned.max

/-- Every range that the call `w` planned has its row. -/
def Published (s : Election) (w : ℕ) : Prop :=
  ∀ range ∈ (calls w).ranges, Planned calls s w range.min

/-- What the call `i` knows in a phase of it. -/
def Knows (s : Election) (i : ℕ) : Phase → Prop
  | .inserting bounds =>
    s.winner = some i ∧
      (∀ bound ∈ bounds, ∃ planned ∈ (calls i).ranges, bound = (planned.min, planned.max)) ∧
      ∀ range ∈ (calls i).ranges, (range.min, range.max) ∈ bounds ∨ Planned calls s i range.min
  | .checked | .awaiting _ | .polled _ =>
    ∃ w, s.winner = some w ∧ (calls i).configHash = (calls w).configHash
  | .returned (.ok .initialised) => s.winner = some i ∧ Published calls s i
  | .returned (.ok .joined) =>
    ∃ w, s.winner = some w ∧ (calls i).configHash = (calls w).configHash ∧ Published calls s w
  | _ => True

/-- What every reachable state satisfies. -/
structure Inv (s : Election) : Prop where
  /-- The run row holds the hash of the winner or none, and is `STARTED` after the range rows. -/
  row : ∀ row, s.rows.info = some row → ∃ w, s.winner = some w ∧
    (∀ hash, recordedHash row.runInfo = some hash → hash = (calls w).configHash) ∧
    (CassandraStore.decodeStatus row.status = .started → Published calls s w)
  /-- Nobody has won while there is no run row. -/
  unelected : s.rows.info = none → s.winner = none
  knows : ∀ i, Knows calls s i (s.phase i)

variable {calls} {s s' : Election}

/-- The winner stays, and so do its rows. -/
structure Extends (calls : ℕ → JoinCall) (s s' : Election) : Prop where
  winner : ∀ w, s.winner = some w → s'.winner = some w
  planned : ∀ w, s.winner = some w → ∀ min, Planned calls s w min → Planned calls s' w min

/-- Before the election there is nothing to keep. -/
theorem Extends.of_unelected (h : s.winner = none) : Extends calls s s' :=
  ⟨fun _ hw => (nomatch h.symm.trans hw), fun _ hw => (nomatch h.symm.trans hw)⟩

theorem Extends.published (h : Extends calls s s') {w : ℕ} (hw : s.winner = some w)
    (hp : Published calls s w) : Published calls s' w :=
  fun range hrange => h.planned w hw _ (hp range hrange)

/-- What a call knows stays true. -/
theorem Extends.knows (h : Extends calls s s') {i : ℕ} {phase : Phase}
    (hk : Knows calls s i phase) : Knows calls s' i phase := by
  match phase with
  | .calling => trivial
  | .lost => trivial
  | .inserting bounds =>
    obtain ⟨hw, hbounds, hranges⟩ := hk
    exact ⟨h.winner i hw, hbounds, fun range hrange =>
      (hranges range hrange).imp_right (h.planned i hw range.min)⟩
  | .checked | .awaiting _ | .polled _ =>
    obtain ⟨w, hw, hhash⟩ := hk
    exact ⟨w, h.winner w hw, hhash⟩
  | .returned (.ok .initialised) =>
    obtain ⟨hw, hp⟩ := hk
    exact ⟨h.winner i hw, h.published hw hp⟩
  | .returned (.ok .joined) =>
    obtain ⟨w, hw, hhash, hp⟩ := hk
    exact ⟨w, h.winner w hw, hhash, h.published hw hp⟩
  | .returned (.error e) => trivial

/-- A call moves to a phase in which it knows what it should. -/
theorem setPhase_inv (hi : Inv calls s) {i : ℕ} {phase : Phase} (hk : Knows calls s i phase) :
    Inv calls (s.setPhase i phase) := by
  refine ⟨hi.row, hi.unelected, fun j => ?_⟩
  show Knows calls s j (Function.update s.phase i phase j)
  by_cases hj : j = i
  · subst hj
    rwa [update_self]
  · rw [update_of_ne hj]
    exact hi.knows j

/-- The run row stays while the range rows change. -/
theorem details_inv (hi : Inv calls s) {details : ℤ → Option CassandraStore.DetailRow}
    (hext : Extends calls s { s with rows := { s.rows with details } }) :
    Inv calls { s with rows := { s.rows with details } } := by
  refine ⟨?_, hi.unelected, fun j => hext.knows (hi.knows j)⟩
  intro row hrow
  obtain ⟨w, hw, hhash, hstarted⟩ := hi.row row hrow
  exact ⟨w, hw, hhash, fun h => hext.published hw (hstarted h)⟩

/-- The range rows stay while the run row changes. -/
theorem info_inv (hi : Inv calls s) {row : CassandraStore.InfoRow} {w : ℕ} (hw : s.winner = some w)
    (hhash : ∀ hash, recordedHash row.runInfo = some hash → hash = (calls w).configHash)
    (hstarted : CassandraStore.decodeStatus row.status = .started → Published calls s w) :
    Inv calls { s with rows := { s.rows with info := some row } } := by
  have hext : Extends calls s { s with rows := { s.rows with info := some row } } :=
    ⟨fun _ h => h, fun _ _ _ h => h⟩
  refine ⟨?_, fun h => ?_, fun j => hext.knows (hi.knows j)⟩
  · intro row' hrow
    cases hrow
    exact ⟨w, hw, hhash, hstarted⟩
  · cases h

theorem recordedHash_recorded (call : JoinCall) :
    recordedHash (some call.recorded) = some call.configHash := by
  simp [recordedHash, JoinCall.recorded, Text.stripPrefix_append]

/-- A metrics string is not a configuration hash. -/
theorem recordedHash_runInfo (counters : JobCounters) :
    recordedHash (some counters.runInfo) = none := by
  obtain ⟨rest, hrest⟩ := counters.runInfo_eq_read
  rw [recordedHash, Option.bind_some, hrest]
  rfl

theorem recordedHash_of_checkConfigHash {existing : RunRecord} {configHash : String}
    (h : checkConfigHash existing configHash = .ok ()) :
    recordedHash existing.info = some configHash := by
  unfold checkConfigHash at h
  split at h
  · rename_i recorded hrecorded
    split_ifs at h with heq
    rw [hrecorded, heq]
  · cases h

/-! ### The steps -/

theorem elect_inv (hi : Inv calls s) (i : ℕ) (hs : step calls s (.elect i) = some s') :
    Inv calls s' := by
  simp only [step] at hs
  split at hs
  · split at hs
    · cases hs
      exact setPhase_inv hi trivial
    · rename_i bounds hbounds
      obtain ⟨-, rfl⟩ := tokenBounds_eq_ok.1 hbounds
      unfold CassandraStore.insertRunInfoIfNotExists at hs
      cases hinfo : s.rows.info with
      | some row =>
        rw [hinfo] at hs
        cases hs
        exact setPhase_inv hi trivial
      | none =>
        rw [hinfo] at hs
        cases hs
        have hnone := hi.unelected hinfo
        refine ⟨?_, fun h => (nomatch h), fun j => ?_⟩
        · intro row hrow
          cases hrow
          refine ⟨i, rfl, fun hash hhash => ?_, fun h => nomatch h⟩
          rw [recordedHash_recorded] at hhash
          exact (Option.some.inj hhash).symm
        · by_cases hj : j = i
          · subst hj
            simp only [setPhase, update_self]
            refine ⟨rfl, fun bound hbound => ?_, fun range hrange => .inl ?_⟩
            · obtain ⟨range, hrange, rfl⟩ := List.mem_map.1 hbound
              exact ⟨range, hrange, rfl⟩
            · exact List.mem_map_of_mem hrange
          · -- nobody else knows of a winner, as there was none
            simp only [setPhase, update_of_ne hj]
            exact (Extends.of_unelected hnone).knows (hi.knows j)
  · cases hs

theorem insertRange_inv (hi : Inv calls s) (i : ℕ) (hs : step calls s (.insertRange i) = some s') :
    Inv calls s' := by
  simp only [step] at hs
  split at hs
  · rename_i min max bounds hphase
    cases hs
    have hknows := hi.knows i
    rw [hphase] at hknows
    obtain ⟨hw, hbounds, hranges⟩ := hknows
    rw [List.forall_mem_cons] at hbounds
    obtain ⟨planned, hplanned, hbound⟩ := hbounds.1
    cases hbound
    -- the row that is written is one that the winner planned
    let rows := CassandraStore.insertRunDetail s.rows planned.min planned.max .notStarted
    have hnew : Planned calls { s with rows } i planned.min :=
      ⟨_, update_self .., planned, hplanned, rfl, rfl⟩
    have hext : Extends calls s { s with rows } := by
      refine ⟨fun _ h => h, ?_⟩
      rintro w hw' min ⟨row, hrow, hrest⟩
      cases hw.symm.trans hw'
      by_cases hmin : min = planned.min
      · subst hmin
        exact hnew
      · exact ⟨row, by rw [← hrow]; exact update_of_ne hmin .., hrest⟩
    refine setPhase_inv (details_inv hi hext) ⟨hw, hbounds.2, fun range hrange => ?_⟩
    rcases hranges range hrange with hmem | hold
    · rcases List.mem_cons.1 hmem with heq | hmem
      · rw [(Prod.mk.inj heq).1]
        exact .inr hnew
      · exact .inl hmem
    · exact .inr (hext.planned i hw range.min hold)
  · cases hs

theorem markStarted_inv (hi : Inv calls s) (i : ℕ) (hs : step calls s (.markStarted i) = some s') :
    Inv calls s' := by
  simp only [step] at hs
  split at hs
  · rename_i hphase
    cases hs
    have hknows := hi.knows i
    rw [hphase] at hknows
    obtain ⟨hw, -, hranges⟩ := hknows
    have hpublished : Published calls s i :=
      fun range hrange => (hranges range hrange).resolve_left List.not_mem_nil
    refine setPhase_inv (info_inv hi hw ?_ fun _ => hpublished) ⟨hw, hpublished⟩
    intro hash hhash
    cases hinfo : s.rows.info with
    | none =>
      rw [hinfo] at hhash
      cases hhash
    | some row =>
      rw [hinfo] at hhash
      obtain ⟨w, hw', hrow, -⟩ := hi.row row hinfo
      cases hw.symm.trans hw'
      exact hrow hash hhash
  · cases hs

theorem readBack_inv (hi : Inv calls s) (i : ℕ) (hs : step calls s (.readBack i) = some s') :
    Inv calls s' := by
  simp only [step] at hs
  split at hs
  · split at hs
    · cases hs
      exact setPhase_inv hi trivial
    · rename_i row hrow
      split at hs
      · cases hs
        exact setPhase_inv hi trivial
      · rename_i hcheck
        cases hs
        obtain ⟨w, hw, hhash, -⟩ := hi.row row hrow
        exact setPhase_inv hi ⟨w, hw, hhash _ (recordedHash_of_checkConfigHash hcheck)⟩
  · cases hs

theorem poll_inv (hi : Inv calls s) (i : ℕ) (hs : step calls s (.poll i) = some s') :
    Inv calls s' := by
  simp only [step] at hs
  split at hs
  · rename_i deadline hphase
    have hknows := hi.knows i
    rw [hphase] at hknows
    split at hs
    · cases hs
      exact setPhase_inv hi trivial
    · rename_i row hrow
      split at hs
      · rename_i hstarted
        cases hs
        obtain ⟨w, hw, hhash⟩ := hknows
        obtain ⟨w', hw', -, hpublished⟩ := hi.row row hrow
        cases hw.symm.trans hw'
        exact setPhase_inv hi ⟨w, hw, hhash, hpublished hstarted⟩
      · cases hs
        exact setPhase_inv hi hknows
      · cases hs
        exact setPhase_inv hi trivial
  · cases hs

/-- A node that is in knows of a winner whose rows are there. -/
theorem Knows.published {i : ℕ} {outcome : JoinOutcome}
    (h : Knows calls s i (.returned (.ok outcome))) : ∃ w, s.winner = some w ∧ Published calls s w := by
  cases outcome with
  | initialised => exact ⟨i, h⟩
  | joined =>
    obtain ⟨w, hw, -, hp⟩ := h
    exact ⟨w, hw, hp⟩

theorem finishRange_inv (hi : Inv calls s) {record : RangeRecord} {now : ℤ} :
    Inv calls (s.track (.updateRange record now)) := by
  unfold track
  cases hbound : tokenBound record.range.min record.range with
  | error e =>
    rw [CassandraStore.tracking, Machine.ofFallible_step_of_error
      (by rw [CassandraStore.track, hbound]; rfl)]
    exact hi
  | ok min =>
    rw [CassandraStore.tracking, Machine.ofFallible_step
      (by rw [CassandraStore.track, hbound]; rfl)]
    refine details_inv hi ⟨fun _ h => h, ?_⟩
    rintro w hw min' ⟨row, hrow, planned, hplanned, hmin, hmax⟩
    by_cases hmin' : min' = min
    · -- the write does not name `token_max`
      subst hmin'
      refine ⟨_, update_self .., planned, hplanned, hmin, ?_⟩
      rw [hrow]
      split_ifs
      · exact hmax
      · exact hmax
    · exact ⟨row, by rw [← hrow]; exact update_of_ne hmin' .., planned, hplanned, hmin, hmax⟩

theorem step_inv (hi : Inv calls s) (a : Act) (hs : step calls s a = some s') : Inv calls s' := by
  cases a with
  | tick nanos =>
    cases hs
    exact ⟨hi.row, hi.unelected, hi.knows⟩
  | elect i => exact elect_inv hi i hs
  | insertRange i => exact insertRange_inv hi i hs
  | markStarted i => exact markStarted_inv hi i hs
  | readBack i => exact readBack_inv hi i hs
  | sample i =>
    have hknows := hi.knows i
    simp only [step] at hs
    split at hs
    · rename_i hphase
      rw [hphase] at hknows
      cases hs
      exact setPhase_inv hi hknows
    · cases hs
  | poll i => exact poll_inv hi i hs
  | rest i =>
    have hknows := hi.knows i
    simp only [step] at hs
    split at hs
    · rename_i hphase
      rw [hphase] at hknows
      split_ifs at hs
      · cases hs
        exact setPhase_inv hi trivial
      · cases hs
        exact setPhase_inv hi hknows
    · cases hs
  | fail i e =>
    simp only [step] at hs
    split at hs
    · cases hs
    · cases hs
      exact setPhase_inv hi trivial
  | finishRange i range status counters =>
    simp only [step] at hs
    split at hs
    · cases hs
      exact finishRange_inv hi
    · cases hs
  | closeRun i status counters =>
    have hknows := hi.knows i
    simp only [step] at hs
    split at hs
    · rename_i outcome hphase
      rw [hphase] at hknows
      cases hs
      obtain ⟨w, hw, hpublished⟩ := hknows.published
      refine info_inv hi hw (fun hash hhash => ?_) fun _ => hpublished
      exact nomatch (recordedHash_runInfo counters).symm.trans hhash
    · cases hs

theorem inv_of_reachable {now : ℤ} {details : ℤ → Option CassandraStore.DetailRow}
    (h : (lts calls).Reachable (init now details) s) : Inv calls s :=
  h.invariant ⟨fun _ h => (nomatch h), fun _ => rfl, fun _ => trivial⟩
    fun _ a _ hi hs => step_inv hi a hs

/-- In every order of the steps of the calls, the calls that return `Initialised` are the one that
won the election; a call that returns `Joined` presented the hash of the winner, and every range that
the winner planned has its row by then. -/
theorem single_initialiser {now : ℤ} {details : ℤ → Option CassandraStore.DetailRow}
    (h : (lts calls).Reachable (init now details) s) :
    (∀ i j, s.phase i = .returned (.ok .initialised) → s.phase j = .returned (.ok .initialised) →
      i = j) ∧
    ∀ i, s.phase i = .returned (.ok .joined) → ∃ w, s.winner = some w ∧
      (calls i).configHash = (calls w).configHash ∧
      ∀ range ∈ (calls w).ranges, ∃ row, s.rows.details range.min = some row ∧
        ∃ planned ∈ (calls w).ranges, planned.min = range.min ∧ row.tokenMax = some planned.max := by
  have hi := inv_of_reachable h
  refine ⟨fun i j hphase hphase' => ?_, fun i hphase => ?_⟩
  · have hknows := hi.knows i
    have hknows' := hi.knows j
    rw [hphase] at hknows
    rw [hphase'] at hknows'
    exact Option.some.inj (hknows.1.symm.trans hknows'.1)
  · have hknows := hi.knows i
    rw [hphase] at hknows
    exact hknows

section Sample

theorem sampleAttempts_pos : 0 < 3 := Nat.succ_pos 2

/-- The nodes `0` and `1` are started with one configuration, all others with another. -/
def sampleCalls (i : ℕ) : JoinCall where
  run := newRunRecord ⟨7⟩ none ⟨"ks", "t"⟩ .migrate 0
  ranges := [.checked 0 4 (.refl true), .checked 5 9 (.refl true)]
  configHash := if i ≤ 1 then "a1" else "b2"
  settings := ⟨60, 20, 3, .reclaim, by decide, by decide, by decide, sampleAttempts_pos⟩

/-- Node `1` loses the election and polls while node `0` inserts the range rows; node `2` reads the
hash of another configuration. -/
def sampleSchedule : List Act :=
  [.elect 0, .elect 1, .elect 2, .readBack 1, .insertRange 0, .sample 1, .poll 1, .insertRange 0,
    .tick 20, .rest 1, .markStarted 0, .readBack 2, .poll 1]

theorem single_initialiser_polling :
    ∃ s, (lts sampleCalls).exec (init 0 fun _ => none) sampleSchedule = some s ∧
      s.phase 0 = .returned (.ok .initialised) ∧ s.phase 1 = .returned (.ok .joined) ∧
      (∀ j, s.phase j = .returned (.ok .initialised) → j = 0) ∧
      ∃ w, s.winner = some w ∧ (sampleCalls 1).configHash = (sampleCalls w).configHash := by
  have hrun : ∃ s, (lts sampleCalls).exec (init 0 fun _ => none) sampleSchedule = some s ∧
      s.phase 0 = .returned (.ok .initialised) ∧ s.phase 1 = .returned (.ok .joined) :=
    ⟨_, rfl, rfl, rfl⟩
  obtain ⟨s, hs, hinitialised, hjoined⟩ := hrun
  have hsingle := single_initialiser ⟨sampleSchedule, hs⟩
  refine ⟨s, hs, hinitialised, hjoined, fun j hj => hsingle.1 j 0 hj hinitialised, ?_⟩
  obtain ⟨w, hw, hhash, -⟩ := hsingle.2 1 hjoined
  exact ⟨w, hw, hhash⟩

end Sample

end Election

end Cdm
