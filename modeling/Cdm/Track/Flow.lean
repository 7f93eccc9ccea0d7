import Cdm.Lib.Keyed
import Cdm.Track.LastWrite

/-!
# What goes through the tracking writer

Each move of the tracker changes the calls that are being made, the writes on their way and the rows
in one of a few ways.  This is stated once for all moves (`CallStep`, `ItemStep`), and what follows
for a whole run is derived from it: no write is lost, added or, within a range, reordered between the
calls and the history; the rows, and what is on its way to them, are of the ranges the calls were
about; and the run row is written once, with what `finish` was given.
-/

namespace Cdm

open List
open Std (TreeMap)

namespace Item

/-- The record of a range write. -/
def record? : Item → Option RangeRecord
  | range _ record => some record
  | run .. => none

@[simp] theorem record?_range (ticket : ℕ) (record : RangeRecord) :
    (range ticket record).record? = some record := rfl

@[simp] theorem record?_run (status : RunStatus) (info : Option String) :
    (run status info).record? = none := rfl

@[simp] theorem isRun_range (ticket : ℕ) (record : RangeRecord) :
    (range ticket record).isRun = false := rfl

@[simp] theorem isRun_run (status : RunStatus) (info : Option String) :
    (run status info).isRun = true := rfl

end Item

namespace Tracker

variable {config : TrackerConfig} {s s' : Tracker} {act : Act}

/-- The range write that a move brings in. -/
def enqueued : Act → Option RangeRecord
  | .startRange range now => some (.startWrite range now)
  | .finishRange range status runInfo => some (.finishWrite range status runInfo)
  | _ => none

/-- The run write is sent, or a task is spawned for it. -/
theorem enqueueRun_cases (s : Tracker) (config : TrackerConfig) (status : RunStatus)
    (info : String) :
    s.enqueueRun config status info = { s with
        finishedAt := some s.history.length
        queue := s.queue ++ [Item.run status (some info)] } ∨
      s.enqueueRun config status info = { s with
        finishedAt := some s.history.length
        spawned := some (.run status (some info)) } := by
  simp only [enqueueRun]
  split_ifs
  · exact .inl rfl
  · exact .inr rfl

/-! ### The calls -/

/-- What a move does to the calls and to the history. -/
inductive CallStep (s s' : Tracker) : Option RangeRecord → Prop
  /-- A call begins, and there is no other of its range. -/
  | began (record : RangeRecord) (stage : CallStage)
      (hnone : ∀ c ∈ s.calls, c.record.range.min ≠ record.range.min)
      (hcalls : s'.calls = s.calls ++ [⟨record, stage⟩]) (hhistory : s'.history = s.history) :
      CallStep s s' (some record)
  /-- A call goes on, or there is no change. -/
  | went (hcalls : s'.calls.map Call.record = s.calls.map Call.record)
      (hhistory : s'.history = s.history) : CallStep s s' none
  /-- A call returns, and its write is in the channel or in the map. -/
  | returned (i : ℕ) (call : Call) (hcall : s.calls[i]? = some call)
      (hcalls : s'.calls = s.calls.eraseIdx i) (hhistory : s'.history = s.history ++ [call.record]) :
      CallStep s s' none

theorem callStep_enqueue {record : RangeRecord} (h : s.enqueue record = some s') :
    CallStep s s' (some record) := by
  simp only [enqueue] at h
  split_ifs at h with hbusy
  all_goals
    cases h
    refine .began record _ (fun c hc heq => hbusy ?_) rfl rfl
    exact any_eq_true.2 ⟨c, hc, decide_eq_true heq⟩

theorem callStep_step (h : step config s act = some s') : CallStep s s' (enqueued act) := by
  rcases act with ⟨range, now⟩ | ⟨range, status, info⟩ | i | i | ⟨status, info⟩ | - | - | - | - |
    - | - | - | now
  · exact callStep_enqueue h
  · exact callStep_enqueue h
  · simp only [step] at h
    split at h
    · next record hc =>
      cases h
      by_cases hroom : s.hasRoom config = true
      · rw [if_pos hroom]
        exact .returned i _ hc rfl rfl
      · rw [if_neg hroom]
        refine .went ?_ rfl
        obtain ⟨hlt, hget⟩ := List.getElem?_eq_some_iff.1 hc
        have hlen : i < (s.calls.map Call.record).length := by simpa using hlt
        have hset := set_getElem_self hlen
        simpa [shedCall, map_set, hget] using hset
    · simp at h
  · simp only [step] at h
    split at h
    · next record clone hc =>
      cases h
      exact .returned i _ hc rfl rfl
    · simp at h
  · simp only [step] at h
    split_ifs at h
    cases h
    rcases s.enqueueRun_cases config status info with heq | heq
    · rw [heq]
      exact .went rfl rfl
    · rw [heq]
      exact .went rfl rfl
  · simp only [step] at h
    split_ifs at h
    cases h
    exact .went rfl rfl
  · simp only [step] at h
    split at h
    · split_ifs at h
      cases h
      exact .went rfl rfl
    · simp at h
  · simp only [step] at h
    split_ifs at h
    cases h
    exact .went rfl rfl
  · simp only [step] at h
    split_ifs at h
    cases h
    exact .went rfl rfl
  · simp only [step] at h
    split_ifs at h
    cases h
    exact .went rfl rfl
  · simp only [step] at h
    split_ifs at h
    cases h
    exact .went rfl rfl
  · simp only [step] at h
    split_ifs at h
    cases h
    exact .went rfl rfl
  · simp only [step] at h
    split at h
    · simp at h
    · next item rest hrest =>
      cases h
      rcases item with ⟨ticket, record⟩ | ⟨status, info⟩
      · exact .went rfl rfl
      · exact .went rfl rfl

/-- Every call is an old one or the one that began. -/
theorem CallStep.mem {w : Option RangeRecord} (h : CallStep s s' w) {c : Call} (hc : c ∈ s'.calls) :
    (∃ c' ∈ s.calls, c'.record = c.record) ∨ w = some c.record := by
  rcases h with ⟨record, stage, -, hcalls, -⟩ | ⟨hcalls, -⟩ | ⟨i, call, -, hcalls, -⟩
  · rw [hcalls, mem_append, mem_singleton] at hc
    rcases hc with hc | rfl
    · exact .inl ⟨c, hc, rfl⟩
    · exact .inr rfl
  · have hmem : c.record ∈ s.calls.map Call.record := hcalls ▸ mem_map_of_mem hc
    exact .inl (mem_map.1 hmem)
  · rw [hcalls] at hc
    exact .inl ⟨c, mem_of_mem_eraseIdx hc, rfl⟩

/-- The writes of the range that starts at `k` that are being enqueued. -/
def waitingAt (s : Tracker) (k : ℤ) : List RangeRecord :=
  (s.calls.map Call.record).filter fun w => w.range.min = k

/-- The writes of the range that starts at `k` that have been enqueued or are being enqueued, in the
order of the calls. -/
def asked (s : Tracker) (k : ℤ) : List RangeRecord := s.writesAt k ++ s.waitingAt k

/-- No two calls are about one range. -/
def OneCall (s : Tracker) : Prop := (s.calls.map fun c => c.record.range.min).Nodup

theorem oneCall_step (hone : s.OneCall) {w : Option RangeRecord} (h : CallStep s s' w) :
    s'.OneCall := by
  unfold OneCall at *
  rcases h with ⟨record, stage, hnone, hcalls, -⟩ | ⟨hcalls, -⟩ | ⟨i, call, -, hcalls, -⟩
  · rw [hcalls, map_append, map_singleton, nodup_append]
    refine ⟨hone, by simp, ?_⟩
    intro a ha b hb heq
    obtain ⟨c, hc, rfl⟩ := mem_map.1 ha
    exact hnone c hc (heq.trans (mem_singleton.1 hb))
  · have hmins := congrArg (List.map fun w : RangeRecord => w.range.min) hcalls
    simp only [map_map] at hmins
    exact (show s'.calls.map _ = s.calls.map _ from hmins) ▸ hone
  · rw [hcalls]
    exact hone.sublist ((eraseIdx_sublist ..).map _)

theorem waitingAt_eq (s : Tracker) (k : ℤ) :
    s.waitingAt k = (s.calls.filter fun c => c.record.range.min = k).map Call.record := by
  rw [waitingAt, filter_map]
  rfl

/-- **What a move does to the writes of a range**: it adds the one it brings in, at the end. -/
theorem asked_step (hone : s.OneCall) {w : Option RangeRecord} (h : CallStep s s' w) (k : ℤ) :
    s'.asked k = s.asked k ++ w.toList.filter fun w => w.range.min = k := by
  rcases h with ⟨record, stage, -, hcalls, hhistory⟩ | ⟨hcalls, hhistory⟩ |
    ⟨i, call, hcall, hcalls, hhistory⟩
  · simp [asked, waitingAt, writesAt, hcalls, hhistory]
  · simp [asked, waitingAt, writesAt, hcalls, hhistory]
  · rw [asked, asked, writesAt_append s call.record k hhistory, waitingAt_eq, waitingAt_eq, hcalls]
    by_cases hk : call.record.range.min = k
    · -- the call that returns is the only one of its range
      subst hk
      rw [Keyed.filter_eq_singleton (g := fun c : Call => c.record.range.min) hone
        (mem_of_getElem? hcall), Keyed.filter_eraseIdx hone hcall]
      simp
    · rw [Keyed.filter_eraseIdx_of_ne (g := fun c : Call => c.record.range.min) hcall hk]
      simp [hk]

/-! ### The writes on their way -/

/-- The writes that have been sent or taken and are not applied. -/
def items (s : Tracker) : List Item := s.rest ++ s.queue ++ s.spawned.toList

/-- A call is making the write, or the checkpoint map holds it. -/
def Holds (s : Tracker) (record : RangeRecord) : Prop :=
  (∃ c ∈ s.calls, c.record = record) ∨ ∃ (k : ℤ) (old : Shed), s.pending[k]? = some old ∧
    old.record = record

/-- What a move does to the writes on their way and to the rows. -/
inductive ItemStep (s s' : Tracker) (act : Act) : Prop
  /-- Range writes are sent or taken; perhaps none. -/
  | took (new : List Item) (hitems : s'.items.Perm (s.items ++ new))
      (hnew : ∀ item ∈ new, ∃ ticket record, item = .range ticket record ∧ s.Holds record)
      (hstore : s'.store = s.store) (hfinished : s'.finishedAt = s.finishedAt)
      (hact : ∀ status info, act ≠ .finish status info)
  /-- `finish` brings in the run write. -/
  | closed (status : RunStatus) (info : String) (hact : act = .finish status info)
      (hfirst : s.finishedAt = none) (hitems : s'.items.Perm (s.items ++ [Item.run status (some info)]))
      (hstore : s'.store = s.store) (hfinished : s'.finishedAt.isSome = true)
  /-- A range write is applied. -/
  | appliedRange (ticket : ℕ) (record : RangeRecord)
      (hitems : s.items.Perm (.range ticket record :: s'.items))
      (hstore : s'.store = s.store.updateRange record) (hfinished : s'.finishedAt = s.finishedAt)
      (hact : ∀ status info, act ≠ .finish status info)
  /-- The run write is applied. -/
  | appliedRun (status : RunStatus) (info : Option String) (now : ℤ)
      (hitems : s.items.Perm (.run status info :: s'.items))
      (hstore : s'.store = s.store.updateRun status info now)
      (hfinished : s'.finishedAt = s.finishedAt) (hact : ∀ status info, act ≠ .finish status info)

/-- A move that only moves writes about. -/
theorem ItemStep.same (hitems : s'.items.Perm s.items) (hstore : s'.store = s.store)
    (hfinished : s'.finishedAt = s.finishedAt) (hact : ∀ status info, act ≠ .finish status info) :
    ItemStep s s' act :=
  .took [] (by simpa using hitems) (by simp) hstore hfinished hact

/-- Taking the checkpoint map, for any phase that follows. -/
theorem ItemStep.takePending (hrest : s.rest = []) (phase : TrackerPhase)
    (hact : ∀ status info, act ≠ .finish status info) :
    ItemStep s { s.takePending with phase := phase } act := by
  refine .took ((Table.rows s.pending).map Shed.item) ?_ ?_ rfl rfl hact
  · simp only [items, Tracker.takePending, hrest, nil_append, append_assoc]
    exact perm_append_comm.trans (by simp)
  · intro item hitem
    obtain ⟨old, hold, rfl⟩ := mem_map.1 hitem
    obtain ⟨k, hk⟩ := Table.mem_rows.1 hold
    exact ⟨_, _, rfl, .inr ⟨k, old, hk, rfl⟩⟩

theorem itemStep_enqueue {record : RangeRecord} (h : s.enqueue record = some s')
    (hact : ∀ status info, act ≠ .finish status info) : ItemStep s s' act := by
  simp only [enqueue] at h
  split_ifs at h
  all_goals
    cases h
    exact .same (.refl _) rfl rfl hact

/-- Before `finish`, no task has been spawned. -/
def Unspawned (s : Tracker) : Prop := s.finishedAt = none → s.spawned = none

theorem itemStep_step (hspawned : s.Unspawned) (h : step config s act = some s') :
    ItemStep s s' act := by
  rcases act with ⟨range, now⟩ | ⟨range, status, info⟩ | i | i | ⟨status, info⟩ | - | - | - | - |
    - | - | - | now
  · exact itemStep_enqueue h (by simp)
  · exact itemStep_enqueue h (by simp)
  · simp only [step] at h
    split at h
    · next record hc =>
      cases h
      by_cases hroom : s.hasRoom config = true
      · rw [if_pos hroom]
        refine .took [.range s.history.length record] ?_ ?_ rfl rfl (by simp)
        · simp only [items, send, append_assoc]
          exact (perm_append_comm.append_left _).append_left _
        · simp only [mem_singleton, forall_eq]
          exact ⟨_, _, rfl, .inl ⟨_, mem_of_getElem? hc, rfl⟩⟩
      · rw [if_neg hroom]
        exact .same (.refl _) rfl rfl (by simp)
    · simp at h
  · simp only [step] at h
    split at h
    · cases h
      exact .same (.refl _) rfl rfl (by simp)
    · simp at h
  · simp only [step] at h
    split_ifs at h with hf
    cases h
    have hfirst : s.finishedAt = none := by simpa using hf
    rcases s.enqueueRun_cases config status info with heq | heq
    · rw [heq]
      refine .closed status info rfl hfirst ?_ rfl rfl
      simp only [items, append_assoc]
      exact (perm_append_comm.append_left _).append_left _
    · rw [heq]
      refine .closed status info rfl hfirst ?_ rfl rfl
      simp [items, hspawned hfirst]
  · simp only [step] at h
    split_ifs at h
    cases h
    exact .same (.refl _) rfl rfl (by simp)
  · simp only [step] at h
    split at h
    · next item hspawned =>
      split_ifs at h
      cases h
      refine .same ?_ rfl rfl (by simp)
      simp [items, hspawned]
    · simp at h
  · simp only [step] at h
    split_ifs at h with hc
    cases h
    refine .same ?_ rfl rfl (by simp)
    simp [items, batch, hc.2.1]
  · simp only [step] at h
    split_ifs at h with hc
    cases h
    exact .takePending hc.2 s.phase (by simp)
  · simp only [step] at h
    split_ifs at h with hc
    cases h
    exact .takePending hc.2.1 .draining (by simp)
  · simp only [step] at h
    split_ifs at h with hc
    cases h
    exact .takePending hc.2 .closing (by simp)
  · simp only [step] at h
    split_ifs at h
    cases h
    exact .same (.refl _) rfl rfl (by simp)
  · simp only [step] at h
    split at h
    · simp at h
    · next item rest hrest =>
      cases h
      rcases item with ⟨ticket, record⟩ | ⟨status, info⟩
      · exact .appliedRange ticket record (by simp [items, hrest, applyItem]) rfl rfl (by simp)
      · exact .appliedRun status info now (by simp [items, hrest, applyItem]) rfl rfl (by simp)

/-- Where the writes in the map come from. -/
theorem pending_step (h : step config s act = some s') (k : ℤ) :
    ∀ old ∈ s'.pending[k]?, old ∈ s.pending[k]? ∨ ∃ c ∈ s.calls, c.record = old.record := by
  have hempty : ∀ old ∈ (∅ : TreeMap ℤ Shed)[k]?,
      old ∈ s.pending[k]? ∨ ∃ c ∈ s.calls, c.record = old.record := by simp
  rcases act with ⟨range, now⟩ | ⟨range, status, info⟩ | i | i | ⟨status, info⟩ | - | - | - | - |
    - | - | - | now
  · simp only [step, enqueue] at h
    split_ifs at h
    all_goals
      cases h
      exact fun _ => .inl
  · simp only [step, enqueue] at h
    split_ifs at h
    all_goals
      cases h
      exact fun _ => .inl
  · simp only [step] at h
    split at h
    · cases h
      split_ifs
      · exact fun _ => .inl
      · exact fun _ => .inl
    · simp at h
  · simp only [step] at h
    split at h
    · next record clone hc =>
      cases h
      intro old hold
      simp only [fold, TreeMap.getElem?_insert, compare_eq_iff_eq] at hold
      split_ifs at hold with hk
      · obtain rfl := Option.some.inj hold
        exact .inr ⟨_, mem_of_getElem? hc, rfl⟩
      · exact .inl hold
    · simp at h
  · simp only [step] at h
    split_ifs at h
    cases h
    rcases s.enqueueRun_cases config status info with heq | heq
    · rw [heq]
      exact fun _ => .inl
    · rw [heq]
      exact fun _ => .inl
  · simp only [step] at h
    split_ifs at h
    cases h
    exact fun _ => .inl
  · simp only [step] at h
    split at h
    · split_ifs at h
      cases h
      exact fun _ => .inl
    · simp at h
  · simp only [step] at h
    split_ifs at h
    cases h
    exact fun _ => .inl
  · simp only [step] at h
    split_ifs at h
    cases h
    exact hempty
  · simp only [step] at h
    split_ifs at h
    cases h
    exact hempty
  · simp only [step] at h
    split_ifs at h
    cases h
    exact hempty
  · simp only [step] at h
    split_ifs at h
    cases h
    exact fun _ => .inl
  · simp only [step] at h
    split at h
    · simp at h
    · next item rest hrest =>
      cases h
      rcases item with ⟨ticket, record⟩ | ⟨status, info⟩
      · exact fun _ => .inl
      · exact fun _ => .inl

/-! ### The ranges of the rows -/

/-- Every write and every row is of a range with the property, and the rows are under their keys. -/
structure Within (R : TokenRange → Prop) (s : Tracker) : Prop where
  holds : ∀ record, s.Holds record → R record.range
  items : ∀ item ∈ s.items, ∀ record ∈ item.record?, R record.range
  rows : ∀ (k : ℤ), ∀ row ∈ s.store.ranges[k]?, R row.range ∧ row.range.min = k

theorem step_within {R : TokenRange → Prop} (hi : s.Within R) (hspawned : s.Unspawned)
    (h : step config s act = some s') (hact : ∀ record ∈ enqueued act, R record.range) :
    s'.Within R := by
  refine ⟨?_, ?_, ?_⟩
  · rintro record (⟨c, hc, rfl⟩ | ⟨k, old, hold, rfl⟩)
    · rcases (callStep_step h).mem hc with ⟨c', hc', heq⟩ | hw
      · exact hi.holds _ (.inl ⟨c', hc', heq⟩)
      · exact hact _ hw
    · rcases pending_step h k old hold with hold | ⟨c, hc, heq⟩
      · exact hi.holds _ (.inr ⟨k, old, hold, rfl⟩)
      · exact hi.holds _ (.inl ⟨c, hc, heq⟩)
  · intro item hitem record hrecord
    rcases itemStep_step hspawned h with ⟨new, hitems, hnew, -⟩ | ⟨status, info, -, -, hitems, -⟩ |
      ⟨ticket, record', hitems, -⟩ | ⟨status, info, now, hitems, -⟩
    · rcases mem_append.1 (hitems.mem_iff.1 hitem) with hmem | hmem
      · exact hi.items item hmem record hrecord
      · obtain ⟨ticket, record', rfl, hholds⟩ := hnew item hmem
        obtain rfl : record' = record := by simpa using hrecord
        exact hi.holds _ hholds
    · rcases mem_append.1 (hitems.mem_iff.1 hitem) with hmem | hmem
      · exact hi.items item hmem record hrecord
      · rw [mem_singleton.1 hmem] at hrecord
        simp at hrecord
    · exact hi.items item (hitems.mem_iff.2 (mem_cons_of_mem _ hitem)) record hrecord
    · exact hi.items item (hitems.mem_iff.2 (mem_cons_of_mem _ hitem)) record hrecord
  · intro k row hrow
    rcases itemStep_step hspawned h with ⟨new, -, -, hstore, -⟩ | ⟨status, info, -, -, -, hstore, -⟩ |
      ⟨ticket, record, hitems, hstore, -⟩ | ⟨status, info, now, -, hstore, -⟩
    · exact hi.rows k row (hstore ▸ hrow)
    · exact hi.rows k row (hstore ▸ hrow)
    · rw [hstore, StoredRun.getElem?_updateRange] at hrow
      by_cases hk : k = record.range.min
      · rw [if_pos hk] at hrow
        obtain rfl := Option.some.inj hrow
        have hrecord := hi.items _ (hitems.mem_iff.2 mem_cons_self) record rfl
        simpa using ⟨hrecord, hk.symm⟩
      · rw [if_neg hk] at hrow
        exact hi.rows k row hrow
    · rw [hstore, StoredRun.updateRun_ranges] at hrow
      exact hi.rows k row hrow

/-! ### The run row -/

/-- What `finish` is given. -/
def finishes : Act → Option (RunStatus × String)
  | .finish status info => some (status, info)
  | _ => none

theorem finishes_eq_none (h : ∀ status info, act ≠ .finish status info) : finishes act = none := by
  unfold finishes
  split
  · exact absurd rfl (h _ _)
  · rfl

/-- The run writes on their way. -/
def runs (s : Tracker) : List Item := s.items.filter Item.isRun

/-- The run row after the write of `finish`. -/
def runRow (first : RunRecord) (status : RunStatus) (info : String) (now : ℤ) : RunRecord :=
  (StoredRun.updateRun ⟨first, ∅⟩ status (some info) now).info

/-- Before `finish`, the run row is as it was created; from then on its write is on its way, or it
has been applied. -/
def RunOnce (first : RunRecord) (s : Tracker) : Option (RunStatus × String) → Prop
  | none => s.finishedAt = none ∧ s.runs = [] ∧ s.store.info = first
  | some (status, info) => s.finishedAt.isSome = true ∧
      (s.runs = [.run status (some info)] ∧ s.store.info = first ∨
        s.runs = [] ∧ ∃ now, s.store.info = runRow first status info now)

theorem RunOnce.unspawned {first : RunRecord} {written : Option (RunStatus × String)}
    (hi : s.RunOnce first written) (hspawns : ∀ item, s.spawned = some item → item.isRun = true) :
    s.Unspawned := by
  intro hnone
  rcases written with - | ⟨status, info⟩
  · refine Option.eq_none_iff_forall_ne_some.2 fun item hitem => ?_
    have hmem : item ∈ s.runs :=
      mem_filter.2 ⟨mem_append_right _ (by simp [hitem]), hspawns item hitem⟩
    simp [hi.2.1] at hmem
  · have hsome := hi.1
    simp [hnone] at hsome

/-- Nothing changes for the run row. -/
theorem RunOnce.of_perm {first : RunRecord} {written : Option (RunStatus × String)}
    (hi : s.RunOnce first written) (hruns : s'.runs.Perm s.runs)
    (hfinished : s'.finishedAt = s.finishedAt) (hinfo : s'.store.info = s.store.info) :
    s'.RunOnce first written := by
  have heq : s'.runs = s.runs := by
    rcases written with - | ⟨status, info⟩
    · exact hi.2.1 ▸ perm_nil.1 (hi.2.1 ▸ hruns)
    · rcases hi.2 with ⟨hone, -⟩ | ⟨hnone, -⟩
      · exact hone ▸ perm_singleton.1 (hone ▸ hruns)
      · exact hnone ▸ perm_nil.1 (hnone ▸ hruns)
  rcases written with - | ⟨status, info⟩
  · rw [RunOnce, heq, hfinished, hinfo]
    exact hi
  · rw [RunOnce, heq, hfinished, hinfo]
    exact hi

theorem step_runOnce {first : RunRecord} {written : Option (RunStatus × String)}
    (hi : s.RunOnce first written) (hspawns : ∀ item, s.spawned = some item → item.isRun = true)
    (h : step config s act = some s') : s'.RunOnce first (written.or (finishes act)) := by
  have hkeep (hact : ∀ status info, act ≠ .finish status info) :
      written.or (finishes act) = written := by
    rw [finishes_eq_none hact, Option.or_none]
  rcases itemStep_step (hi.unspawned hspawns) h with ⟨new, hitems, hnew, hstore, hfinished, hact⟩ |
    ⟨status, info, rfl, hfirst, hitems, hstore, hfinished⟩ |
    ⟨ticket, record, hitems, hstore, hfinished, hact⟩ |
    ⟨status, info, now, hitems, hstore, hfinished, hact⟩
  · have hnone : new.filter Item.isRun = [] := by
      refine filter_eq_nil_iff.2 fun item hitem => ?_
      obtain ⟨ticket, record, rfl, -⟩ := hnew item hitem
      simp
    have hruns : s'.runs.Perm s.runs := by
      simpa [runs, filter_append, hnone] using hitems.filter Item.isRun
    rw [hkeep hact]
    exact hi.of_perm hruns hfinished (by rw [hstore])
  · rcases written with - | ⟨status', info'⟩
    · have hruns := hitems.filter Item.isRun
      rw [filter_append, ← runs, ← runs, hi.2.1] at hruns
      exact ⟨hfinished, .inl ⟨perm_singleton.1 hruns, by rw [hstore, hi.2.2]⟩⟩
    · have hsome := hi.1
      simp [hfirst] at hsome
  · have hruns : s.runs.Perm s'.runs := by
      simpa [runs] using hitems.filter Item.isRun
    rw [hkeep hact]
    exact hi.of_perm hruns.symm hfinished (by rw [hstore, StoredRun.updateRange_info])
  · have hruns := hitems.filter Item.isRun
    rw [filter_cons_of_pos (Item.isRun_run ..), ← runs, ← runs] at hruns
    rw [hkeep hact]
    rcases written with - | ⟨status', info'⟩
    · rw [hi.2.1] at hruns
      simpa using hruns.length_eq
    · rcases hi.2 with ⟨hone, hinfo⟩ | ⟨hnone, -⟩
      · -- the write that is applied is the one of `finish`
        rw [hone] at hruns
        obtain ⟨hwrite, hrest⟩ := cons_eq_cons.1 (singleton_perm.1 hruns)
        cases hwrite
        refine ⟨hfinished ▸ hi.1, .inr ⟨hrest.symm, now, ?_⟩⟩
        rw [hstore, runRow, ← hinfo]
        rfl
      · rw [hnone] at hruns
        simpa using hruns.length_eq

end Tracker

end Cdm
