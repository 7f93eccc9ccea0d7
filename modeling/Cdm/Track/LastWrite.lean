import Cdm.Track.Tracker

/-!
# When the last write of a range wins

A write that is shed into the checkpoint map overtakes, or is overtaken by, the writes of the same
range in the channel: the map is applied at moments that have nothing to do with the order of the
calls.  After `finish` has returned, the row of a range can therefore hold an older state than the
last one that was recorded (`last_write_lost`).

`InOrder` is the condition under which this does not happen: no write enters the channel behind one
of its range in the map, the timer does not take a map that has overtaken the channel, a shed write
without metrics does not replace one with metrics, and no write comes after the map was taken for
the last time.
-/

namespace Cdm

open List
open Std (TreeMap)

/-! ### Replaying writes on a row -/

/-- The status and the metrics string of a row. -/
def rowOutcome (row : Option RangeRecord) : Option (RunStatus × Option String) :=
  row.map fun r => (r.status, r.info)

/-- The row after a list of writes. -/
def replay (row : Option RangeRecord) (writes : List RangeRecord) : Option RangeRecord :=
  writes.foldl (fun row w => some (StoredRun.mergeRow row w)) row

theorem replay_append (row : Option RangeRecord) (ws vs : List RangeRecord) :
    replay row (ws ++ vs) = replay (replay row ws) vs := by
  simp [replay]

theorem rowOutcome_mergeRow (row : Option RangeRecord) (w : RangeRecord) :
    rowOutcome (some (StoredRun.mergeRow row w)) =
      some (w.status, w.info.or ((rowOutcome row).bind Prod.snd)) := by
  cases row <;> simp [StoredRun.mergeRow, rowOutcome]

/-- The outcome of a row after some writes depends only on its outcome before. -/
theorem rowOutcome_replay_congr {row row' : Option RangeRecord} (ws : List RangeRecord)
    (h : rowOutcome row = rowOutcome row') :
    rowOutcome (replay row ws) = rowOutcome (replay row' ws) := by
  induction ws generalizing row row' with
  | nil => exact h
  | cons w ws ih =>
    have hw : rowOutcome (some (StoredRun.mergeRow row w)) =
        rowOutcome (some (StoredRun.mergeRow row' w)) := by
      rw [rowOutcome_mergeRow, rowOutcome_mergeRow, h]
    exact ih hw

/-- A write may be left out before another one, unless it is the only one with metrics. -/
theorem rowOutcome_replay_skip (row : Option RangeRecord) {old w : RangeRecord}
    (h : w.info = none → old.info = none) :
    rowOutcome (replay row [old, w]) = rowOutcome (replay row [w]) := by
  change rowOutcome (some (StoredRun.mergeRow (some (StoredRun.mergeRow row old)) w)) =
    rowOutcome (some (StoredRun.mergeRow row w))
  rw [rowOutcome_mergeRow, rowOutcome_mergeRow, rowOutcome_mergeRow]
  cases hw : w.info with
  | none => simp [h hw]
  | some m => simp

/-- The last write decides the status. -/
theorem rowOutcome_replay_concat (row : Option RangeRecord) (ws : List RangeRecord)
    (w : RangeRecord) :
    (rowOutcome (replay row (ws ++ [w]))).map Prod.fst = some w.status := by
  rw [replay_append]
  change (rowOutcome (some (StoredRun.mergeRow _ w))).map Prod.fst = _
  rw [rowOutcome_mergeRow]
  rfl

/-- The last write with metrics decides the metrics. -/
theorem info_replay (row : Option RangeRecord) (ws vs : List RangeRecord) {w : RangeRecord}
    {m : String} (hw : w.info = some m) (hv : ∀ v ∈ vs, v.info = none) :
    (rowOutcome (replay row (ws ++ w :: vs))).bind Prod.snd = some m := by
  rw [replay_append]
  suffices H : ∀ row', (rowOutcome row').bind Prod.snd = some m →
      (rowOutcome (replay row' vs)).bind Prod.snd = some m by
    refine H (some (StoredRun.mergeRow _ w)) ?_
    rw [rowOutcome_mergeRow, hw]
    rfl
  induction vs with
  | nil => exact fun _ h => h
  | cons v vs ih =>
    intro row' h
    refine ih (fun u hu => hv u (mem_cons_of_mem _ hu)) (some (StoredRun.mergeRow row' v)) ?_
    rw [rowOutcome_mergeRow, hv v mem_cons_self]
    exact h

theorem Item.at?_eq_none {item : Item} {k : ℤ} (h : item.key? ≠ some k) : item.at? k = none := by
  cases item with
  | range ticket record => exact if_neg fun hk => h (congrArg some hk)
  | run status info => rfl

theorem Item.key?_ne_of_isRun {item : Item} {k : ℤ} (h : item.isRun = true) :
    item.key? ≠ some k := by
  cases item with
  | range ticket record => cases h
  | run status info => exact fun h => by cases h

namespace Tracker

variable (config : TrackerConfig)

/-! ### What `finish` should leave behind -/

/-- The writes of the range that starts at `k`. -/
def writesAt (s : Tracker) (k : ℤ) : List RangeRecord :=
  s.history.filter fun w => w.range.min = k

/-- Every row has the status of the last write of its range, and the metrics string of the last
write of its range that carried one. -/
structure Settled (s : Tracker) : Prop where
  status : ∀ k before (w : RangeRecord), s.writesAt k = before ++ [w] →
    ∃ row, s.store.ranges[k]? = some row ∧ row.status = w.status
  metrics : ∀ k before (w : RangeRecord) after m, s.writesAt k = before ++ w :: after → w.info = some m →
    (∀ v ∈ after, v.info = none) → ∃ row, s.store.ranges[k]? = some row ∧ row.info = some m

/-- The condition on a step. -/
def InOrder (s : Tracker) : Act → Prop
  | .trySend i => ∀ c ∈ s.calls[i]?, s.hasRoom config = true → s.pending[c.record.range.min]? = none
  | .fold i => ∀ c ∈ s.calls[i]?, (s.phase = .looping ∨ s.phase = .draining) ∧
      ∀ old ∈ s.pending[c.record.range.min]?, c.record.info = none → old.record.info = none
  | .tick => ∀ item ∈ s.queue, ∀ k ∈ item.key?, s.pending[k]? = none
  | _ => True

instance decidableInOrder (s : Tracker) : ∀ act, Decidable (s.InOrder config act)
  | .trySend i => inferInstanceAs (Decidable (∀ c ∈ s.calls[i]?, _ → _))
  | .fold i => inferInstanceAs (Decidable (∀ c ∈ s.calls[i]?, _ ∧ ∀ old ∈ _, _ → _))
  | .tick => inferInstanceAs (Decidable (∀ item ∈ s.queue, ∀ k ∈ item.key?, _))
  | .startRange .. | .finishRange .. | .finish .. | .dropSender | .spawnedSend | .recv | .drain
  | .join | .done | .apply _ => .isTrue trivial

/-! ### The writes on their way -/

/-- The writes to the row of `k` that are on their way, in the order they will be applied. -/
def pipeline (s : Tracker) (k : ℤ) : List RangeRecord :=
  (s.rest ++ s.queue).filterMap (Item.at? k) ++ (s.pending[k]?.map Shed.record).toList

variable {config} {store : StoredRun}

/-- What holds in every state of a run whose steps are in order. -/
structure OrderInv (store : StoredRun) (s : Tracker) : Prop where
  /-- The checkpoint map is keyed by the range of its writes. -/
  keyed : ∀ (k : ℤ) (old : Shed), s.pending[k]? = some old → old.record.range.min = k
  /-- Only `finish` drops the sender. -/
  finishing : s.sender = false → s.finishedAt.isSome = true
  /-- The spawned task sends the run write. -/
  spawnsRun : ∀ item, s.spawned = some item → item.isRun = true
  /-- Once the writer has left its loop, nothing enters the channel. -/
  closed : s.phase ≠ .looping → s.queue = [] ∧ s.sender = false ∧ s.spawned = none ∧
    ∀ c ∈ s.calls, c.holdsSender = false
  /-- After the last checkpoint, nothing is left in the map. -/
  taken : s.phase = .closing ∨ s.phase = .finished → ∀ k : ℤ, s.pending[k]? = none
  idle : s.phase = .finished → s.rest = []
  /-- The rows, with the writes on their way, have the outcome of the whole history. -/
  replayed : ∀ k : ℤ, rowOutcome (replay s.store.ranges[k]? (s.pipeline k)) =
    rowOutcome (replay store.ranges[k]? (s.writesAt k))

theorem writesAt_append (s : Tracker) (w : RangeRecord) (k : ℤ) {s' : Tracker}
    (h : s'.history = s.history ++ [w]) :
    s'.writesAt k = s.writesAt k ++ if w.range.min = k then [w] else [] := by
  unfold writesAt
  rw [h, filter_append]
  by_cases hk : w.range.min = k <;> simp [hk]

/-- The writes of the checkpoint map, taken in key order, hold one write of each range in it. -/
theorem filterMap_takePending {s : Tracker}
    (hkeyed : ∀ (k : ℤ) (old : Shed), s.pending[k]? = some old → old.record.range.min = k)
    (k : ℤ) :
    ((Table.rows s.pending).map Shed.item).filterMap (Item.at? k) =
      (s.pending[k]?.map Shed.record).toList := by
  rw [filterMap_map, Table.filterMap_rows (k := k)]
  · cases hk : s.pending[k]? with
    | none => rfl
    | some old => simp [Shed.item, Item.at?, hkeyed k old hk]
  · intro k' old hk' hne
    simp [Shed.item, Item.at?, hkeyed k' old hk', hne]

/-- Taking the checkpoint map keeps the order of the writes of each range, when the channel holds
none of the ranges in the map. -/
theorem pipeline_takePending {s : Tracker}
    (hkeyed : ∀ (k : ℤ) (old : Shed), s.pending[k]? = some old → old.record.range.min = k)
    (hrest : s.rest = [])
    (hq : ∀ item ∈ s.queue, ∀ k ∈ item.key?, s.pending[k]? = none) (k : ℤ) :
    s.takePending.pipeline k = s.pipeline k := by
  have hnone : (∅ : TreeMap ℤ Shed)[k]? = none := by simp
  simp only [pipeline, takePending, hrest, nil_append, filterMap_append, hnone,
    filterMap_takePending hkeyed k, Option.map_none, Option.toList_none, append_nil]
  cases hk : s.pending[k]? with
  | none => simp
  | some old =>
    have : s.queue.filterMap (Item.at? k) = [] := by
      refine filterMap_eq_nil_iff.2 fun item hitem => Item.at?_eq_none fun hkey => ?_
      have := hq item hitem k hkey
      rw [hk] at this
      cases this
    simp [this]

/-- A sender that is in use keeps the writer in its loop. -/
theorem OrderInv.looping_of_sending {s : Tracker} (hi : OrderInv store s) {i : ℕ}
    {record : RangeRecord} (hc : s.calls[i]? = some ⟨record, .sending⟩) : s.phase = .looping := by
  by_contra hne
  have := (hi.closed hne).2.2.2 _ (mem_of_getElem? hc)
  simp [Call.holdsSender] at this

/-- A call that begins keeps the invariant. -/
theorem enqueue_inv {s s' : Tracker} {w : RangeRecord} (hi : OrderInv store s)
    (h : s.enqueue w = some s') : OrderInv store s' := by
  simp only [enqueue] at h
  split_ifs at h with hbusy hsend
  · cases h
    -- with the sender in place, the writer is in its loop
    refine ⟨hi.keyed, hi.finishing, hi.spawnsRun, fun hne => ?_, hi.taken, hi.idle, hi.replayed⟩
    have := (hi.closed hne).2.1
    rw [hsend] at this
    cases this
  · cases h
    refine ⟨hi.keyed, hi.finishing, hi.spawnsRun, fun hne => ?_, hi.taken, hi.idle, hi.replayed⟩
    obtain ⟨hq, hs, hsp, hcalls⟩ := hi.closed hne
    refine ⟨hq, hs, hsp, fun c hc => ?_⟩
    rcases mem_append.1 hc with hc | hc
    · exact hcalls c hc
    · rw [mem_singleton.1 hc]
      rfl

/-- A write that enters the channel keeps the invariant, if the map holds none of its range. -/
theorem send_inv {s : Tracker} {i : ℕ} {w : RangeRecord} (hi : OrderInv store s)
    (hc : s.calls[i]? = some ⟨w, .sending⟩) (hnone : s.pending[w.range.min]? = none) :
    OrderInv store (s.send i w) := by
  have hloop := hi.looping_of_sending hc
  refine ⟨hi.keyed, hi.finishing, hi.spawnsRun, fun hne => absurd hloop hne, hi.taken, hi.idle,
    fun k => ?_⟩
  have hpipe : (s.send i w).pipeline k = s.pipeline k ++ if w.range.min = k then [w] else [] := by
    simp only [pipeline, send, ← append_assoc, filterMap_append]
    by_cases hk : w.range.min = k
    · subst hk
      simp [Item.at?, hnone]
    · simp [Item.at?, hk]
  rw [hpipe, writesAt_append s w k rfl, replay_append, replay_append]
  exact rowOutcome_replay_congr _ (hi.replayed k)

/-- A write that is folded into the map keeps the invariant, if it is not too late and takes no
metrics away. -/
theorem fold_inv {s : Tracker} {i : ℕ} {w : RangeRecord} (hi : OrderInv store s)
    (hphase : s.phase = .looping ∨ s.phase = .draining)
    (hinfo : ∀ old, s.pending[w.range.min]? = some old → w.info = none → old.record.info = none) :
    OrderInv store (s.fold i w) := by
  refine ⟨?_, hi.finishing, hi.spawnsRun, fun hne => ?_, fun hlate => ?_, hi.idle, fun k => ?_⟩
  · intro k old hk
    simp only [fold, TreeMap.getElem?_insert, compare_eq_iff_eq] at hk
    split_ifs at hk with hkey
    · cases hk
      exact hkey
    · exact hi.keyed k old hk
  · obtain ⟨hq, hs, hsp, hcalls⟩ := hi.closed hne
    exact ⟨hq, hs, hsp, fun c hc => hcalls c (mem_of_mem_eraseIdx hc)⟩
  · rcases hphase with h | h <;> rcases hlate with h' | h' <;>
      exact absurd (h.symm.trans h') (by decide)
  · rw [writesAt_append s w k rfl, replay_append]
    by_cases hk : w.range.min = k
    · -- the new write takes the place of the one in the map, which comes just before it
      subst hk
      have hfront : (s.fold i w).pipeline w.range.min =
          (s.rest ++ s.queue).filterMap (Item.at? w.range.min) ++ [w] := by
        simp [pipeline, fold]
      have hold := rowOutcome_replay_congr [w] (hi.replayed w.range.min)
      rw [if_pos rfl, ← hold, hfront]
      change rowOutcome (replay s.store.ranges[w.range.min]? _) = _
      unfold pipeline
      cases hp : s.pending[w.range.min]? with
      | none => simp [replay_append]
      | some old =>
        simp only [Option.map_some, Option.toList_some, replay_append]
        exact (rowOutcome_replay_skip _ (hinfo old hp)).symm
    · have hsame : (s.fold i w).pipeline k = s.pipeline k := by
        simp [pipeline, fold, TreeMap.getElem?_insert, hk]
      rw [if_neg hk, hsame]
      exact hi.replayed k

/-- A write that finds no room keeps the invariant. -/
theorem shedCall_inv {s : Tracker} {i : ℕ} {w : RangeRecord} (hi : OrderInv store s)
    (hc : s.calls[i]? = some ⟨w, .sending⟩) : OrderInv store (s.shedCall i w) :=
  ⟨hi.keyed, hi.finishing, hi.spawnsRun, fun hne => absurd (hi.looping_of_sending hc) hne,
    hi.taken, hi.idle, hi.replayed⟩

/-- Taking the checkpoint map for a new phase keeps the invariant, if the channel has not been
overtaken. -/
theorem takePending_inv {s : Tracker} {phase : TrackerPhase} (hi : OrderInv store s)
    (hrest : s.rest = []) (hphase : phase ≠ .finished)
    (hclosed : phase ≠ .looping → s.queue = [] ∧ s.sender = false ∧ s.spawned = none ∧
      ∀ c ∈ s.calls, c.holdsSender = false)
    (hq : ∀ item ∈ s.queue, ∀ k ∈ item.key?, s.pending[k]? = none) :
    OrderInv store { s.takePending with phase := phase } := by
  have hempty : ∀ k : ℤ, (∅ : TreeMap ℤ Shed)[k]? = none := by simp
  refine ⟨?_, hi.finishing, hi.spawnsRun, hclosed, fun _ => hempty, fun h => absurd h hphase,
    fun k => ?_⟩
  · intro k old hk
    change (∅ : TreeMap ℤ Shed)[k]? = some old at hk
    rw [hempty] at hk
    cases hk
  · change rowOutcome (replay s.store.ranges[k]? (s.takePending.pipeline k)) = _
    rw [pipeline_takePending hi.keyed hrest hq]
    exact hi.replayed k

/-- Applying the next write that was taken keeps the invariant. -/
theorem apply_inv {s : Tracker} {item : Item} {rest : List Item} (now : ℤ)
    (hi : OrderInv store s) (hrest : s.rest = item :: rest) :
    OrderInv store ({ s with rest := rest }.applyItem now item) := by
  have hnot : s.phase ≠ .finished := by
    intro h
    rw [hi.idle h] at hrest
    cases hrest
  cases item with
  | run status info =>
    refine ⟨hi.keyed, hi.finishing, hi.spawnsRun, hi.closed, hi.taken, fun h => absurd h hnot,
      fun k => ?_⟩
    have hpipe : s.pipeline k = ({ s with rest := rest } : Tracker).pipeline k := by
      simp [pipeline, hrest, Item.at?, filterMap_cons]
    have := hi.replayed k
    rw [hpipe] at this
    exact this
  | range ticket record =>
    refine ⟨hi.keyed, hi.finishing, hi.spawnsRun, hi.closed, hi.taken, fun h => absurd h hnot,
      fun k => ?_⟩
    have hpipe : s.pipeline k = (if record.range.min = k then [record] else []) ++
        ({ s with rest := rest } : Tracker).pipeline k := by
      by_cases hk : record.range.min = k <;> simp [pipeline, hrest, Item.at?, hk]
    have hreplay := hi.replayed k
    rw [hpipe, replay_append] at hreplay
    refine Eq.trans ?_ hreplay
    change rowOutcome (replay (s.store.updateRange record).ranges[k]? _) = _
    rw [StoredRun.getElem?_updateRange]
    by_cases hk : record.range.min = k
    · subst hk
      simp only [if_true]
      rfl
    · rw [if_neg (Ne.symm hk), if_neg hk]
      rfl

/-- A run write that enters the channel keeps the invariant, while the writer is in its loop. -/
theorem queueRun_inv {s : Tracker} {item : Item} {spawned : Option Item} {fin : Option ℕ}
    (hi : OrderInv store s) (hloop : s.phase = .looping) (hrun : item.isRun = true)
    (hfin : s.finishedAt.isSome = true → fin.isSome = true)
    (hspawn : ∀ item, spawned = some item → item.isRun = true) :
    OrderInv store
      { s with queue := s.queue ++ [item], spawned := spawned, finishedAt := fin } := by
  refine ⟨hi.keyed, fun h => hfin (hi.finishing h), hspawn, fun hne => absurd hloop hne, hi.taken,
    hi.idle, fun k => ?_⟩
  have hpipe : ({ s with queue := s.queue ++ [item], spawned := spawned, finishedAt := fin } :
      Tracker).pipeline k = s.pipeline k := by
    simp [pipeline, Item.at?_eq_none (Item.key?_ne_of_isRun hrun)]
  rw [hpipe]
  exact hi.replayed k

theorem recv_inv {s : Tracker} (hi : OrderInv store s) (hloop : s.phase = .looping)
    (hrest : s.rest = []) (n : ℕ) :
    OrderInv store { s with rest := s.queue.take n, queue := s.queue.drop n } := by
  refine ⟨hi.keyed, hi.finishing, hi.spawnsRun, fun hne => absurd hloop hne, hi.taken,
    fun h => absurd (hloop.symm.trans h) (by decide), fun k => ?_⟩
  have hpipe : ({ s with rest := s.queue.take n, queue := s.queue.drop n } : Tracker).pipeline k =
      s.pipeline k := by
    simp [pipeline, hrest]
  rw [hpipe]
  exact hi.replayed k

theorem step_orderInv {s s' : Tracker} {act : Act} (hi : OrderInv store s)
    (ho : s.InOrder config act) (h : step config s act = some s') : OrderInv store s' := by
  cases act with
  | startRange range now => exact enqueue_inv hi h
  | finishRange range status runInfo => exact enqueue_inv hi h
  | trySend i =>
    simp only [step] at h
    split at h
    · next record hc =>
      cases h
      split_ifs with hroom
      · exact send_inv hi hc (ho _ hc hroom)
      · exact shedCall_inv hi hc
    · cases h
  | fold i =>
    simp only [step] at h
    split at h
    · next record clone hc =>
      cases h
      exact fold_inv hi (ho _ hc).1 (ho _ hc).2
    · cases h
  | finish status runInfo =>
    simp only [step] at h
    split_ifs at h with hf
    cases h
    -- the sender is still there, so the writer is in its loop
    have hloop : s.phase = .looping := by
      by_contra hne
      have := hi.finishing (hi.closed hne).2.1
      rw [Option.isNone_iff_eq_none.1 hf] at this
      cases this
    unfold enqueueRun
    simp only
    split_ifs with hroom
    · exact queueRun_inv hi hloop rfl (fun _ => rfl) hi.spawnsRun
    · refine ⟨hi.keyed, fun _ => rfl, fun item hitem => ?_, fun hne => absurd hloop hne, hi.taken,
        hi.idle, hi.replayed⟩
      cases hitem
      rfl
  | dropSender =>
    simp only [step] at h
    split_ifs at h with hf
    cases h
    refine ⟨hi.keyed, fun _ => hf, hi.spawnsRun, fun hne => ?_, hi.taken, hi.idle, hi.replayed⟩
    obtain ⟨hq, -, hrest⟩ := hi.closed hne
    exact ⟨hq, rfl, hrest⟩
  | spawnedSend =>
    simp only [step] at h
    split at h
    · next item hsp =>
      split_ifs at h
      cases h
      have hloop : s.phase = .looping := by
        by_contra hne
        have := (hi.closed hne).2.2.1
        rw [hsp] at this
        cases this
      exact queueRun_inv hi hloop (hi.spawnsRun item hsp) id (fun _ h => by cases h)
    · cases h
  | recv =>
    simp only [step] at h
    split_ifs at h with hc
    cases h
    exact recv_inv hi hc.1 hc.2.1 _
  | tick =>
    simp only [step] at h
    split_ifs at h with hc
    cases h
    exact takePending_inv hi hc.2 (hc.1 ▸ by decide) (fun hne => absurd hc.1 hne) ho
  | drain =>
    simp only [step] at h
    split_ifs at h with hc
    cases h
    obtain ⟨-, hrest, hq, hs, hsp, hcalls⟩ := hc
    have hclones : ∀ c ∈ s.calls, c.holdsSender = false := by simpa using hcalls
    exact takePending_inv hi hrest (by decide) (fun _ => ⟨hq, hs, hsp, hclones⟩) (by simp [hq])
  | join =>
    simp only [step] at h
    split_ifs at h with hc
    cases h
    have hcl := hi.closed (hc.1 ▸ by decide)
    exact takePending_inv hi hc.2 (by decide) (fun _ => hcl) (by simp [hcl.1])
  | done =>
    simp only [step] at h
    split_ifs at h with hc
    cases h
    have hcl := hi.closed (hc.1 ▸ by decide)
    exact ⟨hi.keyed, hi.finishing, hi.spawnsRun, fun _ => hcl, fun _ => hi.taken (.inl hc.1),
      fun _ => hc.2, hi.replayed⟩
  | apply now =>
    simp only [step] at h
    split at h
    · cases h
    · cases h
      exact apply_inv now hi ‹_›

theorem init_orderInv (store : StoredRun) : OrderInv store (init store) := by
  refine ⟨?_, fun h => ?_, fun _ h => ?_, fun h => ?_, ?_, ?_, fun k => ?_⟩
  · intro k old hk
    simp [init] at hk
  · cases h
  · cases h
  · exact absurd rfl h
  · rintro (h | h) <;> cases h
  · exact fun h => by cases h
  · simp [pipeline, writesAt, init]

/-- When `finish` has returned, nothing is on its way. -/
theorem OrderInv.pipeline_eq_nil {s : Tracker} (hi : OrderInv store s) (hf : s.phase = .finished)
    (k : ℤ) : s.pipeline k = [] := by
  simp [pipeline, hi.idle hf, (hi.closed (hf ▸ by decide)).1, hi.taken (.inr hf) k]

theorem OrderInv.settled {s : Tracker} (hi : OrderInv store s) (hf : s.phase = .finished) :
    s.Settled := by
  have hrow : ∀ k : ℤ, rowOutcome s.store.ranges[k]? =
      rowOutcome (replay store.ranges[k]? (s.writesAt k)) := by
    intro k
    rw [← hi.replayed k, hi.pipeline_eq_nil hf]
    rfl
  constructor
  · intro k before w hw
    have hlast := rowOutcome_replay_concat store.ranges[k]? before w
    rw [← hw, ← hrow k] at hlast
    simpa [rowOutcome] using hlast
  · intro k before w after m hw hm hafter
    have hlast := info_replay store.ranges[k]? before after hm hafter
    rw [← hw, ← hrow k] at hlast
    simpa [rowOutcome, Option.bind_eq_some_iff] using hlast

/-- **Last state wins.** In every run whose steps are in order, for every queue capacity and batch
size, every row is settled once `finish` has returned. -/
theorem last_write_wins {acts : List Act} {s : Tracker}
    (hrun : (lts config).exec (init store) acts = some s)
    (horder : (lts config).Along (InOrder config) (init store) acts)
    (hdone : s.phase = .finished) : s.Settled :=
  (LTS.exec_invariant_along hrun horder (init_orderInv store)
    fun _ _ _ hi ho h => step_orderInv hi ho h).settled hdone

/-! ### Two runs of two ranges, over a channel for one write -/

def narrow : TrackerConfig := ⟨1, 1⟩

def left : TokenRange := .checked 0 9 (.refl true)

def right : TokenRange := .checked 10 19 (.refl true)

def pairStore : StoredRun :=
  .create ⟨⟨1⟩, none, ⟨"ks", "t"⟩, .migrate, .started, none, none, none⟩ [left, right]

/-- The writer starts when both writes of the second range have been shed. -/
def shedActs : List Act :=
  [.startRange left 0, .trySend 0, .startRange right 0, .trySend 0, .fold 0,
    .finishRange right .pass "Read: 1", .trySend 0, .fold 0, .recv, .apply 1,
    .finish .ended "Read: 1", .dropSender, .recv, .apply 2, .drain, .apply 3, .join, .done]

/-- The second range is started while the channel is full, and finished when it is not. -/
def overtakenActs : List Act :=
  [.startRange left 0, .trySend 0, .startRange right 0, .trySend 0, .fold 0, .recv, .apply 1,
    .finishRange right .pass "Read: 1", .trySend 0, .recv, .apply 2,
    .finish .ended "Read: 1", .dropSender, .recv, .apply 3, .drain, .apply 4, .join, .done]

theorem last_write_wins_shed :
    ∃ s, (lts narrow).exec (init pairStore) shedActs = some s ∧ s.history.length = 3 ∧
      s.shed = 2 ∧ s.Settled := by
  have hsome : ((lts narrow).exec (init pairStore) shedActs).any
      (fun s => s.phase = .finished ∧ s.history.length = 3 ∧ s.shed = 2) = true := by decide
  obtain ⟨s, hs, h⟩ := (Option.any_eq_true _ _).1 hsome
  obtain ⟨hdone, hhist, hshed⟩ := of_decide_eq_true h
  exact ⟨s, hs, hhist, hshed, last_write_wins hs (by decide) hdone⟩

/-- The row of the second range ends up `STARTED`, its older state, although its last write was
`PASS`: the checkpoint is applied after the channel. -/
theorem last_write_lost :
    ¬ ∀ (config : TrackerConfig) (store : StoredRun) (acts : List Act) (s : Tracker),
      (lts config).exec (init store) acts = some s → s.phase = .finished → s.Settled := by
  intro hall
  have hsome : ((lts narrow).exec (init pairStore) overtakenActs).any (fun s =>
      s.phase = .finished ∧
        s.writesAt 10 = [.startWrite right 0, .finishWrite right .pass "Read: 1"] ∧
        s.store.ranges[(10 : ℤ)]?.map RangeRecord.status = some .started) = true := by decide
  obtain ⟨s, hs, h⟩ := (Option.any_eq_true _ _).1 hsome
  obtain ⟨hdone, hwrites, hstale⟩ := of_decide_eq_true h
  obtain ⟨row, hrow, hstatus⟩ := (hall _ _ _ s hs hdone).status _ [.startWrite right 0] _ hwrites
  rw [hrow, Option.map_some, hstatus] at hstale
  cases hstale

end Tracker

end Cdm
