import Cdm.Track.LastWrite
import Mathlib.Data.List.TakeWhile

/-!
# What has been applied when the run row is written

`finish` sends the run write behind the range writes in the channel, so that the run row does not say
`ENDED` while range writes are still queued.  The writes in the checkpoint map are not in the
channel: the run row can be written while the last state of a range is still in the map
(`run_row_first`).

`RunLast` is the condition under which this does not happen: when the writer takes the run write,
the map holds no range's last write before `finish`.
-/

namespace Cdm

open List
open Std (TreeMap)

namespace Tracker

variable (config : TrackerConfig)

/-- Each of the first `n` range writes has been applied, or a later write of its range has. -/
def Caught (s : Tracker) (n : ℕ) : Prop :=
  ∀ t w, t < n → s.history[t]? = some w →
    ∃ t' w', t ≤ t' ∧ s.history[t']? = some w' ∧ w'.range.min = w.range.min ∧ t' ∈ s.applied

/-- The write that the store applies next is the run write. -/
def AboutToEnd (s : Tracker) : Prop := ∃ item ∈ s.rest.head?, item.isRun = true

/-- The condition on a step: with the run write in the batch that is taken, every write in the
checkpoint map has a later one of its range that was enqueued before `finish`. -/
def RunLast (s : Tracker) : Act → Prop
  | .recv => (∃ item ∈ s.batch config, item.isRun = true) → ∀ old ∈ Table.rows s.pending,
      ∃ t < s.finishedAt.getD 0, old.ticket < t ∧
        s.history[t]?.map (fun w => w.range.min) = some old.record.range.min
  | _ => True

instance decidableRunLast (s : Tracker) : ∀ act, Decidable (s.RunLast config act)
  | .recv => inferInstanceAs (Decidable ((∃ item ∈ s.batch config, _) → ∀ old ∈ Table.rows s.pending,
      ∃ t < s.finishedAt.getD 0, _ ∧ _))
  | .startRange .. | .finishRange .. | .trySend _ | .fold _ | .finish .. | .dropSender
  | .spawnedSend | .tick | .drain | .join | .done | .apply _ => .isTrue trivial

/-! ### Where a write is -/

/-- The range writes that will be applied before the run write. -/
def front (s : Tracker) : List Item := (s.rest ++ s.queue).takeWhile (!·.isRun)

/-- The write `t`, or a later one of its range, has been applied or will be before the run write. -/
def Settles (s : Tracker) (t : ℕ) (w : RangeRecord) : Prop :=
  ∃ t' w', t ≤ t' ∧ s.history[t']? = some w' ∧ w'.range.min = w.range.min ∧
    (t' ∈ s.applied ∨ Item.range t' w' ∈ s.front)

/-- The checkpoint map holds the write `t`, or a later one of its range. -/
def Checkpointed (s : Tracker) (t : ℕ) (w : RangeRecord) : Prop :=
  ∃ old, s.pending[w.range.min]? = some old ∧ t ≤ old.ticket ∧
    s.history[old.ticket]? = some old.record ∧ old.record.range.min = w.range.min

/-- What holds in every state of a run that meets the condition. -/
structure FrontInv (s : Tracker) : Prop where
  /-- There is no run write before `finish`. -/
  noRun : s.finishedAt = none → s.spawned = none ∧ ∀ item ∈ s.rest ++ s.queue, item.isRun = false
  /-- The spawned task sends the run write. -/
  spawnsRun : ∀ item, s.spawned = some item → item.isRun = true
  bound : ∀ n, s.finishedAt = some n → n ≤ s.history.length
  /-- No write before `finish` is lost. -/
  kept : ∀ t w, t < s.finishedAt.getD s.history.length → s.history[t]? = some w →
    s.Settles t w ∨ s.Checkpointed t w
  /-- Once the run write has been taken, none of them waits in the map only. -/
  ready : (∃ item ∈ s.rest, item.isRun = true) → ∀ t w, t < s.finishedAt.getD 0 →
    s.history[t]? = some w → s.Settles t w

variable {config}

/-- Writes in front stay in front when the channel gets more. -/
theorem front_append {s s' : Tracker} (items : List Item)
    (h : s'.rest ++ s'.queue = s.rest ++ s.queue ++ items) {item : Item} (hm : item ∈ s.front) :
    item ∈ s'.front := by
  unfold front at *
  rw [h, takeWhile_append]
  split_ifs with hall
  · exact mem_append_left _ ((List.takeWhile_prefix _).subset hm)
  · exact hm

theorem front_eq_of_noRun {s : Tracker} (h : ∀ item ∈ s.rest ++ s.queue, item.isRun = false) :
    s.front = s.rest ++ s.queue :=
  takeWhile_eq_self_iff.2 fun item hm => by simp [h item hm]

theorem Settles.mono {s s' : Tracker} {t : ℕ} {w : RangeRecord} (h : s.Settles t w)
    (hhist : s.history <+: s'.history) (happ : ∀ t ∈ s.applied, t ∈ s'.applied)
    (hfront : ∀ t w, Item.range t w ∈ s.front → t ∈ s'.applied ∨ Item.range t w ∈ s'.front) :
    s'.Settles t w := by
  obtain ⟨t', w', hle, hw', hkey, hplace⟩ := h
  refine ⟨t', w', hle, ?_, hkey, ?_⟩
  · obtain ⟨more, hmore⟩ := hhist
    rw [← hmore, getElem?_append_left (List.getElem?_eq_some_iff.1 hw').1]
    exact hw'
  · rcases hplace with h | h
    · exact .inl (happ _ h)
    · exact hfront _ _ h

/-- An entry of the history before a new one is an old one. -/
theorem getElem?_of_lt {s s' : Tracker} {w w' : RangeRecord} {t : ℕ}
    (hhist : s'.history = s.history ++ [w]) (ht : t < s.history.length)
    (h : s'.history[t]? = some w') : s.history[t]? = some w' := by
  rw [hhist, getElem?_append_left ht] at h
  exact h

/-- The last write enqueued is the new one. -/
theorem eq_of_last {s s' : Tracker} {w w' : RangeRecord} {t : ℕ}
    (hhist : s'.history = s.history ++ [w]) (ht : ¬ t < s.history.length)
    (h : s'.history[t]? = some w') : t = s.history.length ∧ w' = w := by
  have hlt := (List.getElem?_eq_some_iff.1 h).1
  rw [hhist, length_append, length_singleton] at hlt
  obtain rfl : t = s.history.length := by omega
  rw [hhist, getElem?_concat_length] at h
  exact ⟨rfl, (Option.some.inj h).symm⟩

/-- Every write before `finish` was in the history before the last one was enqueued. -/
theorem FrontInv.lt_length {s : Tracker} (hi : FrontInv s) {n t : ℕ} (hn : s.finishedAt = some n)
    (ht : t < n) : t < s.history.length :=
  lt_of_lt_of_le ht (hi.bound n hn)

/-- What one more write in the history asks for: the old writes stay where they are found, and the
new one is found. -/
theorem FrontInv.enqueued {s s' : Tracker} {w : RangeRecord} (hi : FrontInv s)
    (hhist : s'.history = s.history ++ [w]) (hfin : s'.finishedAt = s.finishedAt)
    (hspawned : s'.spawned = s.spawned) (hrest : s'.rest = s.rest)
    (hqueue : ∀ item ∈ s'.queue, item ∈ s.queue ∨ item.isRun = false)
    (hsettles : ∀ t w', s.Settles t w' → s'.Settles t w')
    (hchecked : ∀ t w', s.Checkpointed t w' → s'.Checkpointed t w')
    (hnew : s.finishedAt = none →
      s'.Settles s.history.length w ∨ s'.Checkpointed s.history.length w) : FrontInv s' := by
  refine ⟨fun hf => ?_, fun item h => hi.spawnsRun item (hspawned ▸ h), fun n hn => ?_,
    fun t w' ht hw' => ?_, fun hrun t w' ht hw' => ?_⟩
  · obtain ⟨hsp, hitems⟩ := hi.noRun (hfin ▸ hf)
    refine ⟨hspawned ▸ hsp, fun item hm => ?_⟩
    rcases mem_append.1 hm with hm | hm
    · exact hitems item (mem_append_left _ (hrest ▸ hm))
    · rcases hqueue item hm with h | h
      · exact hitems item (mem_append_right _ h)
      · exact h
  · rw [hhist, length_append]
    exact Nat.le_add_right_of_le (hi.bound n (hfin ▸ hn))
  · by_cases hlt : t < s.history.length
    · have hold := getElem?_of_lt hhist hlt hw'
      have ht' : t < s.finishedAt.getD s.history.length := by
        cases hf : s.finishedAt with
        | none => exact hlt
        | some n =>
          rw [hfin, hf] at ht
          exact ht
      exact (hi.kept t w' ht' hold).imp (hsettles t w') (hchecked t w')
    · obtain ⟨rfl, rfl⟩ := eq_of_last hhist hlt hw'
      cases hf : s.finishedAt with
      | none => exact hnew hf
      | some n =>
        rw [hfin, hf] at ht
        exact absurd (hi.lt_length hf ht) hlt
  · rw [hfin] at ht
    cases hf : s.finishedAt with
    | none =>
      rw [hf] at ht
      cases ht
    | some n =>
      have hlt := hi.lt_length hf (by simpa [hf] using ht)
      exact hsettles t w' (hi.ready (hrest ▸ hrun) t w' ht (getElem?_of_lt hhist hlt hw'))

theorem send_frontInv {s : Tracker} (i : ℕ) (w : RangeRecord) (hi : FrontInv s) :
    FrontInv (s.send i w) := by
  have hfront : ∀ item ∈ s.front, item ∈ (s.send i w).front := fun item hm =>
    front_append [.range s.history.length w] (by simp [send]) hm
  refine hi.enqueued rfl rfl rfl rfl ?_ ?_ ?_ ?_
  · intro item hm
    rcases mem_append.1 hm with h | h
    · exact .inl h
    · rw [mem_singleton.1 h]
      exact .inr rfl
  · exact fun t w' h => h.mono (prefix_append _ _) (fun _ h => h)
      fun t w' hm => .inr (hfront _ hm)
  · rintro t w' ⟨old, hold, hle, hat, hkey⟩
    refine ⟨old, hold, hle, ?_, hkey⟩
    change (s.history ++ [w])[old.ticket]? = _
    rw [getElem?_append_left (List.getElem?_eq_some_iff.1 hat).1]
    exact hat
  · intro hf
    have hno := (hi.noRun hf).2
    refine .inl ⟨s.history.length, w, le_refl _, getElem?_concat_length, rfl, .inr ?_⟩
    rw [front_eq_of_noRun]
    · simp [send]
    · intro item hm
      rw [send, ← append_assoc, mem_append, mem_singleton] at hm
      rcases hm with hm | rfl
      · exact hno item hm
      · rfl

theorem fold_frontInv {s : Tracker} (i : ℕ) (w : RangeRecord) (hi : FrontInv s) :
    FrontInv (s.fold i w) := by
  refine hi.enqueued rfl rfl rfl rfl (fun item hm => .inl hm) ?_ ?_ ?_
  · exact fun t w' h => h.mono (prefix_append _ _) (fun _ h => h) fun t w' hm => .inr hm
  · rintro t w' ⟨old, hold, hle, hat, hkey⟩
    have hlt := (List.getElem?_eq_some_iff.1 hat).1
    by_cases hk : w.range.min = w'.range.min
    · -- the new write takes the place of the old one
      refine ⟨⟨s.history.length, w⟩, ?_, by simp only; omega, getElem?_concat_length, hk⟩
      simp [fold, hk]
    · refine ⟨old, ?_, hle, ?_, hkey⟩
      · simpa [fold, TreeMap.getElem?_insert, hk] using hold
      · change (s.history ++ [w])[old.ticket]? = _
        rw [getElem?_append_left hlt]
        exact hat
  · intro _
    exact .inr ⟨⟨s.history.length, w⟩, by simp [fold], le_refl _, getElem?_concat_length, rfl⟩

/-- The run write enters the channel: nothing that was in front of it moves. -/
theorem queueRun_frontInv {s : Tracker} {item : Item} {spawned : Option Item} {fin : Option ℕ}
    {n : ℕ} (hi : FrontInv s) (hn : fin = some n) (hfin : s.finishedAt.getD s.history.length = n)
    (hspawn : ∀ item, spawned = some item → item.isRun = true) :
    FrontInv { s with queue := s.queue ++ [item], spawned := spawned, finishedAt := fin } := by
  subst hn
  have hset : ∀ t w, s.Settles t w → Settles { s with
      queue := s.queue ++ [item], spawned := spawned, finishedAt := some n } t w := fun t w h =>
    h.mono (prefix_refl _) (fun _ h => h)
      fun t w hm => .inr (front_append [item] (append_assoc _ _ _).symm hm)
  refine ⟨fun h => ?_, hspawn, fun m hm => ?_, fun t w ht hw => ?_, fun hrun t w ht hw => ?_⟩
  · cases h
  · cases hm
    cases hf : s.finishedAt with
    | none =>
      rw [hf] at hfin
      exact hfin.ge
    | some m =>
      rw [hf] at hfin
      exact hi.bound n (hf.trans (congrArg some hfin))
  · exact (hi.kept t w (hfin ▸ ht) hw).imp (hset t w) id
  · cases hf : s.finishedAt with
    | none =>
      obtain ⟨item, hm, hitem⟩ := hrun
      rw [(hi.noRun hf).2 item (mem_append_left _ hm)] at hitem
      cases hitem
    | some m =>
      rw [hf] at hfin
      exact hset t w (hi.ready hrun t w (by rw [hf]; exact hfin ▸ ht) hw)

/-- The writes of the checkpoint map, once taken, come before everything in the channel. -/
theorem front_takePending {s : Tracker} :
    s.takePending.front = (Table.rows s.pending).map Shed.item ++ s.queue.takeWhile (!·.isRun) := by
  refine takeWhile_append_of_pos fun item hm => ?_
  obtain ⟨old, -, rfl⟩ := mem_map.1 hm
  rfl

theorem takePending_frontInv {s : Tracker} (phase : TrackerPhase) (hi : FrontInv s)
    (hrest : s.rest = []) : FrontInv { s.takePending with phase := phase } := by
  have hfront : ({ s.takePending with phase := phase } : Tracker).front =
      (Table.rows s.pending).map Shed.item ++ s.front := by
    have hqueue : s.front = s.queue.takeWhile (!·.isRun) := by
      rw [front, hrest, nil_append]
    rw [hqueue]
    exact front_takePending
  have hrun : ∀ item ∈ (Table.rows s.pending).map Shed.item, item.isRun = false := by
    intro item hm
    obtain ⟨old, -, rfl⟩ := mem_map.1 hm
    rfl
  refine ⟨fun hf => ?_, hi.spawnsRun, hi.bound, fun t w ht hw => .inl ?_, fun hready => ?_⟩
  · obtain ⟨hsp, hitems⟩ := hi.noRun hf
    refine ⟨hsp, fun item hm => ?_⟩
    rcases mem_append.1 hm with h | h
    · exact hrun item h
    · exact hitems item (mem_append_right _ h)
  · rcases hi.kept t w ht hw with h | ⟨old, hold, hle, hat, hkey⟩
    · exact h.mono (prefix_refl _) (fun _ h => h)
        fun t w hm => .inr (hfront ▸ mem_append_right _ hm)
    · refine ⟨old.ticket, old.record, hle, hat, hkey, .inr ?_⟩
      rw [hfront]
      exact mem_append_left _ (mem_map.2 ⟨old, Table.mem_rows.2 ⟨_, hold⟩, rfl⟩)
  · obtain ⟨item, hm, hitem⟩ := hready
    rw [hrun item hm] at hitem
    cases hitem

/-- The writer takes a batch: with the run write in it, every range in the map has a later write
that went through the channel. -/
theorem recv_frontInv {s : Tracker} {n : ℕ} (hi : FrontInv s) (hrest : s.rest = [])
    (hlast : (∃ item ∈ s.queue.take n, item.isRun = true) → ∀ old ∈ Table.rows s.pending,
      ∃ t < s.finishedAt.getD 0, old.ticket < t ∧
        s.history[t]?.map (fun w => w.range.min) = some old.record.range.min) :
    FrontInv { s with rest := s.queue.take n, queue := s.queue.drop n } := by
  have hitems : s.queue.take n ++ s.queue.drop n = s.rest ++ s.queue := by
    rw [take_append_drop, hrest, nil_append]
  have hset : ∀ t w, s.Settles t w →
      Settles { s with rest := s.queue.take n, queue := s.queue.drop n } t w := fun t w h =>
    h.mono (prefix_refl _) (fun _ h => h)
      fun t w hm => .inr (front_append [] (by simp [hitems]) hm)
  refine ⟨fun hf => ⟨(hi.noRun hf).1, fun item hm => (hi.noRun hf).2 item (hitems ▸ hm)⟩,
    hi.spawnsRun, hi.bound, fun t w ht hw => (hi.kept t w ht hw).imp (hset t w) id,
    fun hrun t w ht hw => hset t w ?_⟩
  obtain ⟨m, hm⟩ : ∃ m, s.finishedAt = some m := by
    cases hf : s.finishedAt with
    | none =>
      rw [hf] at ht
      cases ht
    | some m => exact ⟨m, rfl⟩
  rw [hm, Option.getD_some] at ht hlast
  rcases hi.kept t w (by rwa [hm]) hw with h | ⟨old, hold, hle, hat, hkey⟩
  · exact h
  -- the write in the map is not the last one before `finish`, and the last one is not in the map
  obtain ⟨t', ht', hlt, hw'⟩ := hlast hrun old (Table.mem_rows.2 ⟨_, hold⟩)
  obtain ⟨w', hw', hkey'⟩ := Option.map_eq_some_iff.1 hw'
  rcases hi.kept t' w' (by rwa [hm]) hw' with ⟨t₁, w₁, hle₁, hat₁, hkey₁, hplace⟩ |
    ⟨old', hold', hle', -, -⟩
  · exact ⟨t₁, w₁, by omega, hat₁, hkey₁.trans (hkey'.trans hkey), hplace⟩
  · rw [hkey'.trans hkey, hold] at hold'
    cases hold'
    omega

theorem apply_frontInv {s : Tracker} {item : Item} {rest : List Item} (now : ℤ)
    (hi : FrontInv s) (hrest : s.rest = item :: rest) :
    FrontInv ({ s with rest := rest }.applyItem now item) := by
  have hnoRun : s.finishedAt = none →
      s.spawned = none ∧ ∀ item ∈ rest ++ s.queue, item.isRun = false := fun hf =>
    ⟨(hi.noRun hf).1, fun i hm => (hi.noRun hf).2 i (by
      rw [hrest, cons_append]
      exact mem_cons_of_mem _ hm)⟩
  have hmore : (∃ i ∈ rest, i.isRun = true) → ∃ i ∈ s.rest, i.isRun = true := by
    rintro ⟨i, hm, hrun⟩
    exact ⟨i, by rw [hrest]; exact mem_cons_of_mem _ hm, hrun⟩
  have hset : ∀ t w, s.Settles t w →
      Settles ({ s with rest := rest }.applyItem now item) t w := by
    cases item with
    | run status info =>
      -- nothing is in front of the run write
      refine fun t w h => h.mono (prefix_refl _) (fun _ h => h) fun t w hm => ?_
      rw [front, hrest] at hm
      cases hm
    | range ticket record =>
      refine fun t w h => h.mono (prefix_refl _) (fun _ h => mem_append_left _ h) ?_
      intro t w hm
      rw [front, hrest, cons_append, takeWhile_cons_of_pos rfl, mem_cons] at hm
      rcases hm with hm | hm
      · cases hm
        exact .inl (mem_append_right _ (mem_singleton.2 rfl))
      · exact .inr hm
  cases item with
  | run status info =>
    exact ⟨hnoRun, hi.spawnsRun, hi.bound, fun t w ht hw => (hi.kept t w ht hw).imp (hset t w) id,
      fun hrun t w ht hw => hset t w (hi.ready (hmore hrun) t w ht hw)⟩
  | range ticket record =>
    exact ⟨hnoRun, hi.spawnsRun, hi.bound, fun t w ht hw => (hi.kept t w ht hw).imp (hset t w) id,
      fun hrun t w ht hw => hset t w (hi.ready (hmore hrun) t w ht hw)⟩

theorem step_frontInv {s s' : Tracker} {act : Act} (hi : FrontInv s)
    (hl : s.RunLast config act) (h : step config s act = some s') : FrontInv s' := by
  have hsame : ∀ {record : RangeRecord} {s' : Tracker}, s.enqueue record = some s' →
      FrontInv s' := by
    intro record s' h
    simp only [enqueue] at h
    split_ifs at h
    · cases h
      exact ⟨hi.noRun, hi.spawnsRun, hi.bound, hi.kept, hi.ready⟩
    · cases h
      exact ⟨hi.noRun, hi.spawnsRun, hi.bound, hi.kept, hi.ready⟩
  cases act with
  | startRange range now => exact hsame h
  | finishRange range status runInfo => exact hsame h
  | trySend i =>
    simp only [step] at h
    split at h
    · cases h
      split_ifs
      · exact send_frontInv _ _ hi
      · exact ⟨hi.noRun, hi.spawnsRun, hi.bound, hi.kept, hi.ready⟩
    · cases h
  | fold i =>
    simp only [step] at h
    split at h
    · cases h
      exact fold_frontInv _ _ hi
    · cases h
  | finish status runInfo =>
    simp only [step] at h
    split_ifs at h with hf
    cases h
    have hnone := Option.isNone_iff_eq_none.1 hf
    unfold enqueueRun
    simp only
    split_ifs
    · exact queueRun_frontInv hi rfl (by rw [hnone]; rfl) hi.spawnsRun
    · refine ⟨fun h => ?_, fun item h => ?_, fun n h => ?_, fun t w ht hw => ?_, fun hrun => ?_⟩
      · cases h
      · cases h
        rfl
      · cases h
        exact le_refl _
      · exact hi.kept t w (by rw [hnone]; exact ht) hw
      · obtain ⟨item, hm, hitem⟩ := hrun
        rw [(hi.noRun hnone).2 item (mem_append_left _ hm)] at hitem
        cases hitem
  | dropSender =>
    simp only [step] at h
    split_ifs at h
    cases h
    exact ⟨hi.noRun, hi.spawnsRun, hi.bound, hi.kept, hi.ready⟩
  | spawnedSend =>
    simp only [step] at h
    split at h
    · next item hsp =>
      split_ifs at h
      cases h
      cases hf : s.finishedAt with
      | none =>
        have := (hi.noRun hf).1
        rw [hsp] at this
        cases this
      | some n =>
        rw [← hf]
        exact queueRun_frontInv hi hf (by rw [hf]; rfl) (fun _ h => by cases h)
    · cases h
  | recv =>
    simp only [step] at h
    split_ifs at h with hc
    cases h
    exact recv_frontInv hi hc.2.1 hl
  | tick =>
    simp only [step] at h
    split_ifs at h with hc
    cases h
    exact takePending_frontInv s.phase hi hc.2
  | drain =>
    simp only [step] at h
    split_ifs at h with hc
    cases h
    exact takePending_frontInv _ hi hc.2.1
  | join =>
    simp only [step] at h
    split_ifs at h with hc
    cases h
    exact takePending_frontInv _ hi hc.2
  | done =>
    simp only [step] at h
    split_ifs at h
    cases h
    exact ⟨hi.noRun, hi.spawnsRun, hi.bound, hi.kept, hi.ready⟩
  | apply now =>
    simp only [step] at h
    split at h
    · cases h
    · cases h
      exact apply_frontInv now hi ‹_›

theorem init_frontInv (store : StoredRun) : FrontInv (init store) := by
  refine ⟨fun _ => ⟨rfl, fun item h => ?_⟩, fun item h => ?_, fun n h => ?_, fun t w ht => ?_,
    fun h => ?_⟩
  · cases h
  · cases h
  · cases h
  · cases ht
  · obtain ⟨item, hm, -⟩ := h
    cases hm

theorem FrontInv.caught {s : Tracker} (hi : FrontInv s) (hend : s.AboutToEnd) :
    ∃ n, s.finishedAt = some n ∧ s.Caught n := by
  obtain ⟨item, hhead, hrun⟩ := hend
  obtain ⟨rest, hrest⟩ := head?_eq_some_iff.1 hhead
  have hmem : item ∈ s.rest := by
    rw [hrest]
    exact mem_cons_self
  obtain ⟨n, hn⟩ : ∃ n, s.finishedAt = some n := by
    cases hf : s.finishedAt with
    | none =>
      rw [(hi.noRun hf).2 item (mem_append_left _ hmem)] at hrun
      cases hrun
    | some n => exact ⟨n, rfl⟩
  refine ⟨n, hn, fun t w ht hw => ?_⟩
  obtain ⟨t', w', hle, hw', hkey, hplace⟩ := hi.ready ⟨item, hmem, hrun⟩ t w (by rwa [hn]) hw
  refine ⟨t', w', hle, hw', hkey, hplace.resolve_right fun hm => ?_⟩
  rw [front, hrest, cons_append, takeWhile_cons_of_neg (by simp [hrun])] at hm
  cases hm

/-- A shed write is overtaken through the channel, and the writer takes the run write. -/
def supersededActs : List Act :=
  [.startRange left 0, .trySend 0, .startRange right 0, .trySend 0, .fold 0, .recv, .apply 1,
    .finishRange right .pass "Read: 1", .trySend 0, .recv, .apply 2,
    .finish .ended "Read: 1", .dropSender, .recv]

/-- A write is shed, and the writer takes the run write. -/
def overtakingActs : List Act :=
  [.startRange left 0, .trySend 0, .startRange right 0, .trySend 0, .fold 0, .recv, .apply 1,
    .finish .ended "Read: 1", .recv]

instance decidableAboutToEnd (s : Tracker) : Decidable s.AboutToEnd :=
  inferInstanceAs (Decidable (∃ item ∈ s.rest.head?, _))

end Tracker

end Cdm
