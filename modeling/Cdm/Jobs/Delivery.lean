import Cdm.Jobs.MigrateRange

/-!
# What a write buffer delivers

A write that is pushed into the buffer goes to the sink as a request of its own, or in a batch: the
batch is sent when it is full, before a write of another partition, and with every flush.  A flush
fires in the middle of a page when enough writes are unflushed, which is read from a counter that the
pages of a range share, and at the end of the page.  It awaits every request, and credits the
unflushed writes to `WRITE` when all of them have succeeded.

`Delivery` runs the buffer of `Cdm.Jobs.MigrateRange` over any sequence of writes, against a sink
that may refuse a request or fail it.  A page ends with a flush, which leaves an empty buffer, so that
the pages of a range are one run.  A request holds one of the permits of `write_slot` from when it is
asked for until it has ended, and nothing polls a request but a flush: a push or a flush that finds no
permit left waits for ever.
-/

namespace Cdm

open Fallible List

/-! ### The partition key of a bound write -/

namespace TargetUpsert

/-- The marker that takes the value of the target column at this index; none for a constant. -/
def bindPosition (upsert : TargetUpsert) (targetIndex : ℕ) : Option ℕ :=
  upsert.slots.findIdx? fun slot => slot = .column targetIndex || slot = .keyColumn targetIndex

theorem lt_of_bindPosition {upsert : TargetUpsert} {targetIndex position : ℕ}
    (h : upsert.bindPosition targetIndex = some position) : position < upsert.slots.length := by
  rw [bindPosition, findIdx?_eq_some_iff_getElem] at h
  exact h.1

end TargetUpsert

/-- The positions, within a bound write, of the partition key of the target. -/
def MigratePlan.partitionPositions (mapping : ColumnMapping) (upsert : TargetUpsert) : List ℕ :=
  (mapping.targetColumns.zipIdx.filter fun column => column.1.kind = .partitionKey).filterMap
    fun column => upsert.bindPosition column.2

/-- A write has one value for each marker of its statement. -/
theorem Binder.length_bind {binder : Binder} {row : Row} {inputs : BindInputs}
    {write : BoundWrite} (h : binder.bind row inputs = .ok write) :
    write.length = binder.statement.slots.length := by
  have hlen := length_mapM h
  rwa [length_zipIdx] at hlen

namespace WriteBuffer

/-- The bytes at these positions of a write. -/
def keyBytes (positions : List ℕ) (write : BoundWrite) : List RawCell :=
  positions.map fun position => (write[position]?).bind BoundValue.bytes

/-- The write has a value at each of the positions. -/
def Keyed (positions : List ℕ) (write : BoundWrite) : Prop :=
  ∀ position ∈ positions, position < write.length

/-- What the binder makes has the whole partition key. -/
theorem keyed_of_bind {mapping : ColumnMapping} {binder : Binder} {row : Row} {inputs : BindInputs}
    {write : BoundWrite} (h : binder.bind row inputs = .ok write) :
    Keyed (MigratePlan.partitionPositions mapping binder.statement) write := by
  intro position hposition
  obtain ⟨column, -, hcolumn⟩ := mem_filterMap.1 hposition
  rw [Binder.length_bind h]
  exact TargetUpsert.lt_of_bindPosition hcolumn

/-- Under strict grouping the writes have one partition key. -/
def OnePartition (settings : MigrateSettings) (positions : List ℕ) (writes : List BoundWrite) :
    Prop :=
  settings.grouping = .strict → (∀ write ∈ writes, Keyed positions write) →
    ∀ a ∈ writes, ∀ b ∈ writes, keyBytes positions a = keyBytes positions b

/-- A request that may be sent. -/
structure Fits (settings : MigrateSettings) (positions : List ℕ) (request : Request) : Prop where
  ne_nil : request ≠ []
  length_le : request.length ≤ max settings.batchSize 1
  onePartition : OnePartition settings positions request

/-- The batch is not full. -/
structure Open (settings : MigrateSettings) (positions : List ℕ) (buffer : WriteBuffer) :
    Prop where
  length_lt : buffer.batch.length < max settings.batchSize 1
  onePartition : OnePartition settings positions buffer.batch

variable {ε : Type} {settings : MigrateSettings} {positions : List ℕ} {buffer buffer' : WriteBuffer}
  {slot : Request → Except ε Unit} {write : BoundWrite}

theorem onePartition_nil : OnePartition settings positions [] :=
  fun _ _ _ ha => absurd ha not_mem_nil

theorem onePartition_singleton : OnePartition settings positions [write] := by
  intro _ _ a ha b hb
  rw [mem_singleton.1 ha, mem_singleton.1 hb]

/-- An empty batch is open. -/
theorem open_empty (inflight : List Request) :
    Open settings positions ⟨[], inflight⟩ :=
  ⟨lt_max_of_lt_right Nat.one_pos, onePartition_nil⟩

/-- Writes of one partition agree on its key. -/
theorem keyBytes_eq {last : BoundWrite} (hsame : buffer.samePartition positions write = true)
    (hlast : buffer.batch.getLast? = some last) (hkeyed : Keyed positions last)
    (hwrite : Keyed positions write) : keyBytes positions last = keyBytes positions write := by
  rw [samePartition, hlast] at hsame
  rw [keyBytes, keyBytes, map_inj_left]
  intro position hposition
  have hbytes := all_eq_true.1 hsame position hposition
  rw [getElem?_eq_getElem (hkeyed position hposition),
    getElem?_eq_getElem (hwrite position hposition)] at hbytes ⊢
  exact of_decide_eq_true hbytes

/-- A write of the same partition may join the batch. -/
theorem OnePartition.concat (h : OnePartition settings positions buffer.batch)
    (hsame : settings.grouping = .strict → buffer.samePartition positions write = true) :
    OnePartition settings positions (buffer.batch ++ [write]) := by
  intro hstrict hkeyed
  have hbatch := h hstrict fun w hw => hkeyed w (mem_append_left _ hw)
  have hjoin : ∀ a ∈ buffer.batch, keyBytes positions a = keyBytes positions write := by
    intro a ha
    obtain ⟨last, hlast⟩ := Option.isSome_iff_exists.1
      (getLast?_isSome.2 (ne_nil_of_mem ha))
    have hmem := mem_of_getLast? hlast
    rw [hbatch a ha last hmem]
    exact keyBytes_eq (hsame hstrict) hlast (hkeyed _ (mem_append_left _ hmem))
      (hkeyed _ (by simp))
  intro a ha b hb
  rcases mem_append.1 ha with ha | ha <;> rcases mem_append.1 hb with hb | hb
  · exact hbatch a ha b hb
  · rw [mem_singleton.1 hb]
    exact hjoin a ha
  · rw [mem_singleton.1 ha]
    exact (hjoin b hb).symm
  · rw [mem_singleton.1 ha, mem_singleton.1 hb]

/-! ### Sending -/

/-- What is in flight when the batch is sent. -/
def requests (buffer : WriteBuffer) : List Request :=
  if buffer.batch.isEmpty then buffer.inflight else buffer.inflight ++ [buffer.batch]

theorem sendBatch_eq_ok (h : buffer.sendBatch slot = .ok buffer') :
    buffer' = ⟨[], buffer.requests⟩ := by
  unfold sendBatch at h
  unfold requests
  split_ifs at h ⊢ with hempty
  · cases h
    rw [← List.isEmpty_iff.1 hempty]
  · obtain ⟨-, -, h⟩ := bind_eq_ok.1 h
    cases h
    rfl

theorem exists_sendBatch (buffer : WriteBuffer) (hslot : ∀ request, slot request = .ok ()) :
    ∃ sent, buffer.sendBatch slot = .ok sent := by
  unfold sendBatch
  split_ifs
  · exact ⟨buffer, rfl⟩
  · rw [hslot]
    exact ⟨_, rfl⟩

/-- The batch goes out behind the requests in flight. -/
theorem flatten_requests (buffer : WriteBuffer) :
    buffer.requests.flatten = buffer.inflight.flatten ++ buffer.batch := by
  unfold requests
  split_ifs with hempty
  · rw [List.isEmpty_iff.1 hempty, append_nil]
  · simp

theorem Open.fits_batch (h : buffer.Open settings positions) (hne : buffer.batch ≠ []) :
    Fits settings positions buffer.batch :=
  ⟨hne, h.length_lt.le, h.onePartition⟩

/-- What sending the batch adds to the requests in flight. -/
theorem Open.requests_eq (h : buffer.Open settings positions) :
    ∃ sent, buffer.requests = buffer.inflight ++ sent ∧ sent.flatten = buffer.batch ∧
      ∀ request ∈ sent, Fits settings positions request := by
  unfold requests
  split_ifs with hempty
  · refine ⟨[], (append_nil _).symm, (List.isEmpty_iff.1 hempty).symm, ?_⟩
    exact fun _ hmem => absurd hmem not_mem_nil
  · refine ⟨[buffer.batch], rfl, by simp, ?_⟩
    intro request hmem
    rw [mem_singleton.1 hmem]
    exact h.fits_batch fun hnil => hempty (List.isEmpty_iff.2 hnil)

/-- A buffer that has taken a write: what it has sent since, and what it holds. -/
def Takes (settings : MigrateSettings) (positions : List ℕ) (buffer : WriteBuffer)
    (write : BoundWrite) (buffer' : WriteBuffer) : Prop :=
  buffer'.Open settings positions ∧ ∃ sent, buffer'.inflight = buffer.inflight ++ sent ∧
    sent.flatten ++ buffer'.batch = buffer.batch ++ [write] ∧
    ∀ request ∈ sent, Fits settings positions request

/-- A write joins the batch, which is sent when it is full. -/
theorem takes_join (hopen : buffer.Open settings positions)
    (hsame : settings.grouping = .strict → buffer.samePartition positions write = true)
    (h : (if (buffer.batch ++ [write]).length ≥ settings.batchSize then
        sendBatch slot ⟨buffer.batch ++ [write], buffer.inflight⟩
      else .ok ⟨buffer.batch ++ [write], buffer.inflight⟩) = .ok buffer') :
    Takes settings positions buffer write buffer' := by
  have hlen := hopen.length_lt
  have hone := hopen.onePartition.concat hsame
  split_ifs at h with hfull
  · rw [sendBatch_eq_ok h, requests]
    refine ⟨open_empty _, [buffer.batch ++ [write]], by simp, by simp, ?_⟩
    intro request hmem
    rw [mem_singleton.1 hmem]
    refine ⟨by simp, ?_, hone⟩
    rw [length_append, length_singleton]
    exact hlen
  · cases h
    refine ⟨⟨lt_max_of_lt_left (not_le.1 hfull), hone⟩, [], (append_nil _).symm, rfl, ?_⟩
    exact fun _ hmem => absurd hmem not_mem_nil

/-- Sending the batch before the write is taken keeps the order. -/
theorem Takes.of_send (hopen : buffer.Open settings positions)
    (h : Takes settings positions ⟨[], buffer.requests⟩ write buffer') :
    Takes settings positions buffer write buffer' := by
  obtain ⟨before, hbefore, hbatch, hfitsBefore⟩ := hopen.requests_eq
  obtain ⟨hopen', sent, hinflight, hflatten, hfits⟩ := h
  refine ⟨hopen', before ++ sent, ?_, ?_, ?_⟩
  · rw [hinflight, hbefore, append_assoc]
  · rw [flatten_append, append_assoc, hflatten, hbatch, nil_append]
  · intro request hmem
    exact (mem_append.1 hmem).elim (hfitsBefore request) (hfits request)

/-- A push takes the write: what it sends and what it leaves are the batch it has found and the
write. -/
theorem push_spec (hopen : buffer.Open settings positions)
    (h : buffer.push settings positions slot write = .ok buffer') :
    Takes settings positions buffer write buffer' := by
  unfold push at h
  dsimp only at h
  by_cases hbatching : settings.isBatching = true
  · rw [if_pos hbatching] at h
    split_ifs at h with hchange
    · -- a write of another partition sends the batch first
      obtain ⟨ready, hready, h⟩ := bind_eq_ok.1 h
      rw [sendBatch_eq_ok hready] at h
      exact .of_send hopen (takes_join (open_empty _) (fun _ => rfl) h)
    · refine takes_join hopen ?_ h
      intro hstrict
      rw [comparedPositions, hstrict] at hchange
      by_cases hempty : buffer.batch = []
      · rw [samePartition, hempty]
        rfl
      · simpa [hempty] using hchange
  · rw [if_neg hbatching] at h
    obtain ⟨-, -, h⟩ := bind_eq_ok.1 h
    cases h
    -- without batching a write is a request of its own, and no batch is ever begun
    have hempty : buffer.batch = [] := by
      have hlen := hopen.length_lt
      have hsize : ¬1 < settings.batchSize := fun hlt => hbatching (decide_eq_true hlt)
      exact eq_nil_of_length_eq_zero (by omega)
    refine ⟨⟨hopen.length_lt, hopen.onePartition⟩, [[write]], rfl, by simp [hempty], ?_⟩
    intro request hmem
    rw [mem_singleton.1 hmem]
    exact ⟨by simp, by simp, onePartition_singleton⟩

variable (settings positions) in
/-- A sink that takes every request takes every write. -/
theorem exists_push (hslot : ∀ request, slot request = .ok ()) (buffer : WriteBuffer)
    (write : BoundWrite) :
    ∃ buffer', buffer.push settings positions slot write = .ok buffer' := by
  have hjoin (ready : WriteBuffer) : ∃ buffer',
      (if (ready.batch ++ [write]).length ≥ settings.batchSize then
        sendBatch slot ⟨ready.batch ++ [write], ready.inflight⟩
      else .ok ⟨ready.batch ++ [write], ready.inflight⟩) = .ok buffer' := by
    split_ifs
    · exact exists_sendBatch _ hslot
    · exact ⟨_, rfl⟩
  unfold push
  dsimp only
  by_cases hbatching : settings.isBatching = true
  · rw [if_pos hbatching]
    split_ifs with hchange
    · obtain ⟨ready, hready⟩ := exists_sendBatch buffer hslot
      rw [hready]
      exact hjoin ready
    · exact hjoin buffer
  · rw [if_neg hbatching, hslot]
    exact ⟨_, rfl⟩

/-! ### Which writes begin a request -/

section Permits

variable (settings positions) in
/-- The place of a write in the run of writes of one partition that it is in, from that of the write
before it. -/
def placeAfter (previous : Option (BoundWrite × ℕ)) (write : BoundWrite) : ℕ :=
  match previous with
  | none => 0
  | some (last, place) =>
    if samePartition (comparedPositions settings positions) ⟨[last], []⟩ write then place + 1 else 0

variable (settings positions) in
/-- How many of the writes begin a request: those whose place is a multiple of the batch size. -/
def begun (previous : Option (BoundWrite × ℕ)) : List BoundWrite → ℕ
  | [] => 0
  | write :: writes =>
    let place := placeAfter settings positions previous write
    (if place % max settings.batchSize 1 = 0 then 1 else 0) + begun (some (write, place)) writes

/-- Since the last flush the buffer has begun `n` requests, the last write was `previous`, and there
was a permit for each of the requests in flight. -/
structure Holds (settings : MigrateSettings) (permits : ℕ) (buffer : WriteBuffer)
    (previous : Option (BoundWrite × ℕ)) (n : ℕ) : Prop where
  inflight_le : buffer.inflight.length ≤ permits
  length_requests : buffer.requests.length = n
  length_batch : buffer.batch.length =
    previous.elim 0 fun write => (write.2 + 1) % max settings.batchSize 1
  last : ∀ write ∈ buffer.batch.getLast?, ∃ place, previous = some (write, place)

variable {permits n : ℕ} {previous : Option (BoundWrite × ℕ)} {halt : ε}

theorem holds_empty : Holds settings permits {} none 0 :=
  ⟨Nat.zero_le _, rfl, rfl, fun _ h => by cases h⟩

theorem length_requests_of_ne_nil (h : buffer.batch ≠ []) :
    buffer.requests.length = buffer.inflight.length + 1 := by
  rw [requests, if_neg (by rwa [List.isEmpty_iff]), length_append, length_singleton]

variable (positions) in
/-- A write behind an empty batch begins a request. -/
theorem Holds.place_of_nil (h : Holds settings permits buffer previous n)
    (hnil : buffer.batch = []) (write : BoundWrite) :
    placeAfter settings positions previous write % max settings.batchSize 1 = 0 := by
  have hlength := h.length_batch
  rw [hnil] at hlength
  cases previous with
  | none => exact Nat.zero_mod _
  | some previous =>
    obtain ⟨last, place⟩ := previous
    simp only [placeAfter]
    split_ifs
    · exact hlength.symm
    · exact Nat.zero_mod _

variable (positions) in
/-- A write behind a batch is the next one in the batch's run, or begins a run. -/
theorem Holds.place_of_ne_nil (h : Holds settings permits buffer previous n)
    (hne : buffer.batch ≠ []) :
    ∃ place, buffer.batch.length = (place + 1) % max settings.batchSize 1 ∧
      ∀ write, placeAfter settings positions previous write =
        if buffer.samePartition (comparedPositions settings positions) write then place + 1 else 0 := by
  obtain ⟨last, hlast⟩ := Option.isSome_iff_exists.1 (getLast?_isSome.2 hne)
  obtain ⟨place, rfl⟩ := h.last last hlast
  refine ⟨place, h.length_batch, fun write => ?_⟩
  have hsame (positions : List ℕ) :
      samePartition positions ⟨[last], []⟩ write = buffer.samePartition positions write := by
    rw [samePartition, samePartition, hlast]
    rfl
  rw [placeAfter, hsame]

section Answered

variable (hslot : ∀ request,
  slot request = if buffer.inflight.length < permits then .ok () else .error halt)

include hslot

theorem sendBatch_of_ne_nil {batch : Request} (h : batch ≠ []) :
    sendBatch slot ⟨batch, buffer.inflight⟩ =
      if buffer.inflight.length < permits then .ok ⟨[], buffer.inflight ++ [batch]⟩
      else .error halt := by
  rw [sendBatch, if_neg (by rwa [List.isEmpty_iff]), hslot]
  split_ifs <;> rfl

/-- A flush sends the batch, or waits because there are more requests than permits. -/
theorem Holds.sendBatch (h : Holds settings permits buffer previous n) :
    (∃ sent, buffer.sendBatch slot = .ok sent) ∧ n ≤ permits ∨
      buffer.sendBatch slot = .error halt ∧ permits < n := by
  by_cases hnil : buffer.batch = []
  · have hn := h.length_requests
    rw [requests, if_pos (List.isEmpty_iff.2 hnil)] at hn
    exact .inl ⟨⟨buffer, if_pos (List.isEmpty_iff.2 hnil)⟩, hn ▸ h.inflight_le⟩
  · have hn := h.length_requests
    rw [length_requests_of_ne_nil hnil] at hn
    have hsend := sendBatch_of_ne_nil hslot hnil
    split_ifs at hsend with hpermit
    · exact .inl ⟨⟨_, hsend⟩, by omega⟩
    · exact .inr ⟨hsend, by omega⟩

/-- A write joins the batch, which is sent when it is full, or waits then. -/
theorem join_holds {batch : Request} {place : ℕ} (hsize : 1 < settings.batchSize)
    (hlength : batch.length = place % settings.batchSize)
    (hle : buffer.inflight.length ≤ permits) (write : BoundWrite) :
    (∃ buffer', (if (batch ++ [write]).length ≥ settings.batchSize then
        sendBatch slot ⟨batch ++ [write], buffer.inflight⟩
      else .ok ⟨batch ++ [write], buffer.inflight⟩) = .ok buffer' ∧
      Holds settings permits buffer' (some (write, place)) (buffer.inflight.length + 1)) ∨
    (if (batch ++ [write]).length ≥ settings.batchSize then
        sendBatch slot ⟨batch ++ [write], buffer.inflight⟩
      else .ok ⟨batch ++ [write], buffer.inflight⟩) = .error halt ∧
      permits ≤ buffer.inflight.length := by
  have hmod := Nat.mod_lt place (Nat.zero_lt_of_lt hsize)
  have hnext : (place + 1) % settings.batchSize = (batch.length + 1) % settings.batchSize := by
    rw [hlength, Nat.mod_add_mod]
  have hconcat : (batch ++ [write]).length = batch.length + 1 := by simp
  have hmax := max_eq_left hsize.le
  by_cases hfull : (batch ++ [write]).length ≥ settings.batchSize
  · rw [if_pos hfull, sendBatch_of_ne_nil hslot (by simp)]
    split_ifs with hpermit
    · refine .inl ⟨_, rfl, ?_, by simp [requests], ?_, fun _ h => by cases h⟩
      · rw [length_append, length_singleton]
        omega
      · have hsent : batch.length + 1 = settings.batchSize := by omega
        rw [Option.elim_some, hmax, hnext, hsent, Nat.mod_self]
        rfl
    · exact .inr ⟨rfl, not_lt.1 hpermit⟩
  · rw [if_neg hfull]
    refine .inl ⟨_, rfl, hle, length_requests_of_ne_nil (by simp), ?_, fun w hw => ⟨place, ?_⟩⟩
    · rw [Option.elim_some, hmax, hnext, Nat.mod_eq_of_lt (by omega), hconcat]
    · rw [getLast?_concat] at hw
      cases hw
      rfl

variable (positions) in
/-- A push takes the write, or waits because there are more requests than permits. -/
theorem push_holds (h : Holds settings permits buffer previous n) (write : BoundWrite) :
    let place := placeAfter settings positions previous write
    let n' := n + if place % max settings.batchSize 1 = 0 then 1 else 0
    (∃ buffer', buffer.push settings positions slot write = .ok buffer' ∧
      Holds settings permits buffer' (some (write, place)) n') ∨
    buffer.push settings positions slot write = .error halt ∧ permits < n' := by
  have hle := h.inflight_le
  have hn := h.length_requests
  unfold push
  dsimp only
  by_cases hbatching : settings.isBatching = true
  · have hsize : 1 < settings.batchSize := of_decide_eq_true hbatching
    have hmax := max_eq_left hsize.le
    rw [if_pos hbatching]
    by_cases hnil : buffer.batch = []
    · -- the write begins a batch
      have hplace := h.place_of_nil positions hnil write
      have hnone : (!buffer.batch.isEmpty &&
          !samePartition (comparedPositions settings positions) buffer write) = false := by
        simp [hnil]
      rw [requests, if_pos (List.isEmpty_iff.2 hnil)] at hn
      rw [if_pos hplace, ← hn, hnone]
      rw [hmax] at hplace
      have hlength : buffer.batch.length = placeAfter settings positions previous write %
          settings.batchSize := by rw [hplace, hnil, length_nil]
      rcases join_holds hslot hsize hlength hle write with htaken | ⟨hwaits, hpermits⟩
      · exact .inl htaken
      · exact .inr ⟨hwaits, Nat.lt_succ_of_le hpermits⟩
    · obtain ⟨place, hlength, hplace⟩ := h.place_of_ne_nil positions hnil
      rw [length_requests_of_ne_nil hnil] at hn
      rw [hplace, hmax, ← hn]
      rw [hmax] at hlength
      have hpos := length_pos_iff.2 hnil
      cases hsame : samePartition (comparedPositions settings positions) buffer write with
      | true =>
        -- the write joins the batch
        have hnone : (!buffer.batch.isEmpty && !true) = false := by simp
        have hinside : ¬(place + 1) % settings.batchSize = 0 := by omega
        rw [hnone, if_pos rfl, if_neg hinside, Nat.add_zero]
        rcases join_holds hslot hsize hlength hle write with htaken | ⟨hwaits, hpermits⟩
        · exact .inl htaken
        · exact .inr ⟨hwaits, Nat.lt_succ_of_le hpermits⟩
      | false =>
        -- the batch is sent, and the write begins one
        have hsome : (!buffer.batch.isEmpty && !false) = true := by simp [hnil]
        rw [hsome, if_neg Bool.false_ne_true, if_pos (Nat.zero_mod _), if_pos rfl]
        have hsend := sendBatch_of_ne_nil hslot hnil
        split_ifs at hsend with hpermit
        · refine .inl ⟨⟨[write], buffer.inflight ++ [buffer.batch]⟩, ?_, ?_, ?_, ?_, ?_⟩
          · rw [hsend]
            exact if_neg (not_le.2 hsize)
          · rw [length_append, length_singleton]
            omega
          · simp [requests]
          · rw [Option.elim_some, hmax, Nat.mod_eq_of_lt hsize]
            rfl
          · rintro w ⟨⟩
            exact ⟨0, rfl⟩
        · refine .inr ⟨?_, by omega⟩
          rw [hsend]
          rfl
  · -- a write is a request of its own
    have hmax : max settings.batchSize 1 = 1 :=
      max_eq_right (not_lt.1 fun hlt => hbatching (decide_eq_true hlt))
    have hnil : buffer.batch = [] := by
      have hlength := h.length_batch
      rw [hmax] at hlength
      cases previous <;> simpa [Nat.mod_one] using hlength
    rw [requests, if_pos (List.isEmpty_iff.2 hnil)] at hn
    rw [if_neg hbatching, hmax, if_pos (Nat.mod_one _), hslot]
    split_ifs with hpermit
    · refine .inl ⟨_, rfl, ?_, ?_, ?_, ?_⟩
      · rw [length_append, length_singleton]
        omega
      · simp [requests, hnil, hn]
      · simp [hnil, hmax, Nat.mod_one]
      · simp [hnil]
    · exact .inr ⟨rfl, by omega⟩

end Answered

end Permits

end WriteBuffer

/-! ### A range's writes -/

/-- Whether the buffer takes writes. -/
inductive Delivery.Phase
  | taking
  /-- Enough writes are unflushed, and the push ends with a flush. -/
  | due
  /-- A permit was refused, or a request has failed; nothing is written after it. -/
  | failed
  /-- A push or a flush waits for a permit, and nothing awaits the requests that hold them. -/
  | waiting
  deriving DecidableEq, Repr

/-- Why a request gets no permit. -/
inductive Delivery.Halt
  | refused (error : CdmError)
  | waits

/-- A request that has been awaited, with how it has ended. -/
abbrev Delivery.Awaited := Request × Except CdmError Unit

/-- The counters of a range, the buffer of its page, and the requests that have been awaited, with
how they have ended. -/
structure Delivery where
  counters : JobCounters
  buffer : WriteBuffer
  awaited : List Delivery.Awaited
  phase : Delivery.Phase

namespace Delivery

/-- What is asked of the buffer, with what the sink answers: which requests it takes, and how those
in flight have ended, in the order in which they were sent. -/
inductive Act
  | push (write : BoundWrite) (slot : WriteSlot)
  | flush (slot : WriteSlot) (results : List (Except CdmError Unit))

/-- A range that has written nothing. -/
def init : Delivery := ⟨.new .migrate, {}, [], .taking⟩

/-- The requests that the sink has received, in order. -/
def received (s : Delivery) : List Request :=
  s.awaited.map Prod.fst ++ s.buffer.inflight

/-- Nothing is written after this. -/
def stop (s : Delivery) : Delivery.Halt → Delivery
  | .refused _ => { s with phase := .failed }
  | .waits => { s with phase := .waiting }

section

variable (settings : MigrateSettings) (positions : List ℕ) (permits : ℕ)

/-- `write_slot`, when the buffer's own requests are the only ones in flight.  A push asks for at most
one permit, and so does a flush. -/
def writeSlot (s : Delivery) (slot : WriteSlot)
    (request : Request) : Except Halt Unit :=
  match slot request with
  | .error e => .error (.refused e)
  | .ok _ => if s.buffer.inflight.length < permits then .ok () else .error .waits

/-- One step. -/
def step (s : Delivery) : Act → Option Delivery
  | .push write slot =>
    if s.phase = .taking then
      match s.buffer.push settings positions (s.writeSlot permits slot) write with
      | .error halt => some (s.stop halt)
      | .ok buffer =>
        -- the counter goes on from page to page, and so does the interval of the flushes
        let counters := s.counters.incrementKind .unflushed 1
        let phase :=
          if settings.shouldFlush (counters.countOf .unflushed .interim) then .due else .taking
        some { s with counters, buffer, phase }
    else none
  | .flush slot results =>
    if s.phase = .taking ∨ s.phase = .due then
      match s.buffer.sendBatch (s.writeSlot permits slot) with
      | .error halt => some (s.stop halt)
      | .ok sent =>
        if results.length = sent.inflight.length then
          -- every request is awaited, and one failure credits none of them
          let succeeded := results.all Except.isOk
          some {
            counters := if succeeded then MigrateRange.credit s.counters else s.counters
            buffer := {}
            awaited := s.awaited ++ sent.inflight.zip results
            phase := if succeeded then .taking else .failed }
        else none
    else none

/-- Pushing and flushing. -/
def lts : LTS Delivery Act := ⟨step settings positions permits⟩

/-- The write that a step takes into the buffer. -/
def accepts (s : Delivery) : Act → Option BoundWrite
  | .push write slot =>
    match s.buffer.push settings positions (s.writeSlot permits slot) write with
    | .error _ => none
    | .ok _ => some write
  | .flush _ _ => none

/-- The writes that a run has taken. -/
def accepted (acts : List Act) : List BoundWrite :=
  (lts settings positions permits).outputs (accepts settings positions permits) init acts

/-- The sink takes every request. -/
def always (_ : Request) : Except CdmError Unit := .ok ()

/-- A flush, all of whose requests succeed. -/
def flushAct (s : Delivery) : Act :=
  .flush always (List.replicate s.buffer.requests.length (.ok ()))

/-- A write is pushed, and flushed when that is due; the sink succeeds. -/
def deliverOne (s : Delivery) (write : BoundWrite) : Option Delivery :=
  (step settings positions permits s (.push write always)).bind fun s =>
    if s.phase = .due then step settings positions permits s s.flushAct else some s

/-- The writes are pushed one after the other, and what is left is flushed; the sink succeeds. -/
def deliver (s : Delivery) : List BoundWrite → Option Delivery
  | [] => step settings positions permits s s.flushAct
  | write :: writes =>
    (deliverOne settings positions permits s write).bind fun s => deliver s writes

end

/-- The writes of these requests. -/
def writesOf (requests : List Awaited) : List BoundWrite :=
  (requests.map Prod.fst).flatten

/-! ### What a run has delivered -/

/-- The requests that were credited: all of them succeeded, and there are more only when a flush has
failed. -/
structure Credits (s : Delivery) (done : List Awaited) :
    Prop where
  isPrefix : done <+: s.awaited
  succeeded : ∀ request ∈ done, request.2 = .ok ()
  eq_awaited : s.phase ≠ .failed → done = s.awaited

/-- What has become of the writes `writes` that were taken. -/
structure Inv (settings : MigrateSettings) (positions : List ℕ) (s : Delivery)
    (writes : List BoundWrite) : Prop where
  job : s.counters.job = .migrate
  buffer : s.buffer.Open settings positions
  fits : ∀ request ∈ s.received, WriteBuffer.Fits settings positions request
  delivered : s.received.flatten ++ s.buffer.batch = writes
  counts : ∃ f done, s.counters.Counts f ∧ s.Credits done ∧ f .write = (writesOf done).length ∧
    f .write + f .unflushed = writes.length

variable {settings : MigrateSettings} {positions : List ℕ} {permits : ℕ} {s s' : Delivery}
  {writes : List BoundWrite}

theorem inv_init : Inv settings positions init [] where
  job := rfl
  buffer := WriteBuffer.open_empty []
  fits := fun _ hmem => absurd hmem not_mem_nil
  delivered := rfl
  counts := ⟨fun _ => 0, [], .new .migrate, ⟨prefix_rfl, fun _ h => absurd h not_mem_nil,
    fun _ => rfl⟩, rfl, rfl⟩

/-- A run that stops has credited what it had. -/
theorem Inv.stop (hi : Inv settings positions s writes) (hphase : s.phase ≠ .failed) (halt : Halt) :
    Inv settings positions (s.stop halt) writes := by
  obtain ⟨f, done, hcounts, hcredits, hwrite, hsum⟩ := hi.counts
  have hawaited := hcredits.eq_awaited hphase
  cases halt <;>
  exact ⟨hi.job, hi.buffer, hi.fits, hi.delivered, f, done, hcounts,
    ⟨hcredits.isPrefix, hcredits.succeeded, fun _ => hawaited⟩, hwrite, hsum⟩

theorem push_inv (hi : Inv settings positions s writes) {write : BoundWrite} {slot : WriteSlot}
    (hs : step settings positions permits s (.push write slot) = some s') :
    Inv settings positions s'
      (writes ++ (accepts settings positions permits s (.push write slot)).toList) := by
  by_cases htaking : s.phase = .taking
  · simp only [step, if_pos htaking] at hs
    cases hpush : s.buffer.push settings positions (s.writeSlot permits slot) write with
    | error halt =>
      simp only [hpush] at hs
      cases hs
      simp only [accepts, hpush, Option.toList_none, append_nil]
      exact hi.stop (by simp [htaking]) halt
    | ok buffer =>
      simp only [hpush] at hs
      cases hs
      simp only [accepts, hpush, Option.toList_some]
      obtain ⟨hopen, sent, hinflight, hflatten, hfits⟩ := WriteBuffer.push_spec hi.buffer hpush
      obtain ⟨f, done, hcounts, hcredits, hwrite, hsum⟩ := hi.counts
      refine ⟨by simpa using hi.job, hopen, ?_, ?_, _, done, hcounts.increment .unflushed 1,
        ⟨hcredits.isPrefix, hcredits.succeeded, ?_⟩, ?_, ?_⟩
      · intro request hmem
        simp only [received, hinflight, ← append_assoc] at hmem
        exact (mem_append.1 hmem).elim (hi.fits request) (hfits request)
      · simp only [received, hinflight, ← hi.delivered, flatten_append, append_assoc,
          hflatten]
      · exact fun _ => hcredits.eq_awaited (by simp [htaking])
      · simpa using hwrite
      · simp only [Function.update_self, length_append, length_singleton]
        rw [Function.update_of_ne (by decide)]
        omega
  · simp only [step, if_neg htaking] at hs
    cases hs

section Await

variable {results : List (Except CdmError Unit)}

/-- The requests that a flush awaits are those in flight and the batch. -/
theorem map_fst_awaited (hlen : results.length = s.buffer.requests.length) :
    (s.awaited ++ s.buffer.requests.zip results).map Prod.fst =
      s.awaited.map Prod.fst ++ s.buffer.requests := by
  rw [map_append, map_fst_zip hlen.ge]

/-- Once every request has been awaited, every write that was taken has been received. -/
theorem Inv.writesOf_awaited (hi : Inv settings positions s writes)
    (hlen : results.length = s.buffer.requests.length) :
    writesOf (s.awaited ++ s.buffer.requests.zip results) = writes := by
  rw [writesOf, map_fst_awaited hlen, flatten_append, WriteBuffer.flatten_requests,
    ← append_assoc, ← flatten_append]
  exact hi.delivered

/-- The requests are awaited, and the counters are settled. -/
theorem Inv.await (hi : Inv settings positions s writes)
    (hlen : results.length = s.buffer.requests.length) {counters : JobCounters} {phase : Phase}
    (hjob : counters.job = .migrate) {f : CounterKind → ℕ}
    {done : List Awaited} (hcounts : counters.Counts f)
    (hcredits : Credits ⟨counters, {}, s.awaited ++ s.buffer.requests.zip results, phase⟩ done)
    (hwrite : f .write = (writesOf done).length)
    (hsum : f .write + f .unflushed = writes.length) :
    Inv settings positions ⟨counters, {}, s.awaited ++ s.buffer.requests.zip results, phase⟩
      writes := by
  refine ⟨hjob, WriteBuffer.open_empty [], ?_, ?_, f, done, hcounts, hcredits, hwrite, hsum⟩
  · obtain ⟨added, hadded, -, hfits⟩ := hi.buffer.requests_eq
    intro request hmem
    rw [received, append_nil, map_fst_awaited hlen, hadded, ← append_assoc] at hmem
    exact (mem_append.1 hmem).elim (hi.fits request) (hfits request)
  · rw [received, append_nil, append_nil]
    exact hi.writesOf_awaited hlen

/-- When all results are successes, so are those of the requests awaited. -/
theorem succeeded_zip (hall : results.all Except.isOk = true)
    {request : Awaited}
    {requests : List Request} (hmem : request ∈ requests.zip results) :
    request.2 = .ok () := by
  have hok := all_eq_true.1 hall _ (of_mem_zip hmem).2
  cases hresult : request.2 with
  | ok _ => rfl
  | error e =>
    rw [hresult] at hok
    cases hok

theorem flush_inv (hi : Inv settings positions s writes) {slot : WriteSlot}
    (hs : step settings positions permits s (.flush slot results) = some s') :
    Inv settings positions s' writes := by
  by_cases hphase : s.phase = .taking ∨ s.phase = .due
  · simp only [step, if_pos hphase] at hs
    obtain ⟨f, done, hcounts, hcredits, hwrite, hsum⟩ := hi.counts
    have hnot : s.phase ≠ .failed := by
      rintro h
      simp [h] at hphase
    obtain rfl := hcredits.eq_awaited hnot
    cases hsend : s.buffer.sendBatch (s.writeSlot permits slot) with
    | error halt =>
      simp only [hsend] at hs
      cases hs
      exact hi.stop hnot halt
    | ok sent =>
      simp only [hsend] at hs
      obtain rfl := WriteBuffer.sendBatch_eq_ok hsend
      split_ifs at hs with hlen hall
      · cases hs
        refine hi.await hlen ((MigrateRange.job_credit _).trans hi.job)
          (MigrateRange.counts_credit hi.job hcounts) ⟨prefix_rfl, ?_, fun _ => rfl⟩ ?_ ?_
        · intro request hmem
          exact (mem_append.1 hmem).elim (hcredits.succeeded request) (succeeded_zip hall)
        · simpa [hi.writesOf_awaited hlen] using hsum
        · simpa using hsum
      · -- a request has failed: nothing is credited
        cases hs
        exact hi.await hlen hi.job hcounts
          ⟨prefix_append _ _, hcredits.succeeded, fun h => absurd rfl h⟩ hwrite hsum
  · simp only [step, if_neg hphase] at hs
    cases hs

end Await

theorem inv_of_exec {acts : List Act}
    (h : (lts settings positions permits).exec init acts = some s) :
    Inv settings positions s (accepted settings positions permits acts) := by
  refine LTS.exec_invariant_outputs (I := Inv settings positions) h inv_init ?_
  intro s a s' writes hi hs
  cases a with
  | push write slot => exact push_inv hi hs
  | flush slot results => simpa [accepts] using flush_inv hi hs

/-- A flush that succeeds leaves nothing in the buffer. -/
theorem buffer_of_flush {slot : WriteSlot}
    {results : List (Except CdmError Unit)}
    (hs : step settings positions permits s (.flush slot results) = some s')
    (htaking : s'.phase = .taking) : s'.buffer = {} := by
  by_cases hphase : s.phase = .taking ∨ s.phase = .due
  · simp only [step, if_pos hphase] at hs
    cases hsend : s.buffer.sendBatch (s.writeSlot permits slot) with
    | error halt =>
      simp only [hsend] at hs
      cases hs
      cases halt <;> cases htaking
    | ok sent =>
      simp only [hsend] at hs
      split_ifs at hs <;> cases hs <;> rfl
  · simp only [step, if_neg hphase] at hs
    cases hs

/-! ### A sink that succeeds -/

theorem deliver_stop (s : Delivery) (halt : Halt) (writes : List BoundWrite) :
    deliver settings positions permits (s.stop halt) writes = none := by
  cases halt <;> cases writes <;> rfl

/-- When the last flush has succeeded, the buffer is empty and every write has been taken. -/
theorem deliver_inv {taken : List BoundWrite} (hi : Inv settings positions s taken)
    (h : deliver settings positions permits s writes = some s') (htaking : s'.phase = .taking) :
    Inv settings positions s' (taken ++ writes) ∧ s'.buffer = {} := by
  induction writes generalizing s taken with
  | nil =>
    rw [append_nil]
    exact ⟨flush_inv hi h, buffer_of_flush h htaking⟩
  | cons write writes ih =>
    obtain ⟨s₂, hone, h⟩ := Option.bind_eq_some_iff.1 h
    obtain ⟨s₁, hpush, hflush⟩ := Option.bind_eq_some_iff.1 hone
    have hi₁ := push_inv hi hpush
    have hi₂ : Inv settings positions s₂
        (taken ++ (accepts settings positions permits s (.push write always)).toList) := by
      split_ifs at hflush
      · exact flush_inv hi₁ hflush
      · cases hflush
        exact hi₁
    cases htaken : s.buffer.push settings positions (s.writeSlot permits always) write with
    | ok buffer =>
      simp only [accepts, htaken, Option.toList_some] at hi₂
      have hi' := ih hi₂ h
      rwa [append_assoc] at hi'
    | error halt =>
      simp only [step, htaken] at hpush
      split_ifs at hpush
      cases hpush
      have hdue : (s.stop halt).phase ≠ .due := by cases halt <;> rintro ⟨⟩
      rw [if_neg hdue] at hflush
      cases hflush
      rw [deliver_stop] at h
      cases h

/-! ### Whether the permits suffice -/

/-- In no stretch of writes that one flush covers more requests begin than there are permits. -/
def Affordable (settings : MigrateSettings) (positions : List ℕ) (permits : ℕ)
    (writes : List BoundWrite) : Prop :=
  ∀ k, WriteBuffer.begun settings positions none ((writes.drop
    (k * max settings.flushThreshold 1)).take (max settings.flushThreshold 1)) ≤ permits

/-- The writes are received, in order and once each, and credited. -/
def Delivered (settings : MigrateSettings) (positions : List ℕ) (permits : ℕ)
    (writes : List BoundWrite) : Prop :=
  ∃ s, deliver settings positions permits init writes = some s ∧ s.phase = .taking ∧
    s.received.flatten = writes ∧
    s.counters.countOf .write .interim = .ofNat writes.length ∧
    s.counters.countOf .unflushed .interim = 0

theorem affordable_iff : Affordable settings positions permits writes ↔
    WriteBuffer.begun settings positions none (writes.take (max settings.flushThreshold 1)) ≤
      permits ∧
    Affordable settings positions permits (writes.drop (max settings.flushThreshold 1)) := by
  constructor
  · intro h
    refine ⟨by simpa using h 0, fun k => ?_⟩
    rw [drop_drop, Nat.add_comm, ← Nat.succ_mul]
    exact h (k + 1)
  · rintro ⟨hfirst, hrest⟩ k
    cases k with
    | zero => simpa using hfirst
    | succ k =>
      rw [Nat.succ_mul, Nat.add_comm, ← drop_drop]
      exact hrest k

/-- Since the last flush `n` writes have been pushed, the last of which was `previous`, and they have
begun `begun` requests. -/
structure Since (settings : MigrateSettings) (permits : ℕ) (s : Delivery) (n : ℕ)
    (previous : Option (BoundWrite × ℕ)) (begun : ℕ) : Prop where
  job : s.counters.job = .migrate
  counts : ∃ f, s.counters.Counts f ∧ f .unflushed = n
  holds : s.buffer.Holds settings permits previous begun

theorem since_init : Since settings permits init 0 none 0 :=
  ⟨rfl, ⟨fun _ => 0, .new .migrate, rfl⟩, WriteBuffer.holds_empty⟩

variable {n begun : ℕ} {previous : Option (BoundWrite × ℕ)}

theorem writeSlot_always (request : Request) : s.writeSlot permits always request =
    if s.buffer.inflight.length < permits then .ok () else .error .waits := rfl

variable (positions) in
/-- A flush empties the buffer, or waits because there are more requests than permits. -/
theorem Since.flush (h : Since settings permits s n previous begun)
    (hphase : s.phase = .taking ∨ s.phase = .due) :
    (∃ s', step settings positions permits s s.flushAct = some s' ∧ s'.phase = .taking ∧
      Since settings permits s' 0 none 0) ∧ begun ≤ permits ∨
    step settings positions permits s s.flushAct = some (s.stop .waits) ∧ permits < begun := by
  have hall : (List.replicate s.buffer.requests.length (Except.ok () : Except CdmError Unit)).all
      Except.isOk = true := by
    rw [all_eq_true]
    intro result hmem
    rw [eq_of_mem_replicate hmem]
    rfl
  rcases h.holds.sendBatch writeSlot_always with
    ⟨⟨sent, hsent⟩, hle⟩ | ⟨hwaits, hlt⟩
  · refine .inl ⟨?_, hle⟩
    obtain rfl := WriteBuffer.sendBatch_eq_ok hsent
    obtain ⟨f, hcounts, -⟩ := h.counts
    simp only [step, flushAct, if_pos hphase, hsent, length_replicate, if_true, hall]
    exact ⟨_, rfl, rfl, (MigrateRange.job_credit _).trans h.job,
      ⟨_, MigrateRange.counts_credit h.job hcounts, by simp⟩, WriteBuffer.holds_empty⟩
  · refine .inr ⟨?_, hlt⟩
    simp only [step, flushAct, if_pos hphase, hwaits]

variable (positions) in
/-- A push counts the write, or waits because there are more requests than permits. -/
theorem Since.push (h : Since settings permits s n previous begun) (hphase : s.phase = .taking)
    (hn : n + 1 < 2 ^ 64) (write : BoundWrite) :
    let place := WriteBuffer.placeAfter settings positions previous write
    let begun' := begun + if place % max settings.batchSize 1 = 0 then 1 else 0
    (∃ s', step settings positions permits s (.push write always) = some s' ∧
      s'.phase = (if n + 1 ≥ settings.flushThreshold then .due else .taking) ∧
      Since settings permits s' (n + 1) (some (write, place)) begun') ∨
    step settings positions permits s (.push write always) = some (s.stop .waits) ∧
      permits < begun' := by
  dsimp only
  rcases WriteBuffer.push_holds positions writeSlot_always h.holds write with
    ⟨buffer, hbuffer, hholds⟩ | ⟨hwaits, hlt⟩
  · left
    obtain ⟨f, hcounts, hunflushed⟩ := h.counts
    have hincrement := hcounts.increment .unflushed 1
    have hjob : (s.counters.incrementKind .unflushed 1).job = .migrate := by simpa using h.job
    have hreg : (s.counters.incrementKind .unflushed 1).isRegistered .unflushed = true := by
      rw [JobCounters.isRegistered, hjob]
      rfl
    have hcount : ((s.counters.incrementKind .unflushed 1).countOf .unflushed .interim).toNat =
        n + 1 := by
      have hinterim := hincrement.interim .unflushed hreg
      rw [Function.update_self, hunflushed] at hinterim
      exact (congrArg UInt64.toNat hinterim).trans (UInt64.toNat_ofNat_of_lt' hn)
    simp only [step, if_pos hphase, hbuffer]
    refine ⟨_, rfl, ?_, hjob, ⟨_, hincrement, by simp [hunflushed]⟩, hholds⟩
    simp only [MigrateSettings.shouldFlush, hcount, decide_eq_true_eq]
  · refine .inr ⟨?_, hlt⟩
    simp only [step, if_pos hphase, hwaits]

/-- The writes are pushed and flushed without waiting exactly if the permits suffice. -/
theorem Since.deliver_iff (hthreshold : settings.flushThreshold < 2 ^ 64)
    (h : Since settings permits s n previous begun) (hphase : s.phase = .taking)
    (hn : n < max settings.flushThreshold 1) :
    (∃ s', deliver settings positions permits s writes = some s' ∧ s'.phase = .taking) ↔
      begun + WriteBuffer.begun settings positions previous
        (writes.take (max settings.flushThreshold 1 - n)) ≤ permits ∧
      Affordable settings positions permits (writes.drop (max settings.flushThreshold 1 - n)) := by
  induction writes generalizing s n previous begun with
  | nil =>
    have haffordable : Affordable settings positions permits [] := by
      intro k
      rw [drop_nil, take_nil]
      exact Nat.zero_le _
    rw [take_nil, drop_nil, WriteBuffer.begun, Nat.add_zero, deliver]
    rcases h.flush positions (.inl hphase) with
      ⟨⟨s', hs', htaking, -⟩, hle⟩ | ⟨hwaits, hlt⟩
    · exact ⟨fun _ => ⟨hle, haffordable⟩, fun _ => ⟨s', hs', htaking⟩⟩
    · rw [hwaits]
      constructor
      · rintro ⟨s', ⟨⟩, ⟨⟩⟩
      · rintro ⟨hle, -⟩
        omega
  | cons write writes ih =>
    have hsucc : max settings.flushThreshold 1 - n = max settings.flushThreshold 1 - (n + 1) + 1 := by
      omega
    rw [hsucc, take_succ_cons, drop_succ_cons, WriteBuffer.begun, deliver, deliverOne,
      ← Nat.add_assoc]
    rcases h.push positions hphase (by omega) write with
      ⟨s₁, hs₁, hphase₁, h₁⟩ | ⟨hwaits, hlt⟩
    · rw [hs₁, Option.bind_some]
      by_cases hdue : n + 1 ≥ settings.flushThreshold
      · -- the stretch ends with this write
        rw [if_pos hdue] at hphase₁
        have hend : max settings.flushThreshold 1 - (n + 1) = 0 := by omega
        rw [if_pos hphase₁, hend, take_zero, drop_zero, WriteBuffer.begun, Nat.add_zero]
        rcases h₁.flush positions (.inr hphase₁) with
          ⟨⟨s₂, hs₂, htaking, h₂⟩, hle⟩ | ⟨hwaits, hlt⟩
        · rw [hs₂, Option.bind_some, ih h₂ htaking (by omega), Nat.zero_add, Nat.sub_zero,
            ← affordable_iff]
          exact (and_iff_right hle).symm
        · rw [hwaits, Option.bind_some, deliver_stop]
          constructor
          · rintro ⟨s', ⟨⟩, -⟩
          · rintro ⟨hle, -⟩
            omega
      · rw [if_neg hdue] at hphase₁
        have hnot : s₁.phase ≠ .due := by rw [hphase₁]; rintro ⟨⟩
        rw [if_neg hnot, Option.bind_some]
        exact ih h₁ hphase₁ (by omega)
    · have hnot : (s.stop .waits).phase ≠ .due := by rintro ⟨⟩
      rw [hwaits, Option.bind_some, if_neg hnot, Option.bind_some, deliver_stop]
      constructor
      · rintro ⟨s', ⟨⟩, -⟩
      · rintro ⟨hle, -⟩
        omega

/-- What is delivered without waiting is received and credited as a whole. -/
theorem delivered_iff (hthreshold : settings.flushThreshold < 2 ^ 64) :
    Delivered settings positions permits writes ↔ Affordable settings positions permits writes := by
  have hiff : (∃ s', deliver settings positions permits init writes = some s' ∧ _) ↔ _ :=
    since_init.deliver_iff hthreshold rfl (Nat.lt_of_lt_of_le Nat.one_pos (le_max_right _ _))
  rw [Nat.zero_add, Nat.sub_zero, ← affordable_iff] at hiff
  rw [← hiff]
  constructor
  · rintro ⟨s, hs, htaking, -⟩
    exact ⟨s, hs, htaking⟩
  · rintro ⟨s, hs, htaking⟩
    obtain ⟨hi, hbuffer⟩ := deliver_inv inv_init hs htaking
    rw [nil_append] at hi
    have hreceived : s.received.flatten = writes := by
      have hdelivered := hi.delivered
      rwa [hbuffer, append_nil] at hdelivered
    obtain ⟨f, done, hcounts, hcredits, hwrite, hsum⟩ := hi.counts
    obtain rfl := hcredits.eq_awaited (by rw [htaking]; rintro ⟨⟩)
    have hall : writesOf s.awaited = writes := by
      rw [← hreceived, received, hbuffer, append_nil, writesOf]
    have hreg {kind : CounterKind} (hkind : kind.isRegisteredFor .migrate = true) :
        s.counters.isRegistered kind = true := by
      rwa [JobCounters.isRegistered, hi.job]
    refine ⟨s, hs, htaking, hreceived, ?_, ?_⟩
    · rw [hcounts.interim _ (hreg rfl), hwrite, hall]
    · rw [hall] at hwrite
      have hzero : f .unflushed = 0 := by omega
      rw [hcounts.interim _ (hreg rfl), hzero]
      rfl

/-! ### Each write once -/

end Delivery

/-! ### Two writes -/

namespace DeliverySample

open Delivery MigrateSample

def settings : MigrateSettings := .new 1 1000 .strict false false

def positions : List ℕ := MigratePlan.partitionPositions mapping plan.binder.statement

def writes : List BoundWrite :=
  [[.value [0, 0, 0, 1], .value [0, 0, 0, 7]], [.value [0, 0, 0, 2], .value [0, 0, 0, 7]]]

end DeliverySample

end Cdm
