import Cdm.LTS.Basic
import Cdm.Track.Store

/-!
# The tracking writer

`RunTracker` never makes a worker wait for the tracking store.  A range write is sent to a bounded
channel; when the channel is full it is *shed* into a checkpoint map that keeps the latest write of
each range.  One writer task takes batches from the channel, and on a timer the whole checkpoint
map; `finish` sends the run write, closes the channel, waits for the writer and applies what is left
in the map.

The calls of the workers, the writer, the timer, `finish` and the task it spawns when the channel is
full interleave in any order, and a call of `enqueue` is itself three moves: it clones the sender,
tries to send, and, if there was no room, locks the map.  The calls for one range are made one after
the other.

Every range write carries its number in the order they were enqueued, its ticket, which the program
does not have: the tickets, `history` and `applied` are what statements about the order of writes
are made of.
-/

namespace Cdm

open Std (TreeMap)

/-- How the tracking writer is sized. -/
structure TrackerConfig where
  /-- How many pending writes the channel holds. -/
  queueCapacity : ℕ
  /-- How many writes the writer takes at once. -/
  batchSize : ℕ
  deriving DecidableEq, Repr

/-- One pending tracking write; a range write with its ticket. -/
inductive Item
  | range (ticket : ℕ) (record : RangeRecord)
  | run (status : RunStatus) (info : Option String)
  deriving DecidableEq

namespace Item

/-- Whether this is the write of the run row. -/
def isRun : Item → Bool
  | run .. => true
  | range .. => false

/-- The row a range write goes to. -/
def key? : Item → Option ℤ
  | range _ record => some record.range.min
  | run .. => none

/-- The record of a write to the row of the range that starts at `k`. -/
def at? (k : ℤ) : Item → Option RangeRecord
  | range _ record => if record.range.min = k then some record else none
  | run .. => none

end Item

/-- A range write that the channel had no room for, with its ticket. -/
structure Shed where
  ticket : ℕ
  record : RangeRecord
  deriving DecidableEq

/-- A shed write as the writer applies it. -/
def Shed.item (s : Shed) : Item := .range s.ticket s.record

/-- How far a call of `enqueue` is. -/
inductive CallStage
  /-- It holds a clone of the sender and has not used it yet. -/
  | sending
  /-- It is about to fold its write into the map; `clone` says whether it holds a sender. -/
  | folding (clone : Bool)
  deriving DecidableEq, Repr

/-- A call of `enqueue` for a range write, between its start and its return. -/
structure Call where
  record : RangeRecord
  stage : CallStage
  deriving DecidableEq

/-- Whether the call keeps the channel open. -/
def Call.holdsSender (c : Call) : Bool := c.stage ≠ .folding false

/-- How far the tracker is with closing down. -/
inductive TrackerPhase
  /-- The writer is in its loop. -/
  | looping
  /-- The channel is closed and empty; the writer applies its last checkpoint. -/
  | draining
  /-- The writer has ended; `close_writer` applies what the checkpoint still holds. -/
  | closing
  /-- `finish` has returned. -/
  | finished
  deriving DecidableEq, Repr

/-- The state of a tracked run. -/
structure Tracker where
  /-- The channel, oldest write first. -/
  queue : List Item
  /-- The latest shed write of each range, by `token_min`. -/
  pending : TreeMap ℤ Shed
  /-- How many writes have been shed. -/
  shed : ℕ
  /-- The calls of `enqueue` that have not returned. -/
  calls : List Call
  /-- The run write of a spawned task that waits for room in the channel. -/
  spawned : Option Item
  /-- Whether the tracker still holds the sending half of the channel. -/
  sender : Bool
  /-- The writes that were taken from the channel or the map and are not yet applied. -/
  rest : List Item
  phase : TrackerPhase
  store : StoredRun
  /-- Every range write that has been enqueued, in the order it entered the channel or the map. -/
  history : List RangeRecord
  /-- The tickets of the range writes the store has applied. -/
  applied : List ℕ
  /-- How many range writes had been enqueued when `finish` was called. -/
  finishedAt : Option ℕ

namespace Tracker

/-- The moves of a tracked run. -/
inductive Act
  /-- A worker marks a range `STARTED`: the call clones the sender. -/
  | startRange (range : TokenRange) (now : ℤ)
  /-- A worker records a range's outcome: the call clones the sender. -/
  | finishRange (range : TokenRange) (status : RunStatus) (runInfo : String)
  /-- A call tries to send its write. -/
  | trySend (i : ℕ)
  /-- A call folds its write into the checkpoint map. -/
  | fold (i : ℕ)
  /-- `finish` enqueues the run write. -/
  | finish (status : RunStatus) (runInfo : String)
  /-- `close_writer` drops the sender. -/
  | dropSender
  /-- The spawned task gets room in the channel. -/
  | spawnedSend
  /-- The writer takes a batch from the channel. -/
  | recv
  /-- The timer fires and the writer takes the checkpoint map. -/
  | tick
  /-- The channel is closed and empty: the writer leaves its loop with a last checkpoint. -/
  | drain
  /-- The writer has ended, and `close_writer` takes the checkpoint map once more. -/
  | join
  /-- `finish` returns. -/
  | done
  /-- The next write that was taken is applied to the store. -/
  | apply (now : ℤ)

/-- A tracker that has just created its run. -/
def init (store : StoredRun) : Tracker where
  queue := []
  pending := ∅
  shed := 0
  calls := []
  spawned := none
  sender := true
  rest := []
  phase := .looping
  store := store
  history := []
  applied := []
  finishedAt := none

variable (config : TrackerConfig)

/-- Whether the channel has room. -/
def hasRoom (s : Tracker) : Bool := s.queue.length < max config.queueCapacity 1

/-- `enqueue` of a range write begins: it clones the sender, if there still is one. -/
def enqueue (s : Tracker) (record : RangeRecord) : Option Tracker :=
  if s.calls.any (fun c => c.record.range.min = record.range.min) then none
  else
    let stage := if s.sender then CallStage.sending else .folding false
    some { s with calls := s.calls ++ [⟨record, stage⟩] }

/-- The channel takes the write of the call `i`, which returns. -/
def send (s : Tracker) (i : ℕ) (record : RangeRecord) : Tracker :=
  { s with
    queue := s.queue ++ [Item.range s.history.length record]
    calls := s.calls.eraseIdx i
    history := s.history ++ [record] }

/-- The write of the call `i` goes into the checkpoint map, and the call returns. -/
def fold (s : Tracker) (i : ℕ) (record : RangeRecord) : Tracker :=
  { s with
    pending := s.pending.insert record.range.min ⟨s.history.length, record⟩
    calls := s.calls.eraseIdx i
    history := s.history ++ [record] }

/-- There is no room for the write of the call `i`. -/
def shedCall (s : Tracker) (i : ℕ) (record : RangeRecord) : Tracker :=
  { s with shed := s.shed + 1, calls := s.calls.set i ⟨record, .folding true⟩ }

/-- `enqueue` of the run write. -/
def enqueueRun (s : Tracker) (status : RunStatus) (runInfo : String) : Tracker :=
  let item := Item.run status (some runInfo)
  let s := { s with finishedAt := some s.history.length }
  if s.hasRoom config then { s with queue := s.queue ++ [item] } else { s with spawned := some item }

/-- Takes the whole checkpoint map, in key order. -/
def takePending (s : Tracker) : Tracker :=
  { s with rest := (Table.rows s.pending).map Shed.item, pending := ∅ }

/-- The batch `recv_many` takes. -/
def batch (s : Tracker) : List Item := s.queue.take (max config.batchSize 1)

/-- Applies one write to the store. -/
def applyItem (s : Tracker) (now : ℤ) : Item → Tracker
  | .range ticket record =>
    { s with store := s.store.updateRange record, applied := s.applied ++ [ticket] }
  | .run status info => { s with store := s.store.updateRun status info now }

/-- One move. -/
def step (s : Tracker) : Act → Option Tracker
  | .startRange range now => s.enqueue (.startWrite range now)
  | .finishRange range status runInfo => s.enqueue (.finishWrite range status runInfo)
  | .trySend i =>
    match s.calls[i]? with
    | some ⟨record, .sending⟩ =>
      some (if s.hasRoom config then s.send i record else s.shedCall i record)
    | _ => none
  | .fold i =>
    match s.calls[i]? with
    | some ⟨record, .folding _⟩ => some (s.fold i record)
    | _ => none
  | .finish status runInfo =>
    if s.finishedAt.isNone then some (s.enqueueRun config status runInfo) else none
  | .dropSender => if s.finishedAt.isSome then some { s with sender := false } else none
  | .spawnedSend =>
    match s.spawned with
    | some item =>
      if s.hasRoom config then some { s with queue := s.queue ++ [item], spawned := none } else none
    | none => none
  | .recv =>
    if s.phase = .looping ∧ s.rest = [] ∧ s.queue ≠ [] then
      some { s with rest := s.batch config, queue := s.queue.drop (max config.batchSize 1) }
    else none
  | .tick => if s.phase = .looping ∧ s.rest = [] then some s.takePending else none
  | .drain =>
    -- the channel is closed when no sender is left, clones included
    if s.phase = .looping ∧ s.rest = [] ∧ s.queue = [] ∧ s.sender = false ∧ s.spawned = none ∧
        s.calls.all (!·.holdsSender) then
      some { s.takePending with phase := .draining }
    else none
  | .join =>
    if s.phase = .draining ∧ s.rest = [] then some { s.takePending with phase := .closing }
    else none
  | .done => if s.phase = .closing ∧ s.rest = [] then some { s with phase := .finished } else none
  | .apply now =>
    match s.rest with
    | [] => none
    | item :: rest => some ({ s with rest := rest }.applyItem now item)

/-- The tracked runs under a configuration. -/
def lts : LTS Tracker Act := ⟨step config⟩

end Tracker

end Cdm
