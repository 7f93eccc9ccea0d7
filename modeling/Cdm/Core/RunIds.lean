import Cdm.Core.Domain
import Cdm.Core.Error
import Cdm.LTS.Basic
import Mathlib.Algebra.Order.Ring.Int
import Mathlib.Data.List.Nodup
import Mathlib.Logic.Function.Basic

/-!
# Run ids

The id of a run is a timestamp in microseconds above a counter of 12 bits.  `RunIdGenerator` issues
ids from a single atomic word: a call loads the last id, chooses the greater of its timestamp and
the id behind the last one, and exchanges the word if no other call has in between.

The steps of concurrent calls are interleaved.  An exchange may fail without a reason, and the call
begins again with a load.
-/

namespace Cdm

/-- The number of low bits given over to the collision counter. -/
def runIdCounterBits : Int64 := 12

/-- The largest counter. -/
def runIdCounterMask : Int64 := (1 <<< runIdCounterBits) - 1

namespace RunId

def trackingError (message : String) : CdmError := ⟨.tracking, message, {}⟩

/-- An id from a timestamp and a counter. -/
def fromParts (unixMicros : Int64) (counter : UInt16) : Except CdmError RunId :=
  if unixMicros < 0 then
    .error (trackingError s!"run id timestamp {unixMicros} is before the unix epoch")
  else if runIdCounterMask < Int64.ofNat counter.toNat then
    .error (trackingError
      s!"run id counter {counter} exceeds the {runIdCounterBits}-bit field")
  else
    let shifted := unixMicros <<< runIdCounterBits
    -- the shift drops high bits, so it is undone to see whether any were lost
    if shifted >>> runIdCounterBits = unixMicros ∧ 0 ≤ shifted then
      .ok ⟨shifted ||| Int64.ofNat counter.toNat⟩
    else .error (trackingError s!"run id timestamp {unixMicros} does not fit in 51 bits")

/-- The timestamp component. -/
def unixMicros (id : RunId) : Int64 := id.raw >>> runIdCounterBits

/-- The collision counter. -/
def counter (id : RunId) : UInt16 := ⟨(id.raw &&& runIdCounterMask).toBitVec.setWidth 16⟩

/-! ### The layout -/

theorem toInt_shiftLeft (x : Int64) :
    (x <<< runIdCounterBits).toInt = (x.toInt * 4096).bmod (2 ^ 64) := by
  have hshift : (x <<< runIdCounterBits).toBitVec = x.toBitVec <<< 12 := by
    rw [Int64.toBitVec_shiftLeft]
    rfl
  rw [← Int64.toInt_toBitVec, hshift, BitVec.toInt_shiftLeft, ← Int64.toInt_toBitVec x,
    BitVec.toInt_eq_toNat_bmod x.toBitVec, Int.bmod_mul_bmod, Nat.shiftLeft_eq]
  rfl

theorem toInt_shiftRight (x : Int64) : (x >>> runIdCounterBits).toInt = x.toInt / 4096 := by
  have hshift : (x >>> runIdCounterBits).toBitVec = x.toBitVec.sshiftRight 12 := by
    rw [Int64.toBitVec_shiftRight]
    rfl
  rw [← Int64.toInt_toBitVec, hshift, BitVec.toInt_sshiftRight, Int.shiftRight_eq_div_pow,
    Int64.toInt_toBitVec]
  rfl

/-- A timestamp fits when it has 51 bits. -/
theorem fits_iff {micros : Int64} (h : 0 ≤ micros.toInt) :
    ((micros <<< runIdCounterBits) >>> runIdCounterBits = micros ∧
      0 ≤ micros <<< runIdCounterBits) ↔ micros.toInt < 2 ^ 51 := by
  have hlt := micros.toInt_lt
  rw [← Int64.toInt_inj, toInt_shiftRight, Int64.le_iff_toInt_le, toInt_shiftLeft]
  have hbounds := Int.bmod_lt (x := micros.toInt * 4096) (show 0 < 2 ^ 64 by decide)
  constructor
  · rintro ⟨hdiv, -⟩
    omega
  · intro hsmall
    rw [Int.bmod_eq_of_le (by omega) (by omega)]
    refine ⟨Int.mul_ediv_cancel _ (by decide), ?_⟩
    have hzero : (0 : Int64).toInt = 0 := rfl
    rw [hzero]
    omega

/-- The bits of a timestamp that is not negative. -/
theorem toNat_toBitVec {micros : Int64} (h : 0 ≤ micros.toInt) :
    (micros.toBitVec.toNat : ℤ) = micros.toInt := by
  rw [← Int64.toInt_toBitVec, BitVec.toInt_eq_toNat_cond] at h ⊢
  have hlt := micros.toBitVec.isLt
  split_ifs at h ⊢ with hsmall
  · rfl
  · omega

/-- The low bits of a shifted timestamp are free for the counter. -/
theorem toNat_or {micros : Int64} {counter : ℕ} (h : 0 ≤ micros.toInt)
    (hmax : micros.toInt < 2 ^ 51) (hcounter : counter < 4096) :
    ((micros <<< runIdCounterBits) ||| Int64.ofNat counter).toBitVec.toNat =
      micros.toBitVec.toNat * 4096 + counter := by
  have hnat := toNat_toBitVec h
  have hshift : (micros <<< runIdCounterBits).toBitVec = micros.toBitVec <<< 12 := by
    rw [Int64.toBitVec_shiftLeft]
    rfl
  have hlow : (Int64.ofNat counter).toBitVec.toNat = counter := Nat.mod_eq_of_lt (by omega)
  have hhigh : micros.toBitVec.toNat <<< 12 < 2 ^ 64 := by
    rw [Nat.shiftLeft_eq]
    omega
  rw [Int64.toBitVec_or, BitVec.toNat_or, hshift, BitVec.toNat_shiftLeft, hlow,
    Nat.mod_eq_of_lt hhigh, ← Nat.shiftLeft_add_eq_or_of_lt (by omega), Nat.shiftLeft_eq]

theorem toInt_or {micros : Int64} {counter : ℕ} (h : 0 ≤ micros.toInt)
    (hmax : micros.toInt < 2 ^ 51) (hcounter : counter < 4096) :
    ((micros <<< runIdCounterBits) ||| Int64.ofNat counter).toInt =
      micros.toInt * 4096 + counter := by
  have hnat := toNat_toBitVec h
  have hor := toNat_or h hmax hcounter
  rw [← Int64.toInt_toBitVec, BitVec.toInt_eq_toNat_of_lt (by omega), hor]
  omega

/-- Ids are built from the timestamps of 51 bits and the counters of 12. -/
theorem fromParts_eq_ok {micros : Int64} {counter : UInt16} {id : RunId} :
    fromParts micros counter = .ok id ↔
      (0 ≤ micros.toInt ∧ micros.toInt < 2 ^ 51 ∧ counter.toNat < 4096) ∧
        id = ⟨(micros <<< runIdCounterBits) ||| Int64.ofNat counter.toNat⟩ := by
  have hzero : (0 : Int64).toInt = 0 := rfl
  have hmask : runIdCounterMask.toInt = 4095 := by decide
  have hcounter := counter.toNat_lt
  have hnat : (Int64.ofNat counter.toNat).toInt = counter.toNat :=
    Int64.toInt_ofNat_of_lt (by omega)
  have hnegative : micros < 0 ↔ micros.toInt < 0 := by rw [Int64.lt_iff_toInt_lt, hzero]
  have hgreater : runIdCounterMask < Int64.ofNat counter.toNat ↔ 4096 ≤ counter.toNat := by
    rw [Int64.lt_iff_toInt_lt, hmask, hnat]
    omega
  rw [fromParts]
  dsimp only
  split_ifs with hneg hlarge hfits
  · exact iff_of_false nofun fun h => absurd h.1.1 (not_le.2 (hnegative.1 hneg))
  · exact iff_of_false nofun fun h => absurd h.1.2.2 (not_lt.2 (hgreater.1 hlarge))
  · rw [hnegative, not_lt] at hneg
    rw [hgreater, not_le] at hlarge
    rw [and_iff_right ⟨hneg, (fits_iff hneg).1 hfits, hlarge⟩, Except.ok.injEq]
    exact eq_comm
  · rw [hnegative, not_lt] at hneg
    exact iff_of_false nofun fun h => hfits ((fits_iff hneg).2 h.1.2.1)

/-- The parts of an id are read back. -/
theorem parts_of_fromParts {micros : Int64} {counter : UInt16} {id : RunId}
    (h : fromParts micros counter = .ok id) :
    id.unixMicros = micros ∧ id.counter = counter ∧
      id.raw.toInt = micros.toInt * 4096 + counter.toNat := by
  obtain ⟨⟨hpos, hmax, hcounter⟩, rfl⟩ := fromParts_eq_ok.1 h
  have hraw := toInt_or hpos hmax hcounter
  refine ⟨?_, ?_, hraw⟩
  · rw [unixMicros, ← Int64.toInt_inj, toInt_shiftRight, hraw]
    omega
  · -- the mask keeps the remainder by `4096`, and the cast loses nothing of it
    have hmask : runIdCounterMask.toBitVec.toNat = 2 ^ 12 - 1 := by decide
    have hor := toNat_or hpos hmax hcounter
    have hlow : (RunId.counter
        ⟨(micros <<< runIdCounterBits) ||| Int64.ofNat counter.toNat⟩).toNat =
          (micros.toBitVec.toNat * 4096 + counter.toNat) % 2 ^ 12 % 2 ^ 16 := by
      rw [← hor, ← Nat.and_two_pow_sub_one_eq_mod _ 12, ← hmask]
      exact BitVec.toNat_setWidth _ _
    rw [← UInt16.toNat_inj, hlow]
    omega

end RunId

/-! ### The generator -/

/-- Where a call of `next` is between its steps. -/
inductive NextPoint
  /-- About to load the last id. -/
  | load (floor : Int64)
  /-- About to exchange the id it has loaded. -/
  | exchange (floor last candidate : Int64)
  deriving DecidableEq

/-- A call of `next`.  The ids that had been returned when it began are not in the program. -/
structure NextCall where
  unixMicros : Int64
  before : List RunId
  point : NextPoint
  deriving DecidableEq

/-- A call that has returned an id. -/
structure Issued where
  unixMicros : Int64
  before : List RunId
  id : RunId
  deriving DecidableEq

/-- The generator with the calls of its threads.  The calls that have returned are not in the
program. -/
structure RunIdGenerator (τ : Type*) where
  last : Int64
  call : τ → Option NextCall
  /-- The calls that have returned an id, the last one first. -/
  issued : List Issued

/-- One step of a call. -/
inductive NextStep (τ : Type*)
  /-- The call begins, with the time it is given. -/
  | begin (thread : τ) (unixMicros : Int64)
  | load (thread : τ)
  /-- The exchange; it may fail although the last id is the one that was loaded. -/
  | exchange (thread : τ) (spurious : Bool)
  deriving DecidableEq, Repr

namespace RunIdGenerator

variable {τ : Type*}

def new : RunIdGenerator τ := ⟨0, fun _ => none, []⟩

/-- The ids that have been returned, the last one first. -/
def ids (g : RunIdGenerator τ) : List RunId := g.issued.map Issued.id

/-- The time of a call, or the id behind the last one if that is greater; there is none behind the
last id of the type. -/
def candidate (floor last : Int64) : Option Int64 :=
  if last < floor then some floor
  else if last = Int64.maxValue then none
  else some (last + 1)

variable [DecidableEq τ]

def setCall (g : RunIdGenerator τ) (thread : τ) (call : Option NextCall) : RunIdGenerator τ :=
  { g with call := Function.update g.call thread call }

/-- A time that is out of range ends a call at once, with an error. -/
def begin (g : RunIdGenerator τ) (thread : τ) (unixMicros : Int64) : RunIdGenerator τ :=
  match RunId.fromParts unixMicros 0 with
  | .error _ => g
  | .ok floor => g.setCall thread (some ⟨unixMicros, g.ids, .load floor.raw⟩)

/-- Where the ids are exhausted a load ends the call, with an error. -/
def load (g : RunIdGenerator τ) (thread : τ) (call : NextCall) (floor : Int64) :
    RunIdGenerator τ :=
  g.setCall thread ((candidate floor g.last).map fun candidate =>
    { call with point := .exchange floor g.last candidate })

/-- An exchange that succeeds returns its id, and one that does not leads back to the load. -/
def exchange (g : RunIdGenerator τ) (thread : τ) (call : NextCall)
    (floor last candidate : Int64) (spurious : Bool) : RunIdGenerator τ :=
  if g.last = last ∧ spurious = false then
    { last := candidate
      call := Function.update g.call thread none
      issued := ⟨call.unixMicros, call.before, ⟨candidate⟩⟩ :: g.issued }
  else g.setCall thread (some { call with point := .load floor })

/-- The calls of `next`, interleaved. -/
def calls : LTS (RunIdGenerator τ) (NextStep τ) where
  step g
    | .begin thread unixMicros =>
      match g.call thread with
      | none => some (g.begin thread unixMicros)
      | some _ => none
    | .load thread =>
      match g.call thread with
      | some ⟨unixMicros, before, .load floor⟩ =>
        some (g.load thread ⟨unixMicros, before, .load floor⟩ floor)
      | _ => none
    | .exchange thread spurious =>
      match g.call thread with
      | some ⟨unixMicros, before, .exchange floor last candidate⟩ =>
        some (g.exchange thread ⟨unixMicros, before, .exchange floor last candidate⟩ floor last
          candidate spurious)
      | _ => none

/-! ### The order of the ids -/

/-- The time of a call, and the candidate it is about to exchange for the id it has loaded. -/
def NextPoint.Fits (unixMicros : Int64) : NextPoint → Prop
  | .load floor => unixMicros.toInt * 4096 = floor.toInt
  | .exchange floor last candidate => unixMicros.toInt * 4096 = floor.toInt ∧
      floor.toInt ≤ candidate.toInt ∧ last.toInt < candidate.toInt

/-- The ids are in the order in which they have been returned, up to the last one. -/
structure Ordered (g : RunIdGenerator τ) : Prop where
  sorted : g.ids.Pairwise fun id previous => previous.raw.toInt < id.raw.toInt
  le_last : ∀ id ∈ g.ids, id.raw.toInt ≤ g.last.toInt
  before_le : ∀ thread, ∀ call ∈ g.call thread, ∀ id ∈ call.before, id.raw.toInt ≤ g.last.toInt
  fits : ∀ thread, ∀ call ∈ g.call thread, NextPoint.Fits call.unixMicros call.point
  issued : ∀ call ∈ g.issued, (∀ id ∈ call.before, id.raw.toInt < call.id.raw.toInt) ∧
    call.unixMicros.toInt * 4096 ≤ call.id.raw.toInt

omit [DecidableEq τ] in
theorem Ordered.new : (new : RunIdGenerator τ).Ordered :=
  ⟨List.Pairwise.nil, nofun, nofun, nofun, nofun⟩

omit [DecidableEq τ] in
/-- A candidate is not before the time, and is behind the last id. -/
theorem candidate_eq_some {floor last next : Int64} (h : candidate floor last = some next) :
    floor.toInt ≤ next.toInt ∧ last.toInt < next.toInt := by
  rw [candidate] at h
  split_ifs at h with hlt hmax
  · cases h
    exact ⟨le_rfl, Int64.lt_iff_toInt_lt.1 hlt⟩
  · cases h
    rw [Int64.lt_iff_toInt_lt, not_lt] at hlt
    rw [← Int64.toInt_inj] at hmax
    have hvalue : Int64.maxValue.toInt = 2 ^ 63 - 1 := by decide
    have hlast := last.toInt_lt
    have hleast := last.le_toInt
    have hone : (1 : Int64).toInt = 1 := rfl
    rw [Int64.toInt_add, hone, Int.bmod_eq_of_le (by omega) (by omega)]
    omega

theorem mem_update {f : τ → Option NextCall} {thread other : τ} {value : Option NextCall}
    {call : NextCall} (h : call ∈ Function.update f thread value other) :
    call ∈ value ∨ call ∈ f other := by
  by_cases hother : other = thread
  · subst hother
    rw [Function.update_self] at h
    exact .inl h
  · rw [Function.update_of_ne hother] at h
    exact .inr h

/-- A call that goes on with what is known of it. -/
theorem Ordered.setCall {g : RunIdGenerator τ} (h : g.Ordered) (thread : τ)
    {value : Option NextCall} (hbefore : ∀ call ∈ value, ∀ id ∈ call.before,
      id.raw.toInt ≤ g.last.toInt)
    (hfits : ∀ call ∈ value, NextPoint.Fits call.unixMicros call.point) :
    (g.setCall thread value).Ordered := by
  refine ⟨h.sorted, h.le_last, fun other call hcall => ?_, fun other call hcall => ?_, h.issued⟩
  · rcases mem_update hcall with hcall | hcall
    · exact hbefore call hcall
    · exact h.before_le other call hcall
  · rcases mem_update hcall with hcall | hcall
    · exact hfits call hcall
    · exact h.fits other call hcall

theorem Ordered.begin {g : RunIdGenerator τ} (h : g.Ordered) (thread : τ) (unixMicros : Int64) :
    (g.begin thread unixMicros).Ordered := by
  rw [RunIdGenerator.begin]
  cases hparts : RunId.fromParts unixMicros 0 with
  | error e => exact h
  | ok floor =>
    obtain ⟨-, -, hfloor⟩ := RunId.parts_of_fromParts hparts
    refine h.setCall thread ?_ ?_
    · rintro call ⟨⟩
      exact h.le_last
    · rintro call ⟨⟩
      rw [NextPoint.Fits, hfloor]
      exact (add_zero _).symm

theorem Ordered.load {g : RunIdGenerator τ} (h : g.Ordered) {thread : τ} {call : NextCall}
    {floor : Int64} (hcall : call ∈ g.call thread) (hpoint : call.point = .load floor) :
    (g.load thread call floor).Ordered := by
  have hfloor := h.fits thread call hcall
  rw [hpoint] at hfloor
  refine h.setCall thread ?_ ?_
  · intro next hnext
    obtain ⟨candidate, -, rfl⟩ := Option.map_eq_some_iff.1 hnext
    exact h.before_le thread call hcall
  · intro next hnext
    obtain ⟨candidate, hcandidate, rfl⟩ := Option.map_eq_some_iff.1 hnext
    exact ⟨hfloor, candidate_eq_some hcandidate⟩

theorem Ordered.exchange {g : RunIdGenerator τ} (h : g.Ordered) {thread : τ} {call : NextCall}
    {floor last candidate : Int64} (hcall : call ∈ g.call thread)
    (hpoint : call.point = .exchange floor last candidate) (spurious : Bool) :
    (g.exchange thread call floor last candidate spurious).Ordered := by
  have hbefore := h.before_le thread call hcall
  have hfits := h.fits thread call hcall
  rw [hpoint] at hfits
  obtain ⟨hfloor, hle, hlt⟩ := hfits
  rw [RunIdGenerator.exchange]
  split_ifs with hsuccess
  · -- the word is the one that was loaded, so every id so far is below the candidate
    have hlast : g.last.toInt < candidate.toInt := hsuccess.1 ▸ hlt
    refine ⟨?_, ?_, ?_, ?_, ?_⟩
    · exact List.pairwise_cons.2 ⟨fun id hid => (h.le_last id hid).trans_lt hlast, h.sorted⟩
    · intro id hid
      rcases List.mem_cons.1 hid with rfl | hid
      · exact le_rfl
      · exact (h.le_last id hid).trans hlast.le
    · intro other next hnext id hid
      rcases mem_update hnext with hnext | hnext
      · cases hnext
      · exact (h.before_le other next hnext id hid).trans hlast.le
    · intro other next hnext
      rcases mem_update hnext with hnext | hnext
      · cases hnext
      · exact h.fits other next hnext
    · intro issued hissued
      rcases List.mem_cons.1 hissued with rfl | hissued
      · exact ⟨fun id hid => (hbefore id hid).trans_lt hlast, hfloor.trans_le hle⟩
      · exact h.issued issued hissued
  · -- back to the load, with the same floor
    refine h.setCall thread ?_ ?_
    · rintro next ⟨⟩
      exact hbefore
    · rintro next ⟨⟩
      exact hfloor

theorem Ordered.step {g g' : RunIdGenerator τ} {l : NextStep τ} (h : g.Ordered)
    (hstep : calls.step g l = some g') : g'.Ordered := by
  cases l with
  | begin thread unixMicros =>
    simp only [calls] at hstep
    split at hstep
    · cases hstep
      exact h.begin thread unixMicros
    · cases hstep
  | load thread =>
    simp only [calls] at hstep
    split at hstep
    · rename_i hcall
      cases hstep
      exact h.load hcall rfl
    · cases hstep
  | exchange thread spurious =>
    simp only [calls] at hstep
    split at hstep
    · rename_i hcall
      cases hstep
      exact h.exchange hcall rfl spurious
    · cases hstep

/-- **Run ids.**  In every interleaving of the calls their ids are distinct, each is greater than
every id that had been returned when its call began, and is at least its time; and ids are read back
into their parts, which are those of 51 and of 12 bits. -/
theorem ids_exact {ls : List (NextStep τ)} {g : RunIdGenerator τ}
    (h : calls.exec new ls = some g) :
    g.ids.Nodup ∧
      (∀ call ∈ g.issued, (∀ id ∈ call.before, id.raw.toInt < call.id.raw.toInt) ∧
        call.unixMicros.toInt * 4096 ≤ call.id.raw.toInt) ∧
      ∀ (unixMicros : Int64) (counter : UInt16),
        ((∃ id, RunId.fromParts unixMicros counter = .ok id) ↔
          0 ≤ unixMicros.toInt ∧ unixMicros.toInt < 2 ^ 51 ∧ counter.toNat < 4096) ∧
        ∀ id, RunId.fromParts unixMicros counter = .ok id →
          id.unixMicros = unixMicros ∧ id.counter = counter := by
  have hordered : g.Ordered := LTS.exec_invariant h Ordered.new fun _ _ _ hs hl => hs.step hl
  refine ⟨hordered.sorted.imp fun hlt heq => ?_, hordered.issued,
    fun unixMicros counter => ⟨?_, ?_⟩⟩
  · rw [heq] at hlt
    exact lt_irrefl _ hlt
  · simp only [RunId.fromParts_eq_ok]
    exact ⟨fun ⟨_, h, _⟩ => h, fun h => ⟨_, h, rfl⟩⟩
  · intro id hid
    obtain ⟨hmicros, hcounter, -⟩ := RunId.parts_of_fromParts hid
    exact ⟨hmicros, hcounter⟩

/-- Two calls in the same microsecond, one of which loses the race for the word. -/
def race : List (NextStep (Fin 2)) :=
  [.begin 0 5, .begin 1 5, .load 0, .load 1, .exchange 0 false, .exchange 1 false, .load 1,
    .exchange 1 true, .load 1, .exchange 1 false]

theorem ids_exact_race : ∃ g, calls.exec new race = some g ∧
    g.ids = [⟨20481⟩, ⟨20480⟩] ∧ g.ids.Nodup := by
  have hexec : calls.exec new race = some _ := rfl
  exact ⟨_, hexec, by decide, (ids_exact hexec).1⟩

end RunIdGenerator

end Cdm
