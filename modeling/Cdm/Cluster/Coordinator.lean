import Mathlib.Tactic.Linarith
import Cdm.Core.Error

/-!
# Leases on ranges

The steps of `Coordinator::claim`, `renew` and `release` over the lease rows of one run in
Cassandra.  A time is a number of nanoseconds since the epoch; the store keeps `lease_until` at
millisecond resolution, truncated towards the past, while the node that is granted a lease is told
the expiry at full resolution.
-/

namespace Cdm

/-- What to do with a range whose lease has expired. -/
inductive ReclaimPolicy
  | reclaim
  /-- Never take over a range another node has claimed, as for a counter table. -/
  | refuse
  deriving DecidableEq, Repr

/-- The settings of a coordinator; durations are in nanoseconds. -/
structure CoordinatorSettings where
  leaseDuration : ℕ
  heartbeatInterval : ℕ
  maxAttempts : ℕ
  reclaimPolicy : ReclaimPolicy
  leaseDuration_pos : 0 < leaseDuration
  heartbeatInterval_pos : 0 < heartbeatInterval
  heartbeat_le : 2 * heartbeatInterval ≤ leaseDuration
  maxAttempts_pos : 0 < maxAttempts

/-! ### Time -/

/-- Nanoseconds in a millisecond. -/
def nanosPerMilli : ℤ := 1000000

/-- `DateTime::timestamp_millis`: truncates towards the past. -/
def toCqlTimestamp (t : ℤ) : ℤ := t / nanosPerMilli

/-- `DateTime::from_timestamp_millis`. -/
def fromCqlTimestamp (ms : ℤ) : ℤ := ms * nanosPerMilli

theorem toCqlTimestamp_mono {a b : ℤ} (h : a ≤ b) : toCqlTimestamp a ≤ toCqlTimestamp b :=
  Int.ediv_le_ediv (by decide) h

/-- A time whose millisecond is earlier is earlier. -/
theorem lt_of_toCqlTimestamp_lt {a b : ℤ} (h : toCqlTimestamp a < toCqlTimestamp b) : a < b := by
  by_contra hle
  exact absurd (toCqlTimestamp_mono (not_lt.1 hle)) (not_le.2 h)

/-! ### The lease rows -/

/-- A row of `cdm_run_leases`: its holder, the expiry in milliseconds and the attempt (an `int`). -/
structure LeaseRow where
  nodeId : String
  leaseUntil : ℤ
  attempt : ℤ
  deriving DecidableEq, Repr

/-- A lease row as it is read. -/
structure LeaseRecord where
  tokenMin : ℤ
  nodeId : String
  leaseUntil : ℤ
  attempt : ℕ
  deriving DecidableEq, Repr

/-- What a conditional claim returns: the lease, or the one that stands in its way. -/
inductive LeaseOutcome
  | granted (lease : LeaseRecord)
  | denied (current : LeaseRecord)
  deriving DecidableEq, Repr

/-- What `Coordinator::claim` returns. -/
inductive ClaimOutcome
  | claimed (lease : LeaseRecord)
  | held (node : String) (until_ : ℤ) (attempt : ℕ)
  | exhausted (attempts : ℕ) (node : String)
  | reclaimRefused (node : String) (attempt : ℕ)
  deriving DecidableEq, Repr

/-- The largest value of a CQL `int`. -/
def i32Max : ℕ := 2 ^ 31 - 1

namespace CassandraStore

/-- `decode_lease`; a negative attempt counts as none. -/
def decodeLease (tokenMin : ℤ) (row : LeaseRow) : LeaseRecord :=
  ⟨tokenMin, row.nodeId, fromCqlTimestamp row.leaseUntil, row.attempt.toNat⟩

/-- `claim_range`: the outcome, and the row after the conditional statement.  A claim that saw no
row issues `INSERT … IF NOT EXISTS`, any other `UPDATE … IF lease_until < now`.  The source reads
the row back to report who denied a claim; here it is the row the statement ran against. -/
def claimRange (row : Option LeaseRow) (tokenMin : ℤ) (nodeId : String) (now leaseUntil : ℤ)
    (observed : Option LeaseRecord) : LeaseOutcome × Option LeaseRow :=
  match observed with
  | none =>
    match row with
    | some current => (.denied (decodeLease tokenMin current), row)
    | none =>
      (.granted ⟨tokenMin, nodeId, leaseUntil, 1⟩, some ⟨nodeId, toCqlTimestamp leaseUntil, 1⟩)
  | some hint =>
    if now < hint.leaseUntil then (.denied hint, row)
    else
      let attempt := min (hint.attempt + 1) u32Max
      match row with
      | none => (.denied hint, row)
      | some current =>
        if current.leaseUntil < toCqlTimestamp now then
          (.granted ⟨tokenMin, nodeId, leaseUntil, attempt⟩,
            some ⟨nodeId, toCqlTimestamp leaseUntil, (min attempt i32Max : ℕ)⟩)
        else (.denied (decodeLease tokenMin current), row)

/-- `renew_lease`: whether the lease was this node's, and the row afterwards. -/
def renewLease (row : Option LeaseRow) (nodeId : String) (leaseUntil : ℤ) :
    Bool × Option LeaseRow :=
  match row with
  | some current =>
    if current.nodeId = nodeId then
      (true, some { current with leaseUntil := toCqlTimestamp leaseUntil })
    else (false, row)
  | none => (false, row)

/-- `release_lease`: renewing to the epoch. -/
def releaseLease (row : Option LeaseRow) (nodeId : String) : Bool × Option LeaseRow :=
  renewLease row nodeId 0

section Granted

variable {row row' : Option LeaseRow} {tokenMin now leaseUntil : ℤ} {nodeId : String}
  {observed : Option LeaseRecord} {lease : LeaseRecord}
  (h : claimRange row tokenMin nodeId now leaseUntil observed = (.granted lease, row'))

include h

/-- A claim is granted where there was no row, or a row that had expired at millisecond resolution;
the attempt is the first, or one more than the claim had read. -/
theorem claimRange_cases :
    row' = some ⟨nodeId, toCqlTimestamp leaseUntil, (min lease.attempt i32Max : ℕ)⟩ ∧
      ((row = none ∧ observed = none ∧ lease = ⟨tokenMin, nodeId, leaseUntil, 1⟩) ∨
        ∃ current hint, row = some current ∧ current.leaseUntil < toCqlTimestamp now ∧
          observed = some hint ∧
          lease = ⟨tokenMin, nodeId, leaseUntil, min (hint.attempt + 1) u32Max⟩) := by
  cases observed with
  | none =>
    cases row with
    | none =>
      cases h
      exact ⟨rfl, .inl ⟨rfl, rfl, rfl⟩⟩
    | some current => cases h
  | some hint =>
    simp only [claimRange] at h
    split_ifs at h with hlive
    · cases h
    · cases row with
      | none => cases h
      | some current =>
        by_cases hexp : current.leaseUntil < toCqlTimestamp now
        · simp only [hexp, if_true] at h
          cases h
          exact ⟨rfl, .inr ⟨current, hint, rfl, hexp, rfl, rfl⟩⟩
        · simp [hexp] at h

/-- A granted claim tells the node `leaseUntil` and stores its millisecond. -/
theorem claimRange_granted :
    (∀ current, row = some current → current.leaseUntil < toCqlTimestamp now) ∧
      lease.leaseUntil = leaseUntil ∧
      ∃ new, row' = some new ∧ new.nodeId = nodeId ∧
        new.leaseUntil = toCqlTimestamp leaseUntil := by
  obtain ⟨rfl, ⟨rfl, -, rfl⟩ | ⟨current, hint, rfl, hexp, -, rfl⟩⟩ := claimRange_cases h
  · exact ⟨nofun, rfl, _, rfl, rfl, rfl⟩
  · refine ⟨?_, rfl, _, rfl, rfl, rfl⟩
    rintro c ⟨⟩
    exact hexp

end Granted

/-- A denied claim leaves the row alone. -/
theorem claimRange_denied {row row' : Option LeaseRow} {tokenMin now leaseUntil : ℤ}
    {nodeId : String} {observed : Option LeaseRecord} {current : LeaseRecord}
    (h : claimRange row tokenMin nodeId now leaseUntil observed = (.denied current, row')) :
    row' = row := by
  cases observed with
  | none =>
    cases row <;> cases h
    rfl
  | some hint =>
    simp only [claimRange] at h
    split_ifs at h with hlive
    · cases h
      rfl
    · cases row with
      | none =>
        cases h
        rfl
      | some current =>
        by_cases hexp : current.leaseUntil < toCqlTimestamp now
        · simp [hexp] at h
        · simp only [hexp, if_false] at h
          cases h
          rfl

/-- A renewal changes the row only when it is this node's, and then only its expiry. -/
theorem renewLease_cases (row : Option LeaseRow) (nodeId : String) (leaseUntil : ℤ) :
    (∃ current, row = some current ∧ current.nodeId = nodeId ∧
      renewLease row nodeId leaseUntil =
        (true, some { current with leaseUntil := toCqlTimestamp leaseUntil })) ∨
    ((∀ current, row = some current → current.nodeId ≠ nodeId) ∧
      renewLease row nodeId leaseUntil = (false, row)) := by
  cases row with
  | none => exact .inr ⟨nofun, rfl⟩
  | some current =>
    by_cases hn : current.nodeId = nodeId
    · exact .inl ⟨current, rfl, hn, by simp [renewLease, hn]⟩
    · refine .inr ⟨?_, by simp [renewLease, hn]⟩
      intro c hc
      cases hc
      exact hn

end CassandraStore

namespace Coordinator

/-- What a claim sampled at `now` concludes from the row it has read; `none` means that it goes on
to the conditional write. -/
def afterRead (settings : CoordinatorSettings) (now : ℤ) (observed : Option LeaseRecord) :
    Option ClaimOutcome :=
  match observed with
  | none => none
  | some current =>
    if now < current.leaseUntil then
      some (.held current.nodeId current.leaseUntil current.attempt)
    else if settings.maxAttempts ≤ current.attempt then
      some (.exhausted current.attempt current.nodeId)
    else if settings.reclaimPolicy = .refuse then
      some (.reclaimRefused current.nodeId current.attempt)
    else none

end Coordinator

/-- A granted lease, as the node that was granted it keeps it. -/
structure Lease where
  range : TokenRange
  node : String
  expiresAt : ℤ
  attempt : ℕ
  deriving DecidableEq

/-- The same lease, running until `expiresAt`. -/
def Lease.renewedUntil (lease : Lease) (expiresAt : ℤ) : Lease := { lease with expiresAt }

namespace Coordinator

/-- `renew`, by the node `node` at `now`, against the lease row of the range: the extended lease, or
`none` when the lease is gone, and the row afterwards. -/
def renew (settings : CoordinatorSettings) (node : String) (now : ℤ) (row : Option LeaseRow)
    (lease : Lease) : Option Lease × Option LeaseRow :=
  let expiresAt := now + settings.leaseDuration
  let renewed := CassandraStore.renewLease row node expiresAt
  (if renewed.1 then some (lease.renewedUntil expiresAt) else none, renewed.2)

/-- `release`: the row afterwards.  Releasing a lease that was already lost is no error. -/
def release (node : String) (row : Option LeaseRow) : Option LeaseRow :=
  (CassandraStore.releaseLease row node).2

end Coordinator

end Cdm
