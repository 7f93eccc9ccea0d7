import Cdm.Cluster.Fleet
import Cdm.LTS.Machine

/-!
# The in-memory lease store and the one in Cassandra

The leases of one run, as the in-memory store and as the Cassandra store keep them, and the calls
the two answer.  The in-memory store keeps the expiry at full resolution and the attempt as a `u32`;
it refuses a claim on a run that it does not know.  The Cassandra store keeps milliseconds and an
`int`.  A reclaim is judged by the in-memory store by the lease it has, which must not end after
`now`; the Cassandra store asks in addition that the lease the caller had read does not end after
`now`, and wants its own lease to end in an earlier millisecond.
-/

namespace Cdm

/-- A call of the lease store. -/
inductive LeaseCall
  | claimRange (range : TokenRange) (nodeId : String) (now leaseUntil : ℤ)
      (observed : Option LeaseRecord)
  | renewLease (range : TokenRange) (nodeId : String) (leaseUntil : ℤ)
  | releaseLease (range : TokenRange) (nodeId : String)
  | lease (range : TokenRange)

/-- What is compared of a reply: its kind, the holder and the attempt. -/
inductive LeaseReply
  | outcome (granted : Bool) (holder : String) (attempt : ℕ)
  | renewed (held : Bool)
  | lease (current : Option (String × ℕ))
  | error
  deriving DecidableEq, Repr

namespace LeaseReply

def ofOutcome : LeaseOutcome → LeaseReply
  | .granted record => .outcome true record.nodeId record.attempt
  | .denied record => .outcome false record.nodeId record.attempt

theorem ofOutcome_ne_error (outcome : LeaseOutcome) : ofOutcome outcome ≠ .error := by
  cases outcome <;> nofun

def ofLease (current : Option LeaseRecord) : LeaseReply :=
  .lease (current.map fun record => (record.nodeId, record.attempt))

end LeaseReply

/-! ### In memory -/

namespace MemoryStore

/-- `claim_range`, against the lease of the range: the outcome, and the lease afterwards. -/
def claimRange (row : Option LeaseRecord) (tokenMin : ℤ) (nodeId : String) (now leaseUntil : ℤ)
    (observed : Option LeaseRecord) : LeaseOutcome × Option LeaseRecord :=
  let grant (attempt : ℕ) : LeaseOutcome × Option LeaseRecord :=
    (.granted ⟨tokenMin, nodeId, leaseUntil, attempt⟩, some ⟨tokenMin, nodeId, leaseUntil, attempt⟩)
  match row, observed with
  | some current, none => (.denied current, row)
  | some current, some hint =>
    if now < current.leaseUntil then (.denied current, row)
    else grant (min (hint.attempt + 1) u32Max)
  -- the row has been deleted since
  | none, some hint => (.denied hint, row)
  | none, none => grant 1

/-- `renew_lease`: whether the lease was this node's, and the lease afterwards. -/
def renewLease (row : Option LeaseRecord) (nodeId : String) (leaseUntil : ℤ) :
    Bool × Option LeaseRecord :=
  match row with
  | some current =>
    if current.nodeId = nodeId then (true, some { current with leaseUntil }) else (false, row)
  | none => (false, row)

/-- The leases of a run by `token_min`, if the run exists. -/
abbrev Leases := Option (ℤ → Option LeaseRecord)

def leaseOf (s : Leases) (r : ℤ) : Option LeaseRecord := s.bind fun rows => rows r

/-- Renews the lease of a range; a run that does not exist has none. -/
def renewAt (s : Leases) (range : TokenRange) (nodeId : String) (leaseUntil : ℤ) :
    Leases × LeaseReply :=
  if Fleet.fitsBigint range.min then
    let renewed := renewLease (leaseOf s range.min) nodeId leaseUntil
    (s.map fun rows => Function.update rows range.min renewed.2, .renewed renewed.1)
  else (s, .error)

/-- One call. -/
def step (s : Leases) : LeaseCall → Leases × LeaseReply
  | .claimRange range nodeId now leaseUntil observed =>
    if Fleet.fitsBigint range.min then
      match s with
      | none => (s, .error)
      | some rows =>
        let claimed := claimRange (rows range.min) range.min nodeId now leaseUntil observed
        (some (Function.update rows range.min claimed.2), .ofOutcome claimed.1)
    else (s, .error)
  | .renewLease range nodeId leaseUntil => renewAt s range nodeId leaseUntil
  | .releaseLease range nodeId => renewAt s range nodeId 0
  | .lease range =>
    if Fleet.fitsBigint range.min then (s, .ofLease (leaseOf s range.min)) else (s, .error)

/-- The in-memory store. -/
def leases : Machine Leases LeaseCall LeaseReply := ⟨step⟩

/-- A run without leases, or no run at all. -/
def initial (created : Bool) : Leases := if created then some fun _ => none else none

end MemoryStore

/-! ### In Cassandra -/

namespace CassandraStore

/-- The lease rows of a run by `token_min`. -/
abbrev Leases := ℤ → Option LeaseRow

def leaseOf (s : Leases) (r : ℤ) : Option LeaseRecord := (s r).map (decodeLease r)

def renewAt (s : Leases) (range : TokenRange) (nodeId : String) (leaseUntil : ℤ) :
    Leases × LeaseReply :=
  if Fleet.fitsBigint range.min then
    let renewed := renewLease (s range.min) nodeId leaseUntil
    (Function.update s range.min renewed.2, .renewed renewed.1)
  else (s, .error)

/-- One call. -/
def step (s : Leases) : LeaseCall → Leases × LeaseReply
  | .claimRange range nodeId now leaseUntil observed =>
    if Fleet.fitsBigint range.min then
      let claimed := claimRange (s range.min) range.min nodeId now leaseUntil observed
      (Function.update s range.min claimed.2, .ofOutcome claimed.1)
    else (s, .error)
  | .renewLease range nodeId leaseUntil => renewAt s range nodeId leaseUntil
  | .releaseLease range nodeId => renewAt s range nodeId 0
  | .lease range =>
    if Fleet.fitsBigint range.min then (s, .ofLease (leaseOf s range.min)) else (s, .error)

/-- The Cassandra store. -/
def leases : Machine Leases LeaseCall LeaseReply := ⟨step⟩

end CassandraStore

/-! ### Faithful answers -/

namespace MemoryStore

/-- The attempt can be read back from an `int` column. -/
def Countable (row : Option LeaseRecord) : Prop := ∀ current ∈ row, current.attempt ≤ i32Max

/-- A reclaim, by a caller that had read `hint`, is answered faithfully.  While the hint has not
expired the lease must not have either, and be the hint's; and once both have expired the lease must
have done so in an earlier millisecond. -/
def FaithfulReclaim (row : Option LeaseRecord) (now : ℤ) (hint : LeaseRecord) : Prop :=
  ∀ current ∈ row,
    if now < hint.leaseUntil then
      now < current.leaseUntil ∧ current.nodeId = hint.nodeId ∧ current.attempt = hint.attempt
    else if now < current.leaseUntil then current.attempt ≤ i32Max
    else toCqlTimestamp current.leaseUntil < toCqlTimestamp now

/-- A call is answered as the Cassandra store answers it. -/
def Faithful (s : Leases) : LeaseCall → Prop
  | .claimRange range _ now _ observed =>
    Fleet.fitsBigint range.min = true → s.isSome = true ∧
      match observed with
      | none => Countable (leaseOf s range.min)
      | some hint => FaithfulReclaim (leaseOf s range.min) now hint
  | .lease range => Fleet.fitsBigint range.min = true → Countable (leaseOf s range.min)
  | .renewLease _ _ _ | .releaseLease _ _ => True

/-- The row that stands for a lease in Cassandra. -/
def toRow (record : LeaseRecord) : LeaseRow :=
  ⟨record.nodeId, toCqlTimestamp record.leaseUntil, (min record.attempt i32Max : ℕ)⟩

/-- The two stores hold the same leases. -/
def Mirrors (s : Leases) (t : CassandraStore.Leases) : Prop :=
  ∀ r, t r = (leaseOf s r).map toRow

theorem Mirrors.update {s : Leases} {t : CassandraStore.Leases} (h : Mirrors s t) (r : ℤ)
    (hs : s.isSome = true) (row : Option LeaseRecord) :
    Mirrors (s.map fun rows => Function.update rows r row)
      (Function.update t r (row.map toRow)) := by
  obtain ⟨rows, rfl⟩ := Option.isSome_iff_exists.1 hs
  intro r'
  by_cases hr : r' = r
  · subst hr
    simp [leaseOf]
  · simpa [leaseOf, hr] using h r'

/-- A lease of an earlier millisecond had expired. -/
theorem not_lt_of_toCqlTimestamp {a b : ℤ} (h : toCqlTimestamp a < toCqlTimestamp b) : ¬b < a :=
  fun hlt => absurd (lt_of_toCqlTimestamp_lt h) (not_lt.2 hlt.le)

/-- The two stores answer a claim alike exactly when it is answered faithfully, and then they hold
the same lease afterwards. -/
theorem claimRange_agrees (row : Option LeaseRecord) (r : ℤ) (nodeId : String) (now leaseUntil : ℤ)
    (observed : Option LeaseRecord) :
    (LeaseReply.ofOutcome (claimRange row r nodeId now leaseUntil observed).1 =
        .ofOutcome (CassandraStore.claimRange (row.map toRow) r nodeId now leaseUntil observed).1 ↔
      match observed with
      | none => Countable row
      | some hint => FaithfulReclaim row now hint) ∧
    ((match observed with
      | none => Countable row
      | some hint => FaithfulReclaim row now hint) →
      (CassandraStore.claimRange (row.map toRow) r nodeId now leaseUntil observed).2 =
        (claimRange row r nodeId now leaseUntil observed).2.map toRow) := by
  cases row with
  | none =>
    cases observed with
    | none => simp [claimRange, CassandraStore.claimRange, Countable, toRow, LeaseReply.ofOutcome, i32Max]
    | some hint =>
      by_cases hlive : now < hint.leaseUntil
      · simp [claimRange, CassandraStore.claimRange, FaithfulReclaim, hlive]
      · simp [claimRange, CassandraStore.claimRange, FaithfulReclaim, hlive]
  | some current =>
    cases observed with
    | none =>
      simp [claimRange, CassandraStore.claimRange, Countable, LeaseReply.ofOutcome,
        CassandraStore.decodeLease, toRow]
      omega
    | some hint =>
      by_cases hlive : now < hint.leaseUntil
      · by_cases hcurrent : now < current.leaseUntil
        · simp [claimRange, CassandraStore.claimRange, FaithfulReclaim, LeaseReply.ofOutcome, hlive,
            hcurrent]
        · simp [claimRange, CassandraStore.claimRange, FaithfulReclaim, LeaseReply.ofOutcome, hlive,
            hcurrent]
      · by_cases hexpired : toCqlTimestamp current.leaseUntil < toCqlTimestamp now
        · have hcurrent := not_lt_of_toCqlTimestamp hexpired
          simp [claimRange, CassandraStore.claimRange, FaithfulReclaim, LeaseReply.ofOutcome, hlive,
            hcurrent, hexpired, toRow]
        · by_cases hcurrent : now < current.leaseUntil
          · simp [claimRange, CassandraStore.claimRange, FaithfulReclaim, LeaseReply.ofOutcome,
              CassandraStore.decodeLease, hlive, hcurrent, hexpired, toRow]
            omega
          · simp [claimRange, CassandraStore.claimRange, FaithfulReclaim, LeaseReply.ofOutcome, hlive,
              hcurrent, hexpired, toRow]

/-- A renewal is answered alike, and keeps the leases the same. -/
theorem renewLease_agrees (row : Option LeaseRecord) (nodeId : String) (leaseUntil : ℤ) :
    CassandraStore.renewLease (row.map toRow) nodeId leaseUntil =
      ((renewLease row nodeId leaseUntil).1, (renewLease row nodeId leaseUntil).2.map toRow) := by
  cases row with
  | none => rfl
  | some current =>
    by_cases hnode : current.nodeId = nodeId
    · simp [renewLease, CassandraStore.renewLease, toRow, hnode]
    · simp [renewLease, CassandraStore.renewLease, toRow, hnode]

theorem renewAt_agrees {s : Leases} {t : CassandraStore.Leases} (h : Mirrors s t)
    (range : TokenRange) (nodeId : String) (leaseUntil : ℤ) :
    (renewAt s range nodeId leaseUntil).2 = (CassandraStore.renewAt t range nodeId leaseUntil).2 ∧
      Mirrors (renewAt s range nodeId leaseUntil).1
        (CassandraStore.renewAt t range nodeId leaseUntil).1 := by
  rw [renewAt, CassandraStore.renewAt]
  split_ifs
  · rw [h range.min, renewLease_agrees]
    refine ⟨rfl, ?_⟩
    by_cases hs : s.isSome = true
    · exact h.update range.min hs _
    · rw [Option.not_isSome_iff_eq_none] at hs
      subst hs
      have ht : t = fun _ => none := funext fun r => h r
      subst ht
      intro r
      simp [leaseOf, renewLease]
  · exact ⟨rfl, h⟩

/-- What is read of a lease is the same as long as the attempt can be read back. -/
theorem ofLease_agrees {s : Leases} {t : CassandraStore.Leases} (h : Mirrors s t) (r : ℤ) :
    LeaseReply.ofLease (leaseOf s r) = .ofLease (CassandraStore.leaseOf t r) ↔
      Countable (leaseOf s r) := by
  rw [CassandraStore.leaseOf, h r]
  cases leaseOf s r with
  | none => simp [LeaseReply.ofLease, Countable]
  | some current =>
    simp [LeaseReply.ofLease, Countable, toRow, CassandraStore.decodeLease]
    omega

theorem step_reply {s : Leases} {t : CassandraStore.Leases} (h : Mirrors s t) (call : LeaseCall) :
    (leases.step s call).2 = (CassandraStore.leases.step t call).2 ↔ Faithful s call := by
  cases call with
  | claimRange range nodeId now leaseUntil observed =>
    by_cases hfits : Fleet.fitsBigint range.min = true
    · cases s with
      | none =>
        simp only [leases, step, CassandraStore.leases, CassandraStore.step, hfits, if_true, Faithful,
          Option.isSome_none, Bool.false_eq_true, false_and, imp_false, not_true_eq_false, iff_false]
        exact (LeaseReply.ofOutcome_ne_error _).symm
      | some rows =>
        have hrow := (claimRange_agrees (rows range.min) range.min nodeId now leaseUntil observed).1
        have ht : t range.min = (rows range.min).map toRow := h range.min
        simp only [leases, step, CassandraStore.leases, CassandraStore.step, hfits, if_true, Faithful,
          Option.isSome_some, true_and, forall_const, ht]
        exact hrow
    · simp [leases, step, CassandraStore.leases, CassandraStore.step, hfits, Faithful]
  | renewLease range nodeId leaseUntil =>
    exact iff_of_true (renewAt_agrees h range nodeId leaseUntil).1 trivial
  | releaseLease range nodeId => exact iff_of_true (renewAt_agrees h range nodeId 0).1 trivial
  | lease range =>
    by_cases hfits : Fleet.fitsBigint range.min = true
    · simp only [leases, step, CassandraStore.leases, CassandraStore.step, hfits, if_true, Faithful,
        forall_const]
      exact ofLease_agrees h range.min
    · simp [leases, step, CassandraStore.leases, CassandraStore.step, hfits, Faithful]

theorem step_mirrors {s : Leases} {t : CassandraStore.Leases} (h : Mirrors s t) {call : LeaseCall}
    (hfaithful : Faithful s call) :
    Mirrors (leases.step s call).1 (CassandraStore.leases.step t call).1 := by
  cases call with
  | claimRange range nodeId now leaseUntil observed =>
    by_cases hfits : Fleet.fitsBigint range.min = true
    · obtain ⟨hsome, hclaim⟩ := hfaithful hfits
      obtain ⟨rows, rfl⟩ := Option.isSome_iff_exists.1 hsome
      have hrow := (claimRange_agrees (rows range.min) range.min nodeId now leaseUntil observed).2
        hclaim
      have ht : t range.min = (rows range.min).map toRow := h range.min
      simp only [leases, step, CassandraStore.leases, CassandraStore.step, hfits, if_true, ht, hrow]
      exact h.update range.min rfl _
    · simpa [leases, step, CassandraStore.leases, CassandraStore.step, hfits] using h
  | renewLease range nodeId leaseUntil => exact (renewAt_agrees h range nodeId leaseUntil).2
  | releaseLease range nodeId => exact (renewAt_agrees h range nodeId 0).2
  | lease range =>
    simp only [leases, step, CassandraStore.leases, CassandraStore.step]
    split_ifs
    · exact h
    · exact h

end MemoryStore

open MemoryStore in
/-- **When the in-memory store is a faithful model.**  For every sequence of calls on a run without
leases, the two stores give replies of the same kind, holder and attempt throughout exactly when
every call of the sequence is answered faithfully. -/
theorem lease_stores_agree_iff (created : Bool) (calls : List LeaseCall) :
    leases.replies (initial created) calls =
        CassandraStore.leases.replies (fun _ => none) calls ↔
      leases.Along Faithful (initial created) calls := by
  refine Machine.replies_eq_iff (fun s t call h => step_reply h call)
    (fun s t call h => step_mirrors h) ?_ calls
  intro r
  cases created with
  | false => rfl
  | true => rfl

namespace MemoryStore

def sampleRange : TokenRange := ⟨1, 10, by decide, by decide, by decide⟩

/-- Node `a` claims a range for a minute, and node `b`, which has read that, claims it at the very
nanosecond the lease ends. -/
def expiringCalls : List LeaseCall :=
  [.claimRange sampleRange "a" 0 60000000000 none,
    .claimRange sampleRange "b" 60000000000 120000000000 (some ⟨1, "a", 60000000000, 1⟩)]

/-- The in-memory store grants the second claim, the Cassandra store does not. -/
theorem lease_stores_disagree :
    leases.replies (initial true) expiringCalls = [.outcome true "a" 1, .outcome true "b" 2] ∧
      CassandraStore.leases.replies (fun _ => none) expiringCalls =
        [.outcome true "a" 1, .outcome false "a" 1] ∧
      leases.replies (initial true) expiringCalls ≠
        CassandraStore.leases.replies (fun _ => none) expiringCalls := by
  decide

end MemoryStore

end Cdm
