import Cdm.Cluster.Coordinator
import Cdm.LTS.Basic

/-!
# A fleet of nodes sharing the lease rows of a run

Nodes are identified by their node ids and read one clock.  A claim is three steps (sample the
clock, read the lease row, issue one conditional write), and any number of claims, by any nodes on
any ranges, may be in flight at once; a renewal and a release are one conditional write each.

`Fleet.told n r` is a ghost: the expiries, at full resolution, that node `n` was told for the range
with lower bound `r` since it last released it.
-/

namespace Cdm

open CassandraStore Function

/-- A claim in flight: who claims what, the time it sampled, and what it has read, if it has. -/
structure Claim where
  node : String
  range : TokenRange
  now : ℤ
  observed : Option (Option LeaseRecord)
  deriving DecidableEq

/-- The clock, the lease rows by `token_min`, the claims in flight, and what nodes were told. -/
structure Fleet where
  now : ℤ
  rows : ℤ → Option LeaseRow
  claims : ℕ → Option Claim
  told : String → ℤ → List ℤ

namespace Fleet

/-- The moves of a fleet. -/
inductive Act
  /-- Time passes. -/
  | tick (nanos : ℕ)
  /-- A claim starts: the node samples the clock. -/
  | sample (id : ℕ) (node : String) (range : TokenRange)
  /-- A claim reads the lease row, and stops there if the row is live, exhausted or not to be
  reclaimed. -/
  | read (id : ℕ)
  /-- A claim issues its conditional write. -/
  | write (id : ℕ)
  /-- A node renews a lease. -/
  | renew (node : String) (range : TokenRange)
  /-- A node releases a lease. -/
  | release (node : String) (range : TokenRange)

/-- Nobody has claimed anything. -/
def init (now : ℤ) : Fleet := ⟨now, fun _ => none, fun _ => none, fun _ _ => []⟩

/-- `token_bound`: whether a token fits in a `bigint` column. -/
def fitsBigint (token : ℤ) : Bool := -2 ^ 63 ≤ token && token < 2 ^ 63

def setRow (s : Fleet) (r : ℤ) (row : Option LeaseRow) : Fleet :=
  { s with rows := Function.update s.rows r row }

def setClaim (s : Fleet) (id : ℕ) (claim : Option Claim) : Fleet :=
  { s with claims := Function.update s.claims id claim }

def setTold (s : Fleet) (n : String) (r : ℤ) (told : List ℤ) : Fleet :=
  { s with told := Function.update s.told n (Function.update (s.told n) r told) }

/-- Node `n` is told a new expiry. -/
def tell (s : Fleet) (n : String) (r expiry : ℤ) : Fleet := s.setTold n r (expiry :: s.told n r)

variable (settings : String → CoordinatorSettings)

/-- The conditional write of a claim that has read `observed`. -/
def claimWrite (s : Fleet) (node : String) (range : TokenRange) (now : ℤ)
    (observed : Option LeaseRecord) : LeaseOutcome × Option LeaseRow :=
  claimRange (s.rows range.min) range.min node now
    (now + (settings node).leaseDuration) observed

/-- One move of the fleet. -/
def step (s : Fleet) : Act → Option Fleet
  | .tick nanos => some { s with now := s.now + nanos }
  | .sample id node range =>
    match s.claims id with
    | some _ => none
    | none =>
      -- a token that does not fit is an error before anything is read
      if fitsBigint range.min then some (s.setClaim id (some ⟨node, range, s.now, none⟩)) else none
  | .read id =>
    match s.claims id with
    | some ⟨node, range, now, none⟩ =>
      let observed := (s.rows range.min).map (decodeLease range.min)
      match Coordinator.afterRead (settings node) now observed with
      | some _ => some (s.setClaim id none)
      | none => some (s.setClaim id (some ⟨node, range, now, some observed⟩))
    | _ => none
  | .write id =>
    match s.claims id with
    | some ⟨node, range, now, some observed⟩ =>
      let written := s.claimWrite settings node range now observed
      let s := (s.setClaim id none).setRow range.min written.2
      match written.1 with
      | .granted lease => some (s.tell node range.min lease.leaseUntil)
      | .denied _ => some s
    | _ => none
  | .renew node range =>
    let expiresAt := s.now + (settings node).leaseDuration
    let renewed := renewLease (s.rows range.min) node expiresAt
    let s := s.setRow range.min renewed.2
    some (if renewed.1 then s.tell node range.min expiresAt else s)
  | .release node range =>
    let released := releaseLease (s.rows range.min) node
    some ((s.setRow range.min released.2).setTold node range.min [])

/-- The fleet whose node `n` runs with `settings n`. -/
def lts : LTS Fleet Act := ⟨step settings⟩

/-- The claim `id`, by `node` on `range`, is about to be granted. -/
def Grants (s : Fleet) (id : ℕ) (node : String) (range : TokenRange) : Prop :=
  ∃ now observed lease, s.claims id = some ⟨node, range, now, some observed⟩ ∧
    (s.claimWrite settings node range now observed).1 = .granted lease

/-! ### The invariant -/

/-- What every reachable state of the fleet satisfies. -/
structure Inv (s : Fleet) : Prop where
  /-- A claim in flight sampled the clock in the past. -/
  sampled : ∀ id claim, s.claims id = some claim → claim.now ≤ s.now
  /-- Nobody was told more than a lease duration from now. -/
  bounded : ∀ n r E, E ∈ s.told n r → E ≤ s.now + (settings n).leaseDuration
  /-- An expiry a node was told is past, or the row is the node's and is good until then. -/
  held : ∀ n r E, E ∈ s.told n r →
    E < s.now ∨ ∃ row, s.rows r = some row ∧ row.nodeId = n ∧ toCqlTimestamp E ≤ row.leaseUntil

variable {settings} {s : Fleet}

theorem setClaim_inv (hi : Inv settings s) {id : ℕ} {claim : Option Claim}
    (h : ∀ c, claim = some c → c.now ≤ s.now) : Inv settings (s.setClaim id claim) := by
  refine ⟨?_, hi.bounded, hi.held⟩
  intro id' c hc
  simp only [setClaim, update_apply] at hc
  split_ifs at hc
  · exact h c hc
  · exact hi.sampled id' c hc

theorem mem_told_tell {n m : String} {r r' expiry E : ℤ} :
    E ∈ (s.tell n r expiry).told m r' ↔ (m = n ∧ r' = r ∧ E = expiry) ∨ E ∈ s.told m r' := by
  by_cases hm : m = n
  · subst hm
    by_cases hr : r' = r
    · subst hr
      simp [tell, setTold]
    · simp [tell, setTold, hr]
  · simp [tell, setTold, hm]

@[simp] theorem setRow_self (s : Fleet) (r : ℤ) : s.setRow r (s.rows r) = s := by
  simp [setRow]

/-- The holder of a row changes, or extends its lease, and is told the new expiry: this is fine as
long as what anybody was told before is past, or was told to the same node and is no later. -/
theorem tell_inv (hi : Inv settings s) {n : String} {r expiry : ℤ} {new : LeaseRow}
    (hn : new.nodeId = n) (hu : new.leaseUntil = toCqlTimestamp expiry)
    (hb : expiry ≤ s.now + (settings n).leaseDuration)
    (hold : ∀ m E, E ∈ s.told m r →
      E < s.now ∨ m = n ∧ toCqlTimestamp E ≤ toCqlTimestamp expiry) :
    Inv settings ((s.setRow r (some new)).tell n r expiry) := by
  refine ⟨hi.sampled, ?_, ?_⟩
  · intro m r' E hE
    rcases mem_told_tell.1 hE with ⟨rfl, rfl, rfl⟩ | hE
    · exact hb
    · exact hi.bounded m r' E hE
  · intro m r' E hE
    change E < s.now ∨ ∃ row, Function.update s.rows r (some new) r' = some row ∧ _
    rcases mem_told_tell.1 hE with ⟨rfl, rfl, rfl⟩ | hE'
    · exact .inr ⟨new, by simp, hn, hu.ge⟩
    · change E ∈ s.told m r' at hE'
      by_cases hr : r' = r
      · subst hr
        rcases hold m E hE' with hpast | ⟨rfl, hle⟩
        · exact .inl hpast
        · exact .inr ⟨new, by simp, hn, hu ▸ hle⟩
      · rcases hi.held m r' E hE' with hpast | ⟨row, hrow, hnode, hle⟩
        · exact .inl hpast
        · exact .inr ⟨row, by simpa [hr] using hrow, hnode, hle⟩

theorem claimWrite_granted {node : String} {range : TokenRange} {now : ℤ}
    {observed : Option LeaseRecord} {lease : LeaseRecord}
    (hg : (s.claimWrite settings node range now observed).1 = .granted lease) :
    (∀ row, s.rows range.min = some row → row.leaseUntil < toCqlTimestamp now) ∧
      lease.leaseUntil = now + (settings node).leaseDuration ∧
      ∃ new, (s.claimWrite settings node range now observed).2 = some new ∧ new.nodeId = node ∧
        new.leaseUntil = toCqlTimestamp (now + (settings node).leaseDuration) :=
  claimRange_granted (Prod.ext hg rfl)

theorem claimWrite_denied {node : String} {range : TokenRange} {now : ℤ}
    {observed : Option LeaseRecord} {current : LeaseRecord}
    (hg : (s.claimWrite settings node range now observed).1 = .denied current) :
    (s.claimWrite settings node range now observed).2 = s.rows range.min :=
  claimRange_denied (Prod.ext hg rfl)

/-- A claim is granted only once every expiry that anybody was told for the range is past. -/
theorem told_of_granted (hi : Inv settings s) {node : String} {range : TokenRange} {now : ℤ}
    {observed : Option LeaseRecord} {lease : LeaseRecord} (hnow : now ≤ s.now)
    (hg : (s.claimWrite settings node range now observed).1 = .granted lease) {m : String} {E : ℤ}
    (hE : E ∈ s.told m range.min) : E < s.now := by
  obtain ⟨hrow, -⟩ := claimWrite_granted hg
  rcases hi.held m range.min E hE with hpast | ⟨row, hr, -, hle⟩
  · exact hpast
  · -- the row had expired when the claim sampled the clock
    have hexp : toCqlTimestamp E < toCqlTimestamp now := lt_of_le_of_lt hle (hrow row hr)
    exact (lt_of_toCqlTimestamp_lt hexp).trans_le hnow

theorem step_inv {s' : Fleet} {act : Act} (hi : Inv settings s)
    (h : step settings s act = some s') : Inv settings s' := by
  cases act with
  | tick nanos =>
    cases h
    refine ⟨?_, ?_, ?_⟩
    · intro id claim hc
      have := hi.sampled id claim hc
      change claim.now ≤ s.now + nanos
      omega
    · intro n r E hE
      have := hi.bounded n r E hE
      change E ≤ s.now + nanos + _
      omega
    · intro n r E hE
      rcases hi.held n r E hE with hpast | hrow
      · left
        change E < s.now + nanos
        omega
      · exact .inr hrow
  | sample id node range =>
    simp only [step] at h
    split at h
    · cases h
    · split_ifs at h
      cases h
      refine setClaim_inv hi ?_
      rintro c ⟨⟩
      exact le_rfl
  | read id =>
    simp only [step] at h
    split at h
    · rename_i node range now hc
      have hnow := hi.sampled _ _ hc
      split at h
      · cases h
        exact setClaim_inv hi fun _ h => by cases h
      · cases h
        refine setClaim_inv hi ?_
        rintro c ⟨⟩
        exact hnow
    · cases h
  | write id =>
    simp only [step] at h
    split at h
    · rename_i node range now observed hc
      have hnow := hi.sampled _ _ hc
      have hi' : Inv settings (s.setClaim id none) := setClaim_inv hi fun _ h => by cases h
      split at h
      · rename_i lease hg
        cases h
        obtain ⟨-, hlease, new, hnew, hnode, huntil⟩ := claimWrite_granted hg
        rw [hnew, hlease]
        refine tell_inv hi' hnode huntil ?_ fun m E hE => .inl (told_of_granted hi hnow hg hE)
        exact Int.add_le_add_right hnow _
      · rename_i current hg
        cases h
        rw [claimWrite_denied hg]
        exact (setRow_self (s.setClaim id none) range.min).symm ▸ hi'
    · cases h
  | renew node range =>
    cases h
    rcases renewLease_cases (s.rows range.min) node
      (s.now + (settings node).leaseDuration) with ⟨row, hrow, hnode, heq⟩ | ⟨-, heq⟩
    · simp only [heq, if_true]
      refine tell_inv hi hnode rfl le_rfl ?_
      intro m E hE
      rcases hi.held m range.min E hE with hpast | ⟨row', hrow', hm, -⟩
      · exact .inl hpast
      · rw [hrow] at hrow'
        cases hrow'
        obtain rfl : m = node := hm.symm.trans hnode
        exact .inr ⟨rfl, toCqlTimestamp_mono (hi.bounded m range.min E hE)⟩
    · simp only [heq, Bool.false_eq_true, if_false, setRow_self]
      exact hi
  | release node range =>
    cases h
    -- what the other nodes were told is untouched, and so is the row unless it is this node's
    have htold : ∀ m r E, E ∈ ((s.setRow range.min
        (releaseLease (s.rows range.min) node).2).setTold node range.min []).told m r →
        E ∈ s.told m r ∧ ¬ (m = node ∧ r = range.min) := by
      intro m r E hE
      by_cases hm : m = node
      · subst hm
        by_cases hr : r = range.min
        · simp [setTold, hr] at hE
        · simp only [setTold, setRow, update_self, update_of_ne hr] at hE
          exact ⟨hE, fun h => hr h.2⟩
      · simp only [setTold, setRow, update_of_ne hm] at hE
        exact ⟨hE, fun h => hm h.1⟩
    refine ⟨hi.sampled, fun n r E hE => hi.bounded n r E (htold n r E hE).1, ?_⟩
    intro n r E hE
    obtain ⟨hE', hne⟩ := htold n r E hE
    rcases hi.held n r E hE' with hpast | ⟨row, hrow, hnode, hle⟩
    · exact .inl hpast
    · refine .inr ⟨row, ?_, hnode, hle⟩
      change Function.update s.rows range.min _ r = some row
      by_cases hr : r = range.min
      · subst hr
        rcases renewLease_cases (s.rows range.min) node 0 with
          ⟨row', hrow', hnode', -⟩ | ⟨-, heq⟩
        · rw [hrow] at hrow'
          cases hrow'
          exact absurd ⟨hnode.symm.trans hnode', rfl⟩ hne
        · rw [update_self, releaseLease, heq]
          exact hrow
      · rw [update_of_ne hr]
        exact hrow

theorem init_inv (now : ℤ) : Inv settings (init now) := by
  constructor <;> simp [init]

/-- The invariant holds after every interleaving. -/
theorem inv_of_reachable {now : ℤ} (h : (lts settings).Reachable (init now) s) : Inv settings s :=
  h.invariant (init_inv now) fun _ _ _ hi hs => step_inv hi hs

/-- **Leases are exclusive.** Whenever a node was told an expiry for a range, by a granted claim or
a renewal, has not released the range since, and the expiry is not yet past, no claim of another
node on that range is granted. -/
theorem lease_exclusive {now : ℤ} (h : (lts settings).Reachable (init now) s) {n : String}
    {range : TokenRange} (expiry : ℤ) (htold : expiry ∈ s.told n range.min)
    (hlive : s.now ≤ expiry) : ∀ id m, m ≠ n → ¬ s.Grants settings id m range := by
  rintro id m - ⟨sampledAt, observed, lease, hc, hgrant⟩
  have hi := inv_of_reachable h
  exact absurd (told_of_granted hi (hi.sampled _ _ hc) hgrant htold) (not_lt.2 hlive)

/-- A minute of lease, as the defaults have it. -/
def sampleSettings : CoordinatorSettings :=
  ⟨60000000000, 15000000000, 3, .reclaim, by decide, by decide, by decide, by decide⟩

/-- Node `b` samples and reads the row while node `a` is still claiming; `a` wins. -/
def sampleActs (range : TokenRange) : List Act :=
  [.sample 0 "a" range, .sample 1 "b" range, .read 0, .read 1, .tick 5, .write 0]

theorem lease_exclusive_sample :
    ∃ range s, (lts fun _ => sampleSettings).exec (init 0) (sampleActs range) = some s ∧
      60000000000 ∈ s.told "a" range.min ∧ s.now ≤ 60000000000 ∧
      (∃ claim, s.claims 1 = some claim ∧ claim.node = "b") ∧
      ∀ id m, m ≠ "a" → ¬ s.Grants (fun _ => sampleSettings) id m range := by
  refine ⟨⟨1, 10, by decide, by decide, by decide⟩, _, rfl, by decide, by decide,
    ⟨_, rfl, rfl⟩, ?_⟩
  exact lease_exclusive ⟨sampleActs ⟨1, 10, by decide, by decide, by decide⟩, rfl⟩
    60000000000 (by decide) (by decide)

end Fleet

end Cdm
