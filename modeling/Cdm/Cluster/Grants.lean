import Mathlib.Algebra.BigOperators.Group.List.Lemmas
import Cdm.Cluster.Fleet
import Cdm.Track.Resume

/-!
# How often a range is granted

The grants of a run of the fleet, in order, are what its conditional writes put out.  This file
counts them.

A grant writes one more than the attempt its claim had read, which need not be the attempt in the
row any more: the claim may have been in flight for any length of time.  `Fleet.stale` is how far what
a claim has read is behind the row when it comes to write; the grants of a range are at most the
attempt in its row and the staleness of its writes (`Fleet.length_grantsOf_le`).
-/

namespace Cdm

open CassandraStore List Option

/-- What a renewal leaves alone: the holder and the attempt. -/
def LeaseRow.claim (row : LeaseRow) : String × ℤ := (row.nodeId, row.attempt)

theorem LeaseRow.elim_map_claim (row : Option LeaseRow) :
    (row.map LeaseRow.claim).elim 0 Prod.snd = row.elim 0 LeaseRow.attempt := by
  cases row <;> rfl

/-- A granted claim: the lease the node is handed, and the row its write replaced. -/
structure Grant where
  lease : Lease
  replaced : Option LeaseRow
  deriving DecidableEq

namespace Grant

/-- The attempt a grant stores, an `int`. -/
def stored (g : Grant) : ℤ := (min g.lease.attempt i32Max : ℕ)

end Grant

namespace Fleet

variable (settings : String → CoordinatorSettings)

/-- What a move of the fleet grants. -/
def grant (s : Fleet) : Act → Option Grant
  | .write id =>
    match s.claims id with
    | some ⟨node, range, now, some observed⟩ =>
      match (s.claimWrite settings node range now observed).1 with
      | .granted lease =>
        some ⟨⟨range, node, lease.leaseUntil, lease.attempt⟩, s.rows range.min⟩
      | .denied _ => none
    | _ => none
  | _ => none

/-- The grants of a run that starts at `now`, in order. -/
def grants (now : ℤ) (acts : List Act) : List Grant :=
  (lts settings).outputs (grant settings) (init now) acts

/-- How many attempts the hint of a claim is behind the row, when the claim is about to write and the
row has expired at the time the claim has sampled.  Nothing when it is not behind. -/
def stale (r : ℤ) (s : Fleet) : Act → Option ℤ
  | .write id =>
    match s.claims id, s.rows r with
    | some ⟨_, range, now, some (some hint)⟩, some row =>
      if range.min = r ∧ row.leaseUntil < toCqlTimestamp now ∧ hint.attempt < row.attempt then
        some (row.attempt - hint.attempt)
      else none
    | _, _ => none
  | _ => none

/-- The grants of the range with lower bound `r`. -/
def grantsOf (r : ℤ) (gs : List Grant) : List Grant := gs.filter (·.lease.range.min = r)

variable {settings} {s s' : Fleet} {act : Act}

theorem grantsOf_concat_self {gs : List Grant} {g : Grant} :
    grantsOf g.lease.range.min (gs ++ [g]) = grantsOf g.lease.range.min gs ++ [g] := by
  simp [grantsOf]

theorem grantsOf_concat_of_ne {r : ℤ} {gs : List Grant} {g : Grant}
    (h : r ≠ g.lease.range.min) : grantsOf r (gs ++ [g]) = grantsOf r gs := by
  simp [grantsOf, Ne.symm h]

/-! ### What a step does -/

theorem renewLease_claim (row : Option LeaseRow) (node : String) (leaseUntil : ℤ) :
    (renewLease row node leaseUntil).2.map LeaseRow.claim =
      row.map LeaseRow.claim := by
  rcases renewLease_cases row node leaseUntil with ⟨current, rfl, -, heq⟩ | ⟨-, heq⟩
  · rw [heq]
    rfl
  · rw [heq]

theorem setRow_claim (s : Fleet) (r : ℤ) {row : Option LeaseRow}
    (h : row.map LeaseRow.claim = (s.rows r).map LeaseRow.claim) (r' : ℤ) :
    ((s.setRow r row).rows r').map LeaseRow.claim = (s.rows r').map LeaseRow.claim := by
  by_cases hr : r' = r
  · subst hr
    simpa [setRow] using h
  · simp [setRow, hr]

/-- A claim in flight that has read the lease row, and what it has read. -/
def Read (s : Fleet) (node : String) (range : TokenRange) (observed : Option LeaseRecord) : Prop :=
  ∃ id now, s.claims id = some ⟨node, range, now, some observed⟩

/-- What a granted claim did: it had read that there was no row, and there is none, or it had read
some row, and there is one. -/
structure Granted (s : Fleet) (g : Grant) (s' : Fleet) : Prop where
  replaced : g.replaced = s.rows g.lease.range.min
  row : ∃ new, s'.rows = Function.update s.rows g.lease.range.min (some new) ∧
    new.claim = (g.lease.node, g.stored)
  attempt : (g.replaced = none ∧ g.lease.attempt = 1) ∨
    ∃ hint, s.Read g.lease.node g.lease.range (some hint) ∧ g.replaced.isSome = true ∧
      g.lease.attempt = min (hint.attempt + 1) u32Max

/-- A step grants a range, or it changes neither the holder nor the attempt of any row. -/
theorem step_grant (h : step settings s act = some s') :
    (grant settings s act = none ∧
      ∀ r, (s'.rows r).map LeaseRow.claim = (s.rows r).map LeaseRow.claim) ∨
    ∃ g, grant settings s act = some g ∧ Granted s g s' := by
  cases act with
  | tick nanos =>
    cases h
    exact .inl ⟨rfl, fun _ => rfl⟩
  | sample id node range =>
    left
    simp only [step] at h
    split at h
    · cases h
    · split_ifs at h
      cases h
      exact ⟨rfl, fun _ => rfl⟩
  | read id =>
    left
    simp only [step] at h
    split at h
    · split at h
      · cases h
        exact ⟨rfl, fun _ => rfl⟩
      · cases h
        exact ⟨rfl, fun _ => rfl⟩
    · cases h
  | write id =>
    simp only [step] at h
    split at h
    · rename_i node range now observed hc
      split at h
      · rename_i lease hg
        cases h
        right
        obtain ⟨hrow, hattempt⟩ := claimRange_cases (Prod.ext hg rfl)
        refine ⟨⟨⟨range, node, lease.leaseUntil, lease.attempt⟩, s.rows range.min⟩,
          by simp only [grant, hc, hg], rfl,
          ⟨⟨node, toCqlTimestamp (now + (settings node).leaseDuration),
            (min lease.attempt i32Max : ℕ)⟩, ?_, rfl⟩, ?_⟩
        · show Function.update s.rows range.min (s.claimWrite settings node range now observed).2 = _
          rw [← hrow]
          rfl
        · rcases hattempt with ⟨hnone, -, rfl⟩ | ⟨row, hint, hsome, -, rfl, rfl⟩
          · exact .inl ⟨hnone, rfl⟩
          · exact .inr ⟨hint, ⟨id, now, hc⟩, isSome_iff_exists.2 ⟨row, hsome⟩, rfl⟩
      · rename_i current hg
        cases h
        left
        refine ⟨by simp only [grant, hc, hg], ?_⟩
        apply setRow_claim
        rw [claimWrite_denied hg]
        rfl
    · cases h
  | renew node range =>
    cases h
    refine .inl ⟨rfl, fun r => ?_⟩
    have hrow := s.setRow_claim range.min (renewLease_claim (s.rows range.min) node
      (s.now + (settings node).leaseDuration)) r
    split_ifs
    · exact hrow
    · exact hrow
  | release node range =>
    cases h
    exact .inl ⟨rfl, s.setRow_claim range.min (renewLease_claim (s.rows range.min) node 0)⟩

/-- A claim in flight has read what it has read in an earlier step, or reads the row as it is, and
goes on. -/
theorem read_of_step (h : step settings s act = some s') {node : String} {range : TokenRange}
    {observed : Option LeaseRecord} (hread : s'.Read node range observed) :
    s.Read node range observed ∨
      observed = (s.rows range.min).map (decodeLease range.min) ∧
        ∃ now, Coordinator.afterRead (settings node) now observed = none := by
  obtain ⟨id, now, hclaim⟩ := hread
  -- a step changes at most one claim
  have other {id' : ℕ} {claim : Option Claim} (hne : id ≠ id')
      (hc : (s.setClaim id' claim).claims id = some ⟨node, range, now, some observed⟩) :
      s.Read node range observed := ⟨id, now, by simpa [setClaim, hne] using hc⟩
  cases act with
  | tick nanos =>
    cases h
    exact .inl ⟨id, now, hclaim⟩
  | sample id' node' range' =>
    left
    simp only [step] at h
    split at h
    · cases h
    · split_ifs at h
      cases h
      by_cases hid : id = id'
      · simp [setClaim, hid] at hclaim
      · exact other hid hclaim
  | read id' =>
    simp only [step] at h
    split at h
    · rename_i node' range' now' hc
      split at h
      · cases h
        by_cases hid : id = id'
        · simp [setClaim, hid] at hclaim
        · exact .inl (other hid hclaim)
      · rename_i hafter
        cases h
        by_cases hid : id = id'
        · simp only [setClaim, hid, Function.update_self, Option.some.injEq, Claim.mk.injEq] at hclaim
          obtain ⟨rfl, rfl, rfl, rfl⟩ := hclaim
          exact .inr ⟨rfl, now', hafter⟩
        · exact .inl (other hid hclaim)
    · cases h
  | write id' =>
    left
    simp only [step] at h
    split at h
    · have hclaims : s'.claims = (s.setClaim id' none).claims := by
        split at h
        · cases h
          rfl
        · cases h
          rfl
      rw [hclaims] at hclaim
      by_cases hid : id = id'
      · simp [setClaim, hid] at hclaim
      · exact other hid hclaim
    · cases h
  | renew node' range' =>
    cases h
    left
    refine ⟨id, now, ?_⟩
    split_ifs at hclaim
    · exact hclaim
    · exact hclaim
  | release node' range' =>
    cases h
    exact .inl ⟨id, now, hclaim⟩

/-! ### Induction over the grants of a range -/

/-- A grant of a range that had none, or of one that a claim had read a lease of, which satisfies
`Q`. -/
def FromHint (Q : LeaseRecord → Prop) (g : Grant) : Prop :=
  (g.replaced = none ∧ g.lease.attempt = 1) ∨
    ∃ hint, Q hint ∧ g.replaced.isSome = true ∧ g.lease.attempt = min (hint.attempt + 1) u32Max

/-- **Induction over the grants of a range.**  A predicate `J` of the holder and the attempt in a
row and of the grants of its range holds after every run, if it holds of no row and no grants and if
every grant keeps it.  What the claims have read satisfies `Q`, if every lease that a claim does not
stop at does. -/
theorem grants_induction {J : Option (String × ℤ) → List Grant → Prop} {Q : LeaseRecord → Prop}
    (hread : ∀ (node : String) (now : ℤ) (hint : LeaseRecord),
      Coordinator.afterRead (settings node) now (some hint) = none → Q hint)
    (h₀ : J none [])
    (hgrant : ∀ g gs, J (g.replaced.map LeaseRow.claim) gs → FromHint Q g →
      J (some (g.lease.node, g.stored)) (gs ++ [g]))
    {now : ℤ} {acts : List Act} (h : (lts settings).exec (init now) acts = some s) (r : ℤ) :
    J ((s.rows r).map LeaseRow.claim) (grantsOf r (grants settings now acts)) := by
  have hinv : (∀ node range hint, s.Read node range (some hint) → Q hint) ∧
      ∀ r, J ((s.rows r).map LeaseRow.claim) (grantsOf r (grants settings now acts)) := by
    refine LTS.exec_invariant_outputs
      (I := fun s gs => (∀ node range hint, s.Read node range (some hint) → Q hint) ∧
        ∀ r, J ((s.rows r).map LeaseRow.claim) (grantsOf r gs)) h ⟨?_, fun _ => h₀⟩ ?_
    · rintro node range hint ⟨id, now, hclaim⟩
      cases hclaim
    · rintro s act s' gs ⟨hhints, hrows⟩ hstep
      refine ⟨?_, ?_⟩
      · intro node range hint hr
        rcases read_of_step hstep hr with hbefore | ⟨-, now, hafter⟩
        · exact hhints node range hint hbefore
        · exact hread node now hint hafter
      · intro r
        rcases step_grant hstep with ⟨hnone, hsame⟩ | ⟨g, hg, hreplaced, ⟨new, hnew, hclaim⟩, hattempt⟩
        · rw [hnone, toList_none, append_nil, hsame r]
          exact hrows r
        · rw [hg, toList_some, hnew]
          by_cases hr : r = g.lease.range.min
          · subst hr
            rw [Function.update_self, grantsOf_concat_self, map_some, hclaim]
            refine hgrant g _ (hreplaced ▸ hrows _) ?_
            rcases hattempt with hfirst | ⟨hint, hhint, hnext⟩
            · exact .inl hfirst
            · exact .inr ⟨hint, hhints _ _ _ hhint, hnext⟩
          · rw [Function.update_of_ne hr, grantsOf_concat_of_ne hr]
            exact hrows r
  exact hinv.2 r

/-! ### Refusing to reclaim -/

/-- A fleet that refuses to reclaim grants a range to one claim at most. -/
theorem length_grantsOf_le_one (hrefuse : ∀ n, (settings n).reclaimPolicy = .refuse) {now : ℤ}
    {acts : List Act} (h : (lts settings).exec (init now) acts = some s) (r : ℤ) :
    (grantsOf r (grants settings now acts)).length ≤ 1 := by
  -- a range without a row has no grants, and a refusing claim goes on only when there is no row
  have hcount := grants_induction
    (J := fun row gs => (row = none → gs = []) ∧ gs.length ≤ 1) (Q := fun _ => False) ?_ (by simp)
    ?_ h r
  · exact hcount.2
  · intro node now hint hafter
    simp only [Coordinator.afterRead] at hafter
    split_ifs at hafter with _ _ hpolicy
    exact hpolicy (hrefuse node)
  · rintro g gs ⟨hempty, -⟩ (⟨hnone, -⟩ | ⟨_, hfalse, -⟩)
    · simp [hempty (by rw [hnone]; rfl)]
    · exact hfalse.elim

/-- **Counter ranges are never applied twice.**  A fleet whose nodes refuse to reclaim grants a range
to one claim at most, over the whole run.  A resume under a counter-restricted policy plans nothing
but parts of ranges that are recorded as never started, and quarantines every other pending range;
it falls back, and plans nothing, only when there is no started run with recorded ranges. -/
theorem counter_ranges_claimed_once :
    (∀ settings : String → CoordinatorSettings, (∀ n, (settings n).reclaimPolicy = .refuse) →
      ∀ now acts s, (lts settings).exec (init now) acts = some s → ∀ range : TokenRange,
        (grantsOf range.min (grants settings now acts)).length ≤ 1) ∧
    ∀ (prev runId : RunId) (previous : Option RunRecord) (records : List RangeRecord)
      (policy : RerunPolicy) (multiplier : ℕ) (plan : ResumePlan),
      policy.isCounterRestricted = true →
      planResume prev previous records policy multiplier runId = .ok plan →
      (∀ planned ∈ plan.ranges, ∃ record ∈ records, record.status = .notStarted ∧
        ∀ t, planned.Mem t → record.range.Mem t) ∧
      (plan.fallback = none → plan.quarantined.Perm
        ((records.filter fun r => r.status.isPending && r.status ≠ .notStarted).map fun r =>
          ⟨r.range, some r.status, .counterPartiallyApplied⟩)) ∧
      (plan.fallback ≠ none →
        (∀ run, previous = some run → run.status = .notStarted) ∨ records = []) := by
  refine ⟨?_, ?_⟩
  · intro settings hrefuse now acts s h range
    exact length_grantsOf_le_one hrefuse h range.min
  · intro prev runId previous records policy multiplier plan hpolicy hplan
    refine ⟨?_, ?_, fun hf => (fallback_of_planResume hplan hf).2⟩
    · intro planned hplanned
      by_cases hf : plan.fallback = none
      · obtain ⟨parts, hperm, hdivides⟩ := planResume_ok hplan hf
        rw [pendingRanges_of_restricted hpolicy] at hperm hdivides
        obtain ⟨range, hrange, hpart⟩ := mem_flatMap.1 (hperm.mem_iff.1 hplanned)
        obtain ⟨record, hrecord, rfl⟩ := mem_map.1 hrange
        rw [mem_filter, decide_eq_true_eq] at hrecord
        refine ⟨record, hrecord.1, hrecord.2, fun t ht => ?_⟩
        exact ((hdivides _ hrange).covers_iff t).1 ⟨planned, hpart, ht⟩
      · rw [(fallback_of_planResume hplan hf).1] at hplanned
        cases hplanned
    · intro hf
      rw [← quarantinedRanges_of_restricted hpolicy]
      exact quarantined_of_planResume hplan hf

/-- A minute of lease, and nothing is reclaimed. -/
def refusing : CoordinatorSettings :=
  ⟨60000000000, 15000000000, 3, .refuse, sampleSettings.leaseDuration_pos,
    sampleSettings.heartbeatInterval_pos, sampleSettings.heartbeat_le,
    sampleSettings.maxAttempts_pos⟩

def sampleRange : TokenRange := .checked 1 10 (.refl true)

/-- Node `a` claims the range and stalls; `b` comes back to it after the lease has expired. -/
def stalledActs : List Act :=
  [.sample 0 "a" sampleRange, .read 0, .write 0, .tick 90000000000, .sample 1 "b" sampleRange,
    .read 1]

/-- The rows of a run that was killed: one range had started, the other had not. -/
def killedRows : List RangeRecord :=
  [⟨sampleRange, .started, some 0, none⟩,
    ⟨⟨11, 20, by decide, by decide, by decide⟩, .notStarted, none, none⟩]

def killedRun : RunRecord := ⟨⟨1⟩, none, ⟨"ks", "t"⟩, .migrate, .started, none, none, none⟩

theorem counter_ranges_claimed_once_stalled :
    (∃ s, (lts fun _ => refusing).exec (init 0) stalledActs = some s) ∧
      (grantsOf sampleRange.min (grants (fun _ => refusing) 0 stalledActs)).length = 1 ∧
      ∃ plan, planResume ⟨1⟩ (some killedRun) killedRows ⟨true, true⟩ 1 ⟨2⟩ = .ok plan ∧
        (∀ planned ∈ plan.ranges, ∃ record ∈ killedRows, record.status = .notStarted ∧
          ∀ t, planned.Mem t → record.range.Mem t) ∧
        plan.quarantined.Perm [⟨sampleRange, some .started, .counterPartiallyApplied⟩] := by
  refine ⟨⟨_, rfl⟩, ?_, _, rfl, ?_⟩
  · refine Nat.le_antisymm (counter_ranges_claimed_once.1 _ (fun _ => rfl) 0 _ _ rfl sampleRange) ?_
    decide
  · have hresume := counter_ranges_claimed_once.2 ⟨1⟩ ⟨2⟩ (some killedRun) killedRows ⟨true, true⟩ 1
      _ rfl rfl
    exact ⟨hresume.1, hresume.2.1 rfl⟩

/-! ### Attempts -/

/-- No attempt is counted past the limit. -/
theorem attempt_le {m : ℕ} (hm : ∀ n, (settings n).maxAttempts = m) {now : ℤ} {acts : List Act}
    (h : (lts settings).exec (init now) acts = some s) (r : ℤ) :
    (s.rows r).elim 0 LeaseRow.attempt ≤ m := by
  have hpos : 0 < m := hm "" ▸ (settings "").maxAttempts_pos
  have hbound := grants_induction
    (J := fun row _ => row.elim 0 Prod.snd ≤ (m : ℤ)) (Q := fun hint => hint.attempt < m) ?_
    (by simp) ?_ h r
  · rwa [LeaseRow.elim_map_claim] at hbound
  · intro node now hint hafter
    simp only [Coordinator.afterRead] at hafter
    split_ifs at hafter with _ hattempts
    rwa [hm node, not_le] at hattempts
  · rintro g gs - hhint
    have hattempt : g.lease.attempt ≤ m := by
      rcases hhint with ⟨-, hone⟩ | ⟨hint, hlt, -, hnext⟩
      · omega
      · omega
    show ((min g.lease.attempt i32Max : ℕ) : ℤ) ≤ m
    omega

/-- Staleness is counted where there is some. -/
theorem stale_nonneg (r : ℤ) (s : Fleet) (act : Act) : 0 ≤ (stale r s act).toList.sum := by
  cases hstale : stale r s act with
  | none => exact le_rfl
  | some behind =>
    unfold stale at hstale
    split at hstale
    · split at hstale
      · split_ifs at hstale with hbehind
        cases hstale
        rw [toList_some, sum_singleton]
        omega
      · cases hstale
    · cases hstale

/-- A granted write counts one attempt more than the row, but for its staleness. -/
theorem attempt_of_grant {g : Grant} (h : step settings s act = some s')
    (hg : grant settings s act = some g)
    (hints : ∀ node range hint, s.Read node range (some hint) → hint.attempt < i32Max) :
    (s.rows g.lease.range.min).elim 0 LeaseRow.attempt + 1 ≤
      (s'.rows g.lease.range.min).elim 0 LeaseRow.attempt +
        (stale g.lease.range.min s act).toList.sum := by
  rcases step_grant h with ⟨hnone, -⟩ | ⟨g', hg', hreplaced, ⟨new, hnew, hclaim⟩, -⟩
  · rw [hnone] at hg
    cases hg
  obtain rfl : g' = g := Option.some.inj (hg'.symm.trans hg)
  have hstored : new.attempt = g'.stored := congrArg Prod.snd hclaim
  rw [hnew, Function.update_self, elim_some, hstored, ← hreplaced]
  cases act with
  | write id =>
    simp only [grant] at hg
    split at hg
    · rename_i node range now observed hc
      split at hg
      · rename_i lease hgranted
        cases hg
        obtain ⟨-, hattempt⟩ := claimRange_cases (Prod.ext hgranted rfl)
        rcases hattempt with ⟨hnone, rfl, rfl⟩ | ⟨row, hint, hrow, hexpired, rfl, rfl⟩
        · have hnonneg := stale_nonneg range.min s (.write id)
          rw [hnone, elim_none]
          dsimp only [Grant.stored] at hnonneg ⊢
          have : ((min 1 i32Max : ℕ) : ℤ) = 1 := rfl
          omega
        · have hlt := hints node range hint ⟨id, now, hc⟩
          have hmin : min (min (hint.attempt + 1) u32Max) i32Max = hint.attempt + 1 := by
            have : i32Max ≤ u32Max := by decide
            omega
          rw [hrow, elim_some]
          dsimp only [Grant.stored]
          rw [hmin]
          simp only [stale, hc, hrow, true_and, hexpired]
          split_ifs with hbehind
          · simp only [toList_some, sum_singleton]
            omega
          · simp only [toList_none, sum_nil]
            omega
      · cases hg
    · cases hg
  | _ => cases hg

/-- The grants of a range are at most the attempt in its row and the staleness of its writes, as long
as the limit is an `int`. -/
theorem length_grantsOf_le {m : ℕ} (hm : ∀ n, (settings n).maxAttempts = m) (hint : m ≤ i32Max)
    {now : ℤ} {acts : List Act} (h : (lts settings).exec (init now) acts = some s) (r : ℤ) :
    ((grantsOf r (grants settings now acts)).length : ℤ) ≤
      (s.rows r).elim 0 LeaseRow.attempt + ((lts settings).outputs (stale r) (init now) acts).sum := by
  have hinv := LTS.exec_invariant_outputs
    (f := fun s act => some (grant settings s act, stale r s act))
    (I := fun s os => (∀ node range hint, s.Read node range (some hint) → hint.attempt < i32Max) ∧
      ((grantsOf r (os.filterMap Prod.fst)).length : ℤ) ≤
        (s.rows r).elim 0 LeaseRow.attempt + (os.filterMap Prod.snd).sum) h ⟨?_, by simp [grantsOf, init]⟩ ?_
  · rw [LTS.outputs_filterMap, LTS.outputs_filterMap] at hinv
    exact hinv.2
  · rintro node range hint ⟨id, now, hclaim⟩
    cases hclaim
  · rintro s act s' os ⟨hhints, hle⟩ hstep
    have hstale := stale_nonneg r s act
    refine ⟨?_, ?_⟩
    · intro node range hint hr
      rcases read_of_step hstep hr with hbefore | ⟨-, now, hafter⟩
      · exact hhints node range hint hbefore
      · simp only [Coordinator.afterRead] at hafter
        split_ifs at hafter with _ hattempts
        rw [hm node, not_le] at hattempts
        omega
    · have hsum : ((os ++ [(grant settings s act, stale r s act)]).filterMap Prod.snd).sum =
          (os.filterMap Prod.snd).sum + (stale r s act).toList.sum := by
        rw [filterMap_append, sum_append]
        cases stale r s act <;> rfl
      have hgrants : (os ++ [(grant settings s act, stale r s act)]).filterMap Prod.fst =
          os.filterMap Prod.fst ++ (grant settings s act).toList := by
        rw [filterMap_append]
        cases grant settings s act <;> rfl
      rw [toList_some, hsum, hgrants]
      rcases step_grant hstep with ⟨hnone, hsame⟩ | ⟨g, hg, -, ⟨new, hnew, -⟩, -⟩
      · have hattempt : (s'.rows r).elim 0 LeaseRow.attempt = (s.rows r).elim 0 LeaseRow.attempt := by
          rw [← LeaseRow.elim_map_claim, hsame r, LeaseRow.elim_map_claim]
        rw [hattempt, hnone, toList_none, append_nil]
        omega
      · rw [hg, toList_some]
        by_cases hr : r = g.lease.range.min
        · subst hr
          have hattempt := attempt_of_grant hstep hg hhints
          rw [grantsOf_concat_self, length_append, length_singleton, Nat.cast_add]
          omega
        · rw [grantsOf_concat_of_ne hr, hnew, Function.update_of_ne hr]
          omega

/-- **Retries are bounded.**  With a limit that is an `int` a range is granted at most once more than
the limit, in every run in which no claim writes on a stale hint over a row that has expired, except
once, on one that is one attempt behind. -/
theorem retries_bounded {m : ℕ} (hm : ∀ n, (settings n).maxAttempts = m) (hint : m ≤ i32Max)
    {now : ℤ} {acts : List Act} (h : (lts settings).exec (init now) acts = some s)
    (range : TokenRange)
    (hstale : ((lts settings).outputs (stale range.min) (init now) acts).sum ≤ 1) :
    (grantsOf range.min (grants settings now acts)).length ≤ m + 1 := by
  have hlength := length_grantsOf_le hm hint h range.min
  have hattempt := attempt_le hm h range.min
  omega

/-- A minute of lease, and a range is claimed twice at most. -/
def twice : CoordinatorSettings :=
  ⟨60000000000, 15000000000, 2, .reclaim, sampleSettings.leaseDuration_pos,
    sampleSettings.heartbeatInterval_pos, sampleSettings.heartbeat_le, by decide⟩

/-- Node `a` has claimed and released the range, and the nodes `b` and `c` have read that. -/
def racingActs : List Act :=
  [.sample 0 "a" sampleRange, .read 0, .write 0, .release "a" sampleRange, .tick 5000000,
    .sample 1 "b" sampleRange, .sample 2 "c" sampleRange, .read 1, .read 2,
    .write 1, .release "b" sampleRange, .write 2]

theorem retries_bounded_racing :
    (∃ s, (lts fun _ => twice).exec (init 0) racingActs = some s) ∧
      (lts fun _ => twice).outputs (stale sampleRange.min) (init 0) racingActs = [1] ∧
      (grantsOf sampleRange.min (grants (fun _ => twice) 0 racingActs)).length ≤ 2 + 1 := by
  refine ⟨⟨_, rfl⟩, by decide, ?_⟩
  exact retries_bounded (fun _ => rfl) (by decide) rfl sampleRange (by decide)

/-- As `racingActs`, with a third node whose claim is in flight all the while. -/
def staleActs : List Act :=
  [.sample 0 "a" sampleRange, .read 0, .write 0, .release "a" sampleRange, .tick 5000000,
    .sample 1 "b" sampleRange, .sample 2 "c" sampleRange, .sample 3 "d" sampleRange,
    .read 1, .read 2, .read 3,
    .write 1, .release "b" sampleRange, .write 2, .release "c" sampleRange, .write 3]

/-- Every claim that has read the first attempt gets the range once, however many there are. -/
theorem retries_exceeded :
    (∃ s, (lts fun _ => twice).exec (init 0) staleActs = some s) ∧
      2 + 1 < (grantsOf sampleRange.min (grants (fun _ => twice) 0 staleActs)).length := by
  refine ⟨⟨_, rfl⟩, ?_⟩
  decide

/-! ### Superseded leases -/

/-- The row of a range is held by the node of its latest grant. -/
theorem nodeId_eq_last {now : ℤ} {acts : List Act}
    (h : (lts settings).exec (init now) acts = some s) (r : ℤ) :
    (s.rows r).map LeaseRow.nodeId =
      (grantsOf r (grants settings now acts)).getLast?.map fun g => g.lease.node := by
  have hlast := grants_induction
    (J := fun row gs => row.map Prod.fst = gs.getLast?.map fun g => g.lease.node)
    (Q := fun _ => True) (fun _ _ _ _ => trivial) rfl (fun g gs _ _ => by simp) h r
  rw [← hlast, Option.map_map]
  rfl

/-- A lease can be renewed exactly when the row is held by the node. -/
theorem renew_eq_none_iff {settings : CoordinatorSettings} {node holder : String} {now : ℤ}
    {row : Option LeaseRow} {lease : Lease} (hrow : row.map LeaseRow.nodeId = some holder) :
    (Coordinator.renew settings node now row lease).1 = none ↔ holder ≠ node := by
  obtain ⟨current, rfl, rfl⟩ := map_eq_some_iff.1 hrow
  by_cases hnode : current.nodeId = node
  · simp [Coordinator.renew, renewLease, hnode]
  · simp [Coordinator.renew, renewLease, hnode]

/-- A node that does not hold the row releases nothing. -/
theorem release_eq_self {node holder : String} {row : Option LeaseRow}
    (hrow : row.map LeaseRow.nodeId = some holder) (hne : holder ≠ node) :
    Coordinator.release node row = row := by
  obtain ⟨current, rfl, rfl⟩ := map_eq_some_iff.1 hrow
  simp [Coordinator.release, releaseLease, renewLease, hne]

/-- **A lease that another node has claimed since is powerless.**  When later claims of the range of
a lease were granted, renewing through the lease, however often it was renewed before, fails exactly
when the latest of them was made by another node, and then releasing it leaves the row alone. -/
theorem superseded_by_another_node {now : ℤ} {acts : List Act}
    (h : (lts settings).exec (init now) acts = some s) {before after : List Grant}
    {old latest : Grant} (hgrants : grants settings now acts = before ++ old :: after)
    (hlatest : (grantsOf old.lease.range.min after).getLast? = some latest) (expiresAt : ℤ) :
    ((Coordinator.renew (settings old.lease.node) old.lease.node s.now
        (s.rows old.lease.range.min) (old.lease.renewedUntil expiresAt)).1 = none ↔
      latest.lease.node ≠ old.lease.node) ∧
    (latest.lease.node ≠ old.lease.node →
      Coordinator.release old.lease.node (s.rows old.lease.range.min) =
        s.rows old.lease.range.min) := by
  have hrow := nodeId_eq_last h old.lease.range.min
  have hafter : (grantsOf old.lease.range.min (grants settings now acts)).getLast? = some latest := by
    rw [hgrants, grantsOf, filter_append, filter_cons_of_pos (by simp),
      getLast?_append_cons, getLast?_cons]
    change some ((grantsOf old.lease.range.min after).getLast?.getD old) = some latest
    rw [hlatest, getD_some]
  rw [hafter, map_some] at hrow
  exact ⟨renew_eq_none_iff hrow, release_eq_self hrow⟩

/-- Node `a` claims the range and stalls, and a node takes it over. -/
def takenOverActs (node : String) : List Act :=
  [.sample 0 "a" sampleRange, .read 0, .write 0, .tick 90000000000, .sample 1 node sampleRange,
    .read 1, .write 1]

/-- The grants of that run. -/
def stalledGrant : Grant := ⟨⟨sampleRange, "a", 60000000000, 1⟩, none⟩

def takeoverGrant (node : String) : Grant :=
  ⟨⟨sampleRange, node, 150000000000, 2⟩, some ⟨"a", 60000, 1⟩⟩

theorem superseded_by_another_node_taken_over :
    ∃ s, (lts fun _ => twice).exec (init 0) (takenOverActs "b") = some s ∧
      grants (fun _ => twice) 0 (takenOverActs "b") = [stalledGrant, takeoverGrant "b"] ∧
      (Coordinator.renew twice "a" s.now (s.rows 1) stalledGrant.lease).1 = none ∧
      Coordinator.release "a" (s.rows 1) = s.rows 1 := by
  refine ⟨_, rfl, rfl, ?_⟩
  have hpowerless := @superseded_by_another_node (fun _ => twice) _ 0 (takenOverActs "b") rfl []
    [takeoverGrant "b"] stalledGrant (takeoverGrant "b") rfl rfl 60000000000
  exact ⟨hpowerless.1.2 (by decide), hpowerless.2 (by decide)⟩

/-- A node that takes its own range over can renew and release through the lease it had before. -/
theorem superseded_by_itself :
    ∃ s, (lts fun _ => twice).exec (init 0) (takenOverActs "a") = some s ∧
      grants (fun _ => twice) 0 (takenOverActs "a") = [stalledGrant, takeoverGrant "a"] ∧
      (Coordinator.renew twice "a" s.now (s.rows 1) stalledGrant.lease).1 ≠ none ∧
      Coordinator.release "a" (s.rows 1) ≠ s.rows 1 := by
  refine ⟨_, rfl, rfl, ?_, ?_⟩
  · decide
  · decide

end Fleet

end Cdm
