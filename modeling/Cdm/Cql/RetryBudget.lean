import Cdm.Cql.Scan

/-!
# How often a request is sent

The driver and the caller both retry, and both take their limit from `perfops.retry.max_attempts`.
An execution that has failed is made again by the caller whatever its error was, since the error
that it is wrapped in is one that a retry could fix: the requests of the executions add up, and a
request that cannot succeed is sent again.

An execution sends requests as long as they fail with errors that the policy retries.  So the limit
is kept exactly if no execution fails with an attempt of the caller left, except for one case: pages
without rows are attempted again without a failed request, and may use up the attempts of the
caller.
-/

namespace Cdm

/-- The policy and the backoff have the limit of one setting. -/
def Backoff.policy (b : Backoff) : CdmRetryPolicy := .new b.maxAttempts

namespace TargetWriter

/-- One attempt at a write, single or in a batch. -/
def writeAttempt (b : Backoff) (outcomes : ℕ → RequestOutcome) (sent : ℕ) :
    Except CdmError Unit × ℕ :=
  match execute b.policy true outcomes sent with
  | (.failed _, sent) =>
    (.error ((⟨.write, "the target write failed", {}⟩ : CdmError).withSide .target), sent)
  | (_, sent) => (.ok (), sent)

/-- The retry loop of every idempotent write, with the number of requests that are sent for it. -/
def retrying (b : Backoff) (outcomes : ℕ → RequestOutcome) : Except CdmError Unit × ℕ :=
  b.retrying (writeAttempt b outcomes) 0 0

/-- One attempt at the lookup of a counter row. -/
def lookupAttempt (b : Backoff) (outcomes : ℕ → RequestOutcome) (sent : ℕ) :
    Except CdmError RequestOutcome × ℕ :=
  match execute b.policy true outcomes sent with
  | (.failed _, sent) =>
    (.error ((⟨.read, "the target lookup for a counter delta failed (MIG-031)", {}⟩ :
      CdmError).withSide .target), sent)
  | (outcome, sent) => (.ok outcome, sent)

/-- Reads the target row for a counter delta; `row` is that of a response with rows.  A response
without rows is an error that is not retried. -/
def counterRow {ρ : Type*} (b : Backoff) (row : Option ρ) (outcomes : ℕ → RequestOutcome) :
    Except CdmError (Option ρ) × ℕ :=
  match b.retrying (lookupAttempt b outcomes) 0 0 with
  | (.error e, sent) => (.error e, sent)
  | (.ok .unreadable, sent) =>
    (.error ((⟨.read, "the counter lookup returned no rows section (MIG-031)", {}⟩ :
      CdmError).withSide .target), sent)
  | (.ok _, sent) => (.ok row, sent)

end TargetWriter

/-! ### The budget -/

/-- A failure that the policy retries. -/
def Transient (outcome : RequestOutcome) : Prop :=
  ∃ error, outcome = .failed error ∧ classify error ≠ .dontRetry

/-- A failure that the policy does not retry. -/
def Deterministic (outcome : RequestOutcome) : Prop :=
  ∃ error, outcome = .failed error ∧ classify error = .dontRetry

/-- At most as many requests are sent as are configured, and none again that fails for good. -/
def WithinBudget (b : Backoff) (outcomes : ℕ → RequestOutcome) (sent : ℕ) : Prop :=
  sent ≤ max 1 b.maxAttempts ∧ ∀ i, i + 1 < sent → ¬ Deterministic (outcomes i)

/-- The caller does not accept this outcome of an execution. -/
def Fails (again : RequestOutcome → Prop) (outcome : RequestOutcome) : Prop :=
  again outcome ∨ ∃ error, outcome = .failed error

/-- The outcomes that keep the budget: there is only one attempt, or a request ends the operation
before the attempts are used up, or the caller has used up its own on responses that it does not
accept.  `again` tells which responses these are. -/
def Affordable (b : Backoff) (again : RequestOutcome → Prop) (outcomes : ℕ → RequestOutcome) :
    Prop :=
  b.maxAttempts ≤ 1 ∨
  (∃ j < b.maxAttempts, ¬ Fails again (outcomes j) ∧
    ∀ i < j, again (outcomes i) ∨ Transient (outcomes i)) ∨
  (∀ i, i + 1 < b.maxAttempts → again (outcomes i)) ∧
    ¬ Transient (outcomes (b.maxAttempts - 1))

/-! ### One execution -/

theorem decide_eq_dontRetry_iff {session : CdmRetrySession} {error : RequestAttemptError} :
    (session.decide true error).1 = .dontRetry ↔
      session.maxAttempts ≤ session.attempts ∨ classify error = .dontRetry := by
  unfold CdmRetrySession.decide
  simp only [Bool.not_true, Bool.false_eq_true, if_false]
  split_ifs with hused hclass
  · simp [hused]
  · simp [hused, hclass]
  · simp [not_not.1 hclass]

/-- An execution ends with a response, with an error that is not retried, or with the last request
that its session allows; all requests before fail with errors that are retried. -/
theorem executeFrom_spec (outcomes : ℕ → RequestOutcome) (session : CdmRetrySession) (i : ℕ)
    (hattempts : session.attempts ≤ session.maxAttempts) :
    ∃ j, executeFrom true outcomes session i = (outcomes j, j + 1) ∧ i ≤ j ∧
      j + session.attempts ≤ i + session.maxAttempts ∧
      (∀ k, i ≤ k → k < j → Transient (outcomes k)) ∧
      (Transient (outcomes j) → j + session.attempts = i + session.maxAttempts) := by
  fun_induction executeFrom true outcomes session i with
  | case1 session i hout =>
    refine ⟨i, by rw [hout], le_rfl, by omega, fun k hk hki => absurd hk hki.not_ge, ?_⟩
    rintro ⟨error, herror, -⟩
    exact absurd (hout.symm.trans herror) nofun
  | case2 session i hout =>
    refine ⟨i, by rw [hout], le_rfl, by omega, fun k hk hki => absurd hk hki.not_ge, ?_⟩
    rintro ⟨error, herror, -⟩
    exact absurd (hout.symm.trans herror) nofun
  | case3 session i error hout hdecide =>
    refine ⟨i, by rw [hout], le_rfl, by omega, fun k hk hki => absurd hk hki.not_ge, ?_⟩
    rintro ⟨error', herror, hclass⟩
    cases hout.symm.trans herror
    rcases decide_eq_dontRetry_iff.1 hdecide with hused | hfinal
    · omega
    · exact absurd hfinal hclass
  | case4 session i error hout hdecide ih =>
    obtain ⟨hleft, hsession⟩ := CdmRetrySession.decide_of_ne hdecide
    have htransient : Transient (outcomes i) :=
      ⟨error, hout, fun h => hdecide (decide_eq_dontRetry_iff.2 (.inr h))⟩
    rw [hsession] at ih
    obtain ⟨j, hexecute, hij, hbound, hbefore, hlast⟩ := ih hleft
    simp only at hbound
    refine ⟨j, hsession ▸ hexecute, by omega, by omega, fun k hk hkj => ?_, fun hj => ?_⟩
    · rcases hk.eq_or_lt with rfl | hk
      · exact htransient
      · exact hbefore k hk hkj
    · have hsum := hlast hj
      simp only at hsum
      omega

/-- An execution with a new session. -/
theorem execute_spec (b : Backoff) (outcomes : ℕ → RequestOutcome) (i : ℕ) :
    ∃ j, execute b.policy true outcomes i = (outcomes j, j + 1) ∧ i ≤ j ∧
      j + 1 ≤ i + max b.maxAttempts 1 ∧ (∀ k, i ≤ k → k < j → Transient (outcomes k)) ∧
      (Transient (outcomes j) → j + 1 = i + max b.maxAttempts 1) :=
  executeFrom_spec outcomes _ i (le_max_right _ _)

/-! ### The attempts of the caller -/

section Attempts

variable {α W : Type*} {b : Backoff} {again : RequestOutcome → Prop} {outcomes : ℕ → RequestOutcome}

/-- An attempt executes the request, and is made again if the execution has failed or its response
is not accepted. -/
structure Attempts (b : Backoff) (again : RequestOutcome → Prop) (outcomes : ℕ → RequestOutcome)
    (sent : W → ℕ) (attempt : W → Except CdmError α × W) : Prop where
  sent_eq : ∀ w, sent (attempt w).2 = (execute b.policy true outcomes (sent w)).2
  retryable : ∀ w e, (attempt w).1 = .error e → e.kind.isRetryable = true
  error_iff : ∀ w, (∃ e, (attempt w).1 = .error e) ↔
    again (execute b.policy true outcomes (sent w)).1 ∨
      ∃ error, (execute b.policy true outcomes (sent w)).1 = .failed error

theorem shouldRetry_iff {e : CdmError} (he : e.kind.isRetryable = true) (attempts : ℕ) :
    b.shouldRetry e (countAttempt attempts) = true ↔ attempts + 1 < b.maxAttempts := by
  have hle := b.maxAttempts_le
  rw [Backoff.shouldRetry, Backoff.mayRetry, he, Bool.and_true, decide_eq_true_eq, countAttempt]
  omega

variable {sent : W → ℕ} {attempt : W → Except CdmError α × W}

/-- How the attempts go on: the last request of the next one is `j`; after it there is another one
if it has failed and there are attempts left. -/
theorem retrying_cases (h : Attempts b again outcomes sent attempt) (attempts : ℕ) (w : W) :
    ∃ j w', sent w' = j + 1 ∧ sent w ≤ j ∧ j + 1 ≤ sent w + max b.maxAttempts 1 ∧
      (∀ k, sent w ≤ k → k < j → Transient (outcomes k)) ∧
      (Transient (outcomes j) → j + 1 = sent w + max b.maxAttempts 1) ∧
      ((Fails again (outcomes j) ∧ attempts + 1 < b.maxAttempts ∧
          b.retrying attempt attempts w = b.retrying attempt (attempts + 1) w') ∨
        ((Fails again (outcomes j) → b.maxAttempts ≤ attempts + 1) ∧
          sent (b.retrying attempt attempts w).2 = j + 1)) := by
  obtain ⟨j, hexecute, hle, hbound, hbefore, hlast⟩ := execute_spec b outcomes (sent w)
  have hsent := h.sent_eq w
  have herror := h.error_iff w
  have hretryable := h.retryable w
  rw [hexecute] at hsent herror
  refine ⟨j, (attempt w).2, hsent, hle, hbound, hbefore, hlast, ?_⟩
  rw [Backoff.retrying]
  cases hattempt : attempt w with
  | mk result w' =>
    rw [hattempt] at hsent herror hretryable
    cases result with
    | ok a =>
      refine .inr ⟨fun hfails => ?_, hsent⟩
      obtain ⟨e, he⟩ := herror.2 hfails
      cases he
    | error e =>
      have hfails : Fails again (outcomes j) := herror.1 ⟨e, rfl⟩
      have hiff := shouldRetry_iff (b := b) (hretryable e rfl) attempts
      simp only
      split_ifs with hretry
      · have hlt := hiff.1 hretry
        rw [(Backoff.countAttempt_of_shouldRetry hretry).1]
        exact .inl ⟨hfails, hlt, rfl⟩
      · exact .inr ⟨fun _ => not_lt.1 fun hlt => hretry (hiff.2 hlt), hsent⟩

/-- Another request is sent. -/
theorem lt_sent_retrying (h : Attempts b again outcomes sent attempt) (attempts : ℕ) (w : W) :
    sent w < sent (b.retrying attempt attempts w).2 := by
  induction hleft : b.maxAttempts - attempts using Nat.strong_induction_on
    generalizing attempts w with
  | _ left ih =>
    obtain ⟨j, w', hw', hle, -, -, -, ⟨-, hlt, hnext⟩ | ⟨-, hsent⟩⟩ := retrying_cases h attempts w
    · have hlater := ih _ (by omega) (attempts + 1) w' rfl
      rw [hnext]
      omega
    · omega

/-- A request that ends the operation is the last one, if there are attempts enough to come to it.
-/
theorem sent_of_ends (h : Attempts b again outcomes sent attempt) {j : ℕ} (hj : j < b.maxAttempts)
    (hends : ¬ Fails again (outcomes j))
    (hbefore : ∀ i < j, again (outcomes i) ∨ Transient (outcomes i)) {attempts : ℕ} {w : W}
    (hattempts : attempts ≤ sent w) (hw : sent w ≤ j) :
    sent (b.retrying attempt attempts w).2 = j + 1 := by
  induction hleft : b.maxAttempts - attempts using Nat.strong_induction_on
    generalizing attempts w with
  | _ left ih =>
    obtain ⟨k, w', hw', hle, -, htransient, -, hcases⟩ := retrying_cases h attempts w
    have hkj : k ≤ j := by
      by_contra hkj
      obtain ⟨error, herror, -⟩ := htransient j hw (not_le.1 hkj)
      exact hends (.inr ⟨error, herror⟩)
    rcases hcases with ⟨hfails, hlt, hnext⟩ | ⟨hstop, hsent⟩
    · have hne : k ≠ j := fun heq => hends (heq ▸ hfails)
      rw [hnext]
      exact ih _ (by omega) (by omega) (by omega) rfl
    · have heq : k = j := by
        by_contra hne
        have hkj := lt_of_le_of_ne hkj hne
        have hfails : Fails again (outcomes k) := (hbefore k hkj).imp_right
          fun ⟨error, herror, _⟩ => ⟨error, herror⟩
        have hused := hstop hfails
        omega
      rw [hsent, heq]

/-- Responses that are not accepted use up the attempts of the caller, one request each. -/
theorem sent_of_again (h : Attempts b again outcomes sent attempt)
    (hagain : ∀ i, i + 1 < b.maxAttempts → ¬ Transient (outcomes i) ∧ Fails again (outcomes i))
    (hlast : ¬ Transient (outcomes (b.maxAttempts - 1))) {attempts : ℕ} {w : W}
    (hattempts : attempts = sent w) (hw : attempts < b.maxAttempts) :
    sent (b.retrying attempt attempts w).2 = b.maxAttempts := by
  induction hleft : b.maxAttempts - attempts using Nat.strong_induction_on
    generalizing attempts w with
  | _ left ih =>
    have hfirst : ¬ Transient (outcomes (sent w)) := by
      by_cases hmore : sent w + 1 < b.maxAttempts
      · exact (hagain _ hmore).1
      · have heq : sent w = b.maxAttempts - 1 := by omega
        rw [heq]
        exact hlast
    obtain ⟨k, w', hw', hle, -, htransient, -, hcases⟩ := retrying_cases h attempts w
    have hk : k = sent w := by
      by_contra hne
      exact hfirst (htransient _ le_rfl (by omega))
    rcases hcases with ⟨hfails, hlt, hnext⟩ | ⟨hstop, hsent⟩
    · rw [hnext]
      exact ih _ (by omega) (by omega) hlt rfl
    · rw [hsent]
      by_contra hne
      have hused := hstop (hk ▸ (hagain (sent w) (by omega)).2)
      omega

/-- Outcomes that keep the budget are affordable: otherwise an execution fails with an attempt of
the caller left, and the next request is one too many, or one that fails for good again. -/
theorem affordable_of_withinBudget (h : Attempts b again outcomes sent attempt)
    (hmany : 1 < b.maxAttempts) {attempts : ℕ} {w : W} (hattempts : attempts ≤ sent w)
    (hleft : attempts < b.maxAttempts)
    (hsent : ∀ i < sent w, again (outcomes i) ∨ Transient (outcomes i))
    (hones : attempts = sent w → ∀ i < sent w, again (outcomes i))
    (hbudget : WithinBudget b outcomes (sent (b.retrying attempt attempts w).2)) :
    Affordable b again outcomes := by
  induction hmeasure : b.maxAttempts - attempts using Nat.strong_induction_on
    generalizing attempts w with
  | _ left ih =>
    obtain ⟨hle, hfinal⟩ := hbudget
    rw [max_eq_right hmany.le] at hle
    obtain ⟨j, w', hw', hwj, -, htransient, hlast, hcases⟩ := retrying_cases h attempts w
    rw [max_eq_left hmany.le] at hlast
    have hall : ∀ i < j, again (outcomes i) ∨ Transient (outcomes i) := by
      intro i hi
      by_cases hiw : i < sent w
      · exact hsent i hiw
      · exact .inr (htransient i (not_lt.1 hiw) hi)
    rcases hcases with ⟨hfails, hlt, hnext⟩ | ⟨hstop, hlength⟩
    · -- another attempt: the last outcome can only be a response that is not accepted
      have hmore := lt_sent_retrying h (attempts + 1) w'
      rw [← hnext, hw'] at hmore
      have hjagain : again (outcomes j) := by
        rcases hfails with hagain | ⟨error, herror⟩
        · exact hagain
        · by_cases hclass : classify error = .dontRetry
          · exact absurd ⟨error, herror, hclass⟩ (hfinal j hmore)
          · have hj := hlast ⟨error, herror, hclass⟩
            omega
      have hbudget' : WithinBudget b outcomes
          (sent (b.retrying attempt (attempts + 1) w').2) := by
        rw [← hnext]
        exact ⟨hle.trans (le_max_right _ _), hfinal⟩
      refine ih _ (by omega) (by omega) hlt (fun i hi => ?_) (fun heq i hi => ?_) hbudget' rfl
      · rcases Nat.lt_succ_iff_lt_or_eq.1 (hw' ▸ hi) with hij | rfl
        · exact hall i hij
        · exact .inl hjagain
      · rcases Nat.lt_succ_iff_lt_or_eq.1 (hw' ▸ hi) with hij | rfl
        · exact hones (by omega) i (by omega)
        · exact hjagain
    · rw [hlength] at hle
      by_cases hfails : Fails again (outcomes j)
      · -- the caller has used up its attempts, one request each
        have hused := hstop hfails
        have hsame : attempts = sent w := by omega
        have hj : j = b.maxAttempts - 1 := by omega
        refine .inr (.inr ⟨fun i hi => hones hsame i (by omega), fun htr => ?_⟩)
        have hsum := hlast (hj ▸ htr)
        omega
      · exact .inr (.inl ⟨j, by omega, hfails, hall⟩)

/-- The budget is kept for these outcomes and no others. -/
theorem withinBudget_iff (h : Attempts b again outcomes sent attempt)
    (hagain : ∀ outcome, again outcome → ∀ error, outcome ≠ .failed error) {w : W}
    (hw : sent w = 0) :
    WithinBudget b outcomes (sent (b.retrying attempt 0 w).2) ↔ Affordable b again outcomes := by
  have hfinal {outcome : RequestOutcome} (ho : again outcome ∨ Transient outcome) :
      ¬ Deterministic outcome := by
    rintro ⟨error, herror, hclass⟩
    rcases ho with ho | ⟨error', herror', hclass'⟩
    · exact hagain _ ho _ herror
    · cases herror.symm.trans herror'
      exact hclass' hclass
  constructor
  · intro hbudget
    by_cases hmany : 1 < b.maxAttempts
    · exact affordable_of_withinBudget h hmany (Nat.zero_le _) (by omega)
        (fun i hi => absurd hi (by omega)) (fun _ i hi => absurd hi (by omega)) hbudget
    · exact .inl (not_lt.1 hmany)
  · intro haffordable
    by_cases hone : b.maxAttempts ≤ 1
    · obtain ⟨j, w', -, -, hbound, -, -, ⟨-, hlt, -⟩ | ⟨-, hsent⟩⟩ := retrying_cases h 0 w
      · omega
      · rw [WithinBudget, hsent]
        exact ⟨by omega, fun i hi => absurd hi (by omega)⟩
    rcases haffordable.resolve_left hone with ⟨j, hj, hends, hbefore⟩ | ⟨hall, hlast⟩
    · have hsent := sent_of_ends h hj hends hbefore (Nat.zero_le (sent w)) (by omega)
      rw [WithinBudget, hsent]
      exact ⟨by omega, fun i hi => hfinal (hbefore i (by omega))⟩
    · have hresponses (i : ℕ) (hi : i + 1 < b.maxAttempts) :
          ¬ Transient (outcomes i) ∧ Fails again (outcomes i) := by
        refine ⟨?_, .inl (hall i hi)⟩
        rintro ⟨error, herror, -⟩
        exact hagain _ (hall i hi) _ herror
      have hsent := sent_of_again h hresponses hlast hw.symm (by omega)
      rw [WithinBudget, hsent]
      exact ⟨le_max_right _ _, fun i hi => hfinal (.inl (hall i hi))⟩

end Attempts

/-! ### The requests of the program -/

/-- Every response is accepted. -/
def noResponse (_ : RequestOutcome) : Prop := False

/-- A response without rows is not accepted. -/
def withoutRows (outcome : RequestOutcome) : Prop := outcome = .unreadable

/-- What has to be known of an attempt, for each way in which its execution may end. -/
theorem Attempts.of_execute {α W : Type*} {b : Backoff} {again : RequestOutcome → Prop}
    {outcomes : ℕ → RequestOutcome} {sent : W → ℕ} {attempt : W → Except CdmError α × W}
    (h : ∀ w outcome sent', execute b.policy true outcomes (sent w) = (outcome, sent') →
      sent (attempt w).2 = sent' ∧ (∀ e, (attempt w).1 = .error e → e.kind.isRetryable = true) ∧
      ((∃ e, (attempt w).1 = .error e) ↔ Fails again outcome)) :
    Attempts b again outcomes sent attempt where
  sent_eq w := (h w _ _ rfl).1
  retryable w := (h w _ _ rfl).2.1
  error_iff w := (h w _ _ rfl).2.2

theorem attempts_write (b : Backoff) (outcomes : ℕ → RequestOutcome) :
    Attempts b noResponse outcomes id (TargetWriter.writeAttempt b outcomes) := by
  refine .of_execute fun sent outcome sent' hexecute => ?_
  rw [id] at hexecute
  rw [TargetWriter.writeAttempt, hexecute]
  cases outcome <;> simp [Fails, noResponse, CdmError.withSide, ErrorKind.isRetryable]

theorem attempts_lookup (b : Backoff) (outcomes : ℕ → RequestOutcome) :
    Attempts b noResponse outcomes id (TargetWriter.lookupAttempt b outcomes) := by
  refine .of_execute fun sent outcome sent' hexecute => ?_
  rw [id] at hexecute
  rw [TargetWriter.lookupAttempt, hexecute]
  cases outcome <;> simp [Fails, noResponse, CdmError.withSide, ErrorKind.isRetryable]

theorem attempts_page {α : Type*} {pages : List α} (b : Backoff) (outcomes : ℕ → RequestOutcome) :
    Attempts b withoutRows outcomes (Prod.snd : ScanState pages × ℕ → ℕ)
      (ScanState.attempt (execute b.policy true outcomes)) := by
  refine .of_execute fun w outcome sent' hexecute => ?_
  rw [ScanState.attempt, hexecute]
  cases outcome <;>
    simp [Fails, withoutRows, originReadError, CdmError.withSide, ErrorKind.isRetryable]

theorem counterRow_sent {ρ : Type*} (b : Backoff) (row : Option ρ)
    (outcomes : ℕ → RequestOutcome) : (TargetWriter.counterRow b row outcomes).2 =
      (b.retrying (TargetWriter.lookupAttempt b outcomes) 0 0).2 := by
  rcases hloop : b.retrying (TargetWriter.lookupAttempt b outcomes) 0 0 with
    ⟨_ | _ | _ | _, sent⟩ <;> simp [TargetWriter.counterRow, hloop]

/-- **The retry budget.** For each kind of request that is retried, the requests that are sent for
it are within the limit of the configuration, and none is sent again that fails for good, exactly if
the outcomes are affordable. -/
theorem retry_budget {α ρ : Type*} {pages : List α} (b : Backoff) (outcomes : ℕ → RequestOutcome)
    (row : Option ρ) (s : ScanState pages) (hs : s.finished = false) :
    (WithinBudget b outcomes (TargetWriter.retrying b outcomes).2 ↔
      Affordable b noResponse outcomes) ∧
    (WithinBudget b outcomes (TargetWriter.counterRow b row outcomes).2 ↔
      Affordable b noResponse outcomes) ∧
    (WithinBudget s.backoff outcomes
        (ScanState.nextPage (execute s.backoff.policy true outcomes) (s, 0)).2.2 ↔
      Affordable s.backoff withoutRows outcomes) := by
  refine ⟨?_, ?_, ?_⟩
  · exact withinBudget_iff (attempts_write b outcomes) (fun _ h => h.elim) rfl
  · rw [counterRow_sent]
    exact withinBudget_iff (attempts_lookup b outcomes) (fun _ h => h.elim) rfl
  · have hpage : ScanState.nextPage (execute s.backoff.policy true outcomes) (s, 0) =
        s.backoff.retrying (ScanState.attempt (execute s.backoff.policy true outcomes)) 0
          (s, 0) := by
      rw [ScanState.nextPage, hs]
      rfl
    rw [hpage]
    refine withinBudget_iff (attempts_page s.backoff outcomes) (fun outcome h error he => ?_) rfl
    exact absurd (h.symm.trans he) nofun

/-- Three attempts. -/
def thrice : Backoff := ⟨3, by decide⟩

/-- A request that times out, a response without rows, and one with rows. -/
def slowThenEmpty : ℕ → RequestOutcome
  | 0 => .failed .readTimeout
  | 1 => .unreadable
  | _ => .readable

theorem retry_budget_page : WithinBudget thrice slowThenEmpty
    (ScanState.nextPage (execute thrice.policy true slowThenEmpty)
      (ScanState.new thrice [1] [[2]], 0)).2.2 := by
  have hbudget := (retry_budget thrice slowThenEmpty (none : Option ℕ)
    (ScanState.new thrice [1] [[2]]) rfl).2.2
  refine hbudget.2 (.inr (.inl ⟨2, by decide, ?_, fun i hi => ?_⟩))
  · rintro (h | ⟨error, herror⟩)
    · cases h
    · cases herror
  · match i, hi with
    | 0, _ => exact .inr ⟨.readTimeout, rfl, by decide⟩
    | 1, _ => exact .inl rfl

/-- A write that times out whenever it is sent is sent four times, with two attempts configured. -/
theorem not_retry_budget : ¬ ∀ b outcomes,
    WithinBudget b outcomes (TargetWriter.retrying b outcomes).2 := by
  intro h
  have hsent : (TargetWriter.retrying Scan.twice fun _ => .failed .writeTimeout).2 = 4 := by
    decide +kernel
  have hle := (h Scan.twice fun _ => .failed .writeTimeout).1
  rw [hsent] at hle
  exact absurd hle (by decide)

end Cdm
