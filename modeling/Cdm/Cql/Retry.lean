import Cdm.Core.Error

/-!
# Retries

A request may be sent again on two levels.  The driver asks a `CdmRetrySession`, a new one for each
execution, whether and where to send a request that has failed; the caller executes the statement
again as long as its `Backoff` allows another attempt and the error is one that a retry could fix.
The delays between the attempts of the caller are left out.

What happens to a request is decided outside of the program: `Backoff.retrying` is about any attempt
that takes what is still to happen and gives back its outcome and what then is still to happen.
-/

namespace Cdm

/-! ### The attempts of the caller -/

/-- The attempts that `perfops.retry` allows. -/
structure Backoff where
  /-- How many attempts may be made in total, including the first. -/
  maxAttempts : ℕ
  maxAttempts_le : maxAttempts ≤ u32Max
  deriving DecidableEq, Repr

/-- One more attempt, as a `u32`. -/
def countAttempt (attempts : ℕ) : ℕ := min (attempts + 1) u32Max

namespace Backoff

variable {α W : Type*}

/-- Whether another attempt is allowed after `attempts` have been made. -/
def mayRetry (b : Backoff) (attempts : ℕ) : Bool := attempts < b.maxAttempts

/-- Whether to retry `error` after `attempts` tries. -/
def shouldRetry (b : Backoff) (error : CdmError) (attempts : ℕ) : Bool :=
  b.mayRetry attempts && error.kind.isRetryable

theorem countAttempt_of_shouldRetry {b : Backoff} {error : CdmError} {attempts : ℕ}
    (h : b.shouldRetry error (countAttempt attempts) = true) :
    countAttempt attempts = attempts + 1 ∧ attempts + 1 < b.maxAttempts := by
  rw [shouldRetry, mayRetry, Bool.and_eq_true, decide_eq_true_eq] at h
  have hle := b.maxAttempts_le
  have hlt := h.1
  unfold countAttempt at hlt ⊢
  omega

/-- Attempts until one succeeds or the last one has failed; `attempts` of them are made already. -/
def retrying (b : Backoff) (attempt : W → Except CdmError α × W) (attempts : ℕ) (w : W) :
    Except CdmError α × W :=
  match attempt w with
  | (.ok a, w) => (.ok a, w)
  | (.error e, w) =>
    if b.shouldRetry e (countAttempt attempts) then
      b.retrying attempt (countAttempt attempts) w
    else (.error e, w)
termination_by b.maxAttempts - attempts
decreasing_by
  have h := countAttempt_of_shouldRetry ‹_›
  omega

end Backoff

/-! ### The policy of the driver -/

/-- Why a request failed, as the policy tells errors apart. -/
inductive RequestAttemptError
  | readTimeout
  | writeTimeout
  | unavailable
  | overloaded
  | isBootstrapping
  | serverError
  | truncateError
  | brokenConnection
  | unableToAllocStreamId
  /-- A syntax error, an unauthorised statement, and all others. -/
  | other (text : String)
  deriving DecidableEq, Repr

inductive RetryDecision
  | retrySameTarget
  | retryNextTarget
  | dontRetry
  | ignoreWriteError
  deriving DecidableEq, Repr

/-- Whether an error is worth another attempt, and where. -/
def classify : RequestAttemptError → RetryDecision
  | .readTimeout | .writeTimeout | .unavailable | .overloaded | .isBootstrapping | .serverError
  | .truncateError | .brokenConnection | .unableToAllocStreamId => .retryNextTarget
  | .other _ => .dontRetry

/-- A policy allowing this many attempts in total, including the first. -/
structure CdmRetryPolicy where
  maxAttempts : ℕ
  deriving DecidableEq, Repr

/-- One execution's worth of retry state. -/
structure CdmRetrySession where
  attempts : ℕ
  maxAttempts : ℕ
  deriving DecidableEq, Repr

def CdmRetryPolicy.new (maxAttempts : ℕ) : CdmRetryPolicy := ⟨max maxAttempts 1⟩

def CdmRetryPolicy.newSession (policy : CdmRetryPolicy) : CdmRetrySession := ⟨1, policy.maxAttempts⟩

namespace CdmRetrySession

/-- The decision about a failed request. -/
def decide (s : CdmRetrySession) (isIdempotent : Bool) (error : RequestAttemptError) :
    RetryDecision × CdmRetrySession :=
  -- nothing is counted for a request that is not idempotent
  if !isIdempotent then (.dontRetry, s)
  else if s.maxAttempts ≤ s.attempts then (.dontRetry, s)
  else if classify error ≠ .dontRetry then (classify error, { s with attempts := s.attempts + 1 })
  else (classify error, s)

/-- A request is sent again only while there are attempts left. -/
theorem decide_of_ne {s : CdmRetrySession} {isIdempotent : Bool} {error : RequestAttemptError}
    (h : (s.decide isIdempotent error).1 ≠ .dontRetry) :
    s.attempts < s.maxAttempts ∧
      (s.decide isIdempotent error).2 = { s with attempts := s.attempts + 1 } := by
  unfold decide at h ⊢
  split_ifs at h ⊢ with hidempotent hused hclass
  · exact absurd rfl h
  · exact absurd rfl h
  · exact ⟨not_le.1 hused, rfl⟩
  · exact absurd (not_not.1 hclass) h

end CdmRetrySession

/-- What comes back for a request, or for a whole execution: a failure, or a response whose rows can
be read or not. -/
inductive RequestOutcome
  | failed (error : RequestAttemptError)
  | unreadable
  | readable
  deriving DecidableEq, Repr

/-- The requests of one execution, from the request `sent` on: the driver sends the next one exactly
when the session tells it to. -/
def executeFrom (isIdempotent : Bool) (outcomes : ℕ → RequestOutcome) (session : CdmRetrySession)
    (sent : ℕ) : RequestOutcome × ℕ :=
  match outcomes sent with
  | .readable => (.readable, sent + 1)
  | .unreadable => (.unreadable, sent + 1)
  | .failed error =>
    if (session.decide isIdempotent error).1 = .dontRetry then (.failed error, sent + 1)
    else executeFrom isIdempotent outcomes (session.decide isIdempotent error).2 (sent + 1)
termination_by session.maxAttempts - session.attempts
decreasing_by
  have h := CdmRetrySession.decide_of_ne ‹_›
  rw [h.2]
  exact Nat.sub_succ_lt_self _ _ h.1

/-- One execution, with a new session. -/
def execute (policy : CdmRetryPolicy) (isIdempotent : Bool) (outcomes : ℕ → RequestOutcome)
    (sent : ℕ) : RequestOutcome × ℕ :=
  executeFrom isIdempotent outcomes policy.newSession sent

end Cdm
