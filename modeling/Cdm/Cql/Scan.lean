import Cdm.Cql.Retry
import Cdm.LTS.Basic

/-!
# Paging a token range

A scan reads the pages of one range, one page a call, and a call attempts its page again in
place.  An attempt moves the scan on before it looks for the rows of the response.  If there are
none it is made again like one that has failed, but from the next page on: the page whose rows could
not be read is skipped.  On the last page there is no next one, and the attempt is made again from
the same.

The server answers every request with a page, so that it has at least one.
-/

namespace Cdm

variable {α V : Type*} {pages : List α}

/-- Where a scan has got to in the pages of the server. -/
structure ScanState (pages : List α) where
  /-- The paging state: the page that the next request asks for. -/
  position : Fin pages.length
  backoff : Backoff
  finished : Bool
  last_of_finished : finished = true → position + 1 = pages.length

/-- A failure to read the origin. -/
def originReadError (message : String) : CdmError :=
  (⟨.read, message, {}⟩ : CdmError).withSide .origin

namespace ScanState

/-- A scan positioned at the start of the range. -/
def new (backoff : Backoff) (first : α) (rest : List α) : ScanState (first :: rest) :=
  ⟨⟨0, Nat.succ_pos _⟩, backoff, false, nofun⟩

/-- A response has come: its paging state is that of the next page, if there is one. -/
def advance (s : ScanState pages) : ScanState pages :=
  if h : s.position + 1 < pages.length then
    { s with
      position := ⟨s.position + 1, h⟩
      last_of_finished := fun hfinished => absurd (s.last_of_finished hfinished) h.ne }
  else
    { s with
      finished := true
      last_of_finished := fun _ => le_antisymm s.position.isLt (not_lt.1 h) }

/-- One attempt at the current paging state. -/
def attempt (execute : V → RequestOutcome × V) (w : ScanState pages × V) :
    Except CdmError (Option α) × (ScanState pages × V) :=
  match execute w.2 with
  | (.failed _, v) => (.error (originReadError "the origin token-range scan failed"), (w.1, v))
  | (.unreadable, v) =>
    -- the paging state is moved on before the rows are looked for
    (.error (originReadError "the origin page carried no rows section"), (w.1.advance, v))
  | (.readable, v) => (.ok (some (pages.get w.1.position)), (w.1.advance, v))

/-- The next page, retrying a failed page request in place. -/
def nextPage (execute : V → RequestOutcome × V) (w : ScanState pages × V) :
    Except CdmError (Option α) × (ScanState pages × V) :=
  if w.1.finished then (.ok none, w) else w.1.backoff.retrying (attempt execute) 0 w

/-- The outcomes of attempts, one after the other. -/
def inOrder (outcomes : ℕ → RequestOutcome) (i : ℕ) : RequestOutcome × ℕ := (outcomes i, i + 1)

/-- The first response of the call has no rows, is that of a page before the last, and is followed
by another attempt. -/
def Skips (s : ScanState pages) (outcomes : ℕ → RequestOutcome) : Prop :=
  s.position + 1 < pages.length ∧
    ∃ i, i + 1 < s.backoff.maxAttempts ∧ outcomes i = .unreadable ∧
      ∀ j < i, ∃ error, outcomes j = .failed error

instance decidableFailed : ∀ outcome, Decidable (∃ error, outcome = RequestOutcome.failed error)
  | .failed error => .isTrue ⟨error, rfl⟩
  | .unreadable => .isFalse nofun
  | .readable => .isFalse nofun

instance decidableSkips (s : ScanState pages) (outcomes : ℕ → RequestOutcome) :
    Decidable (s.Skips outcomes) :=
  decidable_of_iff (s.position + 1 < pages.length ∧ ∃ i < s.backoff.maxAttempts - 1,
      outcomes i = .unreadable ∧ ∀ j < i, ∃ error, outcomes j = .failed error)
    (and_congr_right fun _ => exists_congr fun _ => and_congr_left fun _ => by omega)

/-- How many pages a scan has behind it. -/
def done (s : ScanState pages) : ℕ := if s.finished then pages.length else s.position

/-! ### One attempt -/

theorem backoff_advance (s : ScanState pages) : s.advance.backoff = s.backoff := by
  unfold advance
  split <;> rfl

theorem position_advance {s : ScanState pages} (h : s.position + 1 < pages.length) :
    (s.advance.position : ℕ) = s.position + 1 := by
  rw [advance, dif_pos h]

theorem position_advance_last {s : ScanState pages} (h : ¬ s.position + 1 < pages.length) :
    s.advance.position = s.position := by
  rw [advance, dif_neg h]

/-- Moving on puts one page more behind the scan. -/
theorem done_advance (s : ScanState pages) : s.advance.done = s.position + 1 := by
  by_cases h : s.position + 1 < pages.length
  · have hfinished : s.finished = false := by
      by_contra hfinished
      exact absurd (s.last_of_finished (Bool.eq_true_of_not_eq_false hfinished)) h.ne
    rw [done, advance, dif_pos h]
    simp only [hfinished, Bool.false_eq_true, if_false]
  · rw [done, advance, dif_neg h]
    simp only [if_true]
    exact le_antisymm (not_lt.1 h) s.position.isLt

theorem done_le (s : ScanState pages) : s.done ≤ pages.length := by
  unfold done
  split
  · exact le_rfl
  · exact s.position.isLt.le

/-- The paging position stays after a failed attempt, unless the response of a page before the last
has no rows. -/
theorem position_attempt {execute : V → RequestOutcome × V} {s s' : ScanState pages} {v v' : V}
    {e : CdmError} (h : attempt execute (s, v) = (.error e, (s', v'))) :
    s'.position = s.position ↔
      ¬ ((execute v).1 = .unreadable ∧ s.position + 1 < pages.length) := by
  unfold attempt at h
  split at h
  · rename_i error v₁ hexecute
    cases h
    simp [hexecute]
  · rename_i v₁ hexecute
    cases h
    by_cases hnext : s.position + 1 < pages.length
    · have hmoved := position_advance hnext
      simp only [hexecute, hnext, and_self, not_true_eq_false, iff_false, Fin.ext_iff, hmoved]
      exact Nat.succ_ne_self _
    · simp only [hexecute, hnext, and_false, not_false_eq_true, iff_true]
      exact position_advance_last hnext
  · cases h

/-! ### One call -/

/-- `Skips` from an attempt in the middle of a call on. -/
def SkipsFrom (s : ScanState pages) (outcomes : ℕ → RequestOutcome) (i : ℕ) : Prop :=
  s.position + 1 < pages.length ∧
    ∃ k, i ≤ k ∧ k + 1 < s.backoff.maxAttempts ∧ outcomes k = .unreadable ∧
      ∀ j, i ≤ j → j < k → ∃ error, outcomes j = .failed error

theorem skipsFrom_zero {s : ScanState pages} {outcomes : ℕ → RequestOutcome} :
    s.SkipsFrom outcomes 0 ↔ s.Skips outcomes := by
  simp [SkipsFrom, Skips]

/-- A failed attempt does not change what is skipped. -/
theorem skipsFrom_succ {s : ScanState pages} {outcomes : ℕ → RequestOutcome} {i : ℕ}
    {error : RequestAttemptError} (h : outcomes i = .failed error) :
    s.SkipsFrom outcomes (i + 1) ↔ s.SkipsFrom outcomes i := by
  constructor
  · rintro ⟨hpage, k, hk, hleft, hunreadable, hfailed⟩
    refine ⟨hpage, k, by omega, hleft, hunreadable, fun j hj hjk => ?_⟩
    rcases hj.eq_or_lt with rfl | hj
    · exact ⟨error, h⟩
    · exact hfailed j hj hjk
  · rintro ⟨hpage, k, hk, hleft, hunreadable, hfailed⟩
    have hne : i ≠ k := by
      rintro rfl
      exact absurd (h.symm.trans hunreadable) nofun
    exact ⟨hpage, k, by omega, hleft, hunreadable, fun j hj hjk => hfailed j (by omega) hjk⟩

/-- Without rows, the page is skipped if there are a next one and another attempt. -/
theorem skipsFrom_of_unreadable {s : ScanState pages} {outcomes : ℕ → RequestOutcome} {i : ℕ}
    (h : outcomes i = .unreadable) :
    s.SkipsFrom outcomes i ↔
      s.position + 1 < pages.length ∧ i + 1 < s.backoff.maxAttempts := by
  constructor
  · rintro ⟨hpage, k, hk, hleft, -⟩
    exact ⟨hpage, by omega⟩
  · rintro ⟨hpage, hleft⟩
    exact ⟨hpage, i, le_rfl, hleft, h, fun j hj hji => absurd hj hji.not_ge⟩

theorem not_skipsFrom_of_readable {s : ScanState pages} {outcomes : ℕ → RequestOutcome} {i : ℕ}
    (h : outcomes i = .readable) : ¬ s.SkipsFrom outcomes i := by
  rintro ⟨-, k, hk, -, hunreadable, hfailed⟩
  rcases hk.eq_or_lt with rfl | hk
  · exact absurd (h.symm.trans hunreadable) nofun
  · obtain ⟨error, herror⟩ := hfailed i le_rfl hk
    exact absurd (h.symm.trans herror) nofun

/-- A page that a call returns is behind the scan then.  It is the page the call has started at
unless a page is skipped. -/
theorem retrying_spec {b : Backoff} {outcomes : ℕ → RequestOutcome} {s s' : ScanState pages}
    {i j : ℕ} {page : Option α} (hb : s.backoff = b)
    (h : b.retrying (attempt (inOrder outcomes)) i (s, i) = (.ok page, (s', j))) :
    ∃ k : Fin pages.length, s.position ≤ k.val ∧ page = some (pages.get k) ∧ s'.done = k + 1 ∧
      (k.val = s.position ↔ ¬ s.SkipsFrom outcomes i) := by
  -- by induction on the attempts that are left
  induction hleft : b.maxAttempts - i using Nat.strong_induction_on generalizing s i with
  | _ left ih =>
    rw [Backoff.retrying] at h
    cases hout : outcomes i with
    | readable =>
      simp only [attempt, inOrder, hout] at h
      cases h
      exact ⟨s.position, le_rfl, rfl, done_advance s,
        iff_of_true rfl (not_skipsFrom_of_readable hout)⟩
    | failed error =>
      simp only [attempt, inOrder, hout] at h
      split_ifs at h with hretry
      · obtain ⟨hcount, hlt⟩ := Backoff.countAttempt_of_shouldRetry hretry
        rw [hcount] at h
        obtain ⟨k, hk, hpage, hdone, hsame⟩ := ih _ (by omega) hb h rfl
        exact ⟨k, hk, hpage, hdone, hsame.trans (not_congr (skipsFrom_succ hout))⟩
      · cases h
    | unreadable =>
      simp only [attempt, inOrder, hout] at h
      split_ifs at h with hretry
      · obtain ⟨hcount, hlt⟩ := Backoff.countAttempt_of_shouldRetry hretry
        rw [hcount] at h
        obtain ⟨k, hk, hpage, hdone, hsame⟩ :=
          ih _ (by omega) ((backoff_advance s).trans hb) h rfl
        by_cases hnext : s.position + 1 < pages.length
        · -- the next attempt is one for the next page
          have hmoved := position_advance hnext
          have hpast : s.position < k.val := by omega
          exact ⟨k, hpast.le, hpage, hdone, iff_of_false hpast.ne' (not_not_intro
            ((skipsFrom_of_unreadable hout).2 ⟨hnext, hb ▸ hlt⟩))⟩
        · have hstays := position_advance_last hnext
          rw [hstays] at hk hsame
          have hskips : ¬ s.SkipsFrom outcomes i := fun hskips => hnext hskips.1
          have hskips' : ¬ s.advance.SkipsFrom outcomes (i + 1) := fun hskips =>
            hnext (hstays ▸ hskips.1)
          exact ⟨k, hk, hpage, hdone, iff_of_true (hsame.2 hskips') hskips⟩
      · cases h

/-- What a call comes to: the end of the range, a page, or an error. -/
theorem nextPage_spec {outcomes : ℕ → RequestOutcome} {s s' : ScanState pages} {j : ℕ}
    {page : Option α} (h : nextPage (inOrder outcomes) (s, 0) = (.ok page, (s', j))) :
    (page = none ∧ s.finished = true ∧ s' = s) ∨
    ∃ k : Fin pages.length, s.done ≤ k ∧ page = some (pages.get k) ∧ s'.done = k + 1 ∧
      (k = s.done ↔ ¬ s.Skips outcomes) := by
  unfold nextPage at h
  split_ifs at h with hfinished
  · cases h
    exact .inl ⟨rfl, hfinished, rfl⟩
  · obtain ⟨k, hk, hpage, hdone, hsame⟩ := retrying_spec rfl h
    have hposition : s.done = s.position := if_neg hfinished
    refine .inr ⟨k, hposition.trans_le hk, hpage, hdone, ?_⟩
    rw [hposition, ← skipsFrom_zero]
    exact hsame

/-- A scan that is finished skips nothing. -/
theorem not_skips_of_finished {s : ScanState pages} (h : s.finished = true)
    (outcomes : ℕ → RequestOutcome) : ¬ s.Skips outcomes :=
  fun hskips => absurd (s.last_of_finished h) hskips.1.ne

end ScanState

/-! ### A range that is read -/

/-- A scan with the pages it has returned. -/
structure Scan (pages : List α) where
  state : ScanState pages
  returned : List α
  /-- The call that returned no page: the range is read, or the call has failed. -/
  ended : Option (Option CdmError)

namespace Scan

open ScanState

def new (backoff : Backoff) (first : α) (rest : List α) : Scan (first :: rest) :=
  ⟨ScanState.new backoff first rest, [], none⟩

/-- The calls of `next_page`, each with what comes of its attempts, until one returns no page. -/
def scan : LTS (Scan pages) (ℕ → RequestOutcome) where
  step s outcomes :=
    match s.ended with
    | some _ => none
    | none =>
      match nextPage (inOrder outcomes) (s.state, 0) with
      | (.ok (some page), (state, _)) => some ⟨state, s.returned ++ [page], none⟩
      | (.ok none, (state, _)) => some ⟨state, s.returned, some none⟩
      | (.error e, (state, _)) => some ⟨state, s.returned, some (some e)⟩

/-- What a call does to a scan. -/
theorem step_cases {s s' : Scan pages} {outcomes : ℕ → RequestOutcome}
    (h : scan.step s outcomes = some s') : s.ended = none ∧
    ((∃ k : Fin pages.length, s.state.done ≤ k ∧ s'.returned = s.returned ++ [pages.get k] ∧
        s'.state.done = k + 1 ∧ s'.ended = none ∧ (k = s.state.done ↔ ¬ s.state.Skips outcomes)) ∨
      (s'.returned = s.returned ∧ s'.state = s.state ∧ s.state.finished = true ∧
        s'.ended = some none) ∨
      ∃ e, s'.returned = s.returned ∧ s'.ended = some (some e)) := by
  simp only [scan] at h
  split at h
  · cases h
  · rename_i hended
    refine ⟨hended, ?_⟩
    split at h
    · rename_i page state j hcall
      cases h
      rcases nextPage_spec hcall with ⟨hnone, -⟩ | ⟨k, hk, hpage, hdone, hsame⟩
      · cases hnone
      · cases hpage
        exact .inl ⟨k, hk, rfl, hdone, rfl, hsame⟩
    · rename_i state j hcall
      cases h
      rcases nextPage_spec hcall with ⟨-, hfinished, rfl⟩ | ⟨k, -, hpage, -⟩
      · exact .inr (.inl ⟨rfl, rfl, hfinished, rfl⟩)
      · cases hpage
    · cases h
      exact .inr (.inr ⟨_, rfl, rfl⟩)

theorem ended_of_exec {s s' : Scan pages} {calls : List (ℕ → RequestOutcome)}
    {e : Option CdmError} (h : scan.exec s calls = some s') (hended : s.ended = some e) :
    calls = [] ∧ s' = s := by
  cases calls with
  | nil => exact ⟨rfl, (Option.some.inj h).symm⟩
  | cons outcomes calls =>
    obtain ⟨t, ht, -⟩ := LTS.exec_cons_eq_some.1 h
    rw [(step_cases ht).1] at hended
    cases hended

/-- Every call but the last one returns a page, so that there are at most as many as pages. -/
theorem length_calls {s s' : Scan pages} {calls : List (ℕ → RequestOutcome)}
    (h : scan.exec s calls = some s') : s.state.done + calls.length ≤ pages.length + 1 := by
  induction calls generalizing s with
  | nil =>
    have hle := s.state.done_le
    rw [List.length_nil]
    omega
  | cons outcomes calls ih =>
    obtain ⟨t, ht, hrest⟩ := LTS.exec_cons_eq_some.1 h
    obtain ⟨-, hcases⟩ := step_cases ht
    rw [List.length_cons]
    rcases hcases with ⟨k, hk, -, hdone, -⟩ | ⟨-, -, -, hended⟩ | ⟨e, -, hended⟩
    · have hcalls := ih hrest
      omega
    · have hle := s.state.done_le
      rw [(ended_of_exec hrest hended).1, List.length_nil]
      omega
    · have hle := s.state.done_le
      rw [(ended_of_exec hrest hended).1, List.length_nil]
      omega

/-- The pages behind the scan are those it has returned, in order, unless a call has failed. -/
structure Exact (s : Scan pages) : Prop where
  returned : (∀ e, s.ended ≠ some (some e)) → s.returned = pages.take s.state.done
  finished : s.ended = some none → s.state.finished = true

theorem Exact.step {s s' : Scan pages} {outcomes : ℕ → RequestOutcome} (h : s.Exact)
    (hskips : ¬ s.state.Skips outcomes) (hstep : scan.step s outcomes = some s') : s'.Exact := by
  obtain ⟨hnone, hcases⟩ := step_cases hstep
  have hbefore := h.returned fun e he => nomatch hnone.symm.trans he
  rcases hcases with ⟨k, -, hreturned, hdone, hended, hsame⟩ |
    ⟨hreturned, hstate, hfinished, hended⟩ | ⟨e, -, hended⟩
  · refine ⟨fun _ => ?_, fun h => absurd (hended.symm.trans h) nofun⟩
    rw [hreturned, hdone, hbefore, ← hsame.2 hskips]
    exact List.take_append_getElem k.isLt
  · refine ⟨fun _ => ?_, fun _ => hstate ▸ hfinished⟩
    rw [hreturned, hstate, hbefore]
  · exact ⟨fun h => absurd hended (h e), fun h => absurd (hended.symm.trans h) nofun⟩

/-- A scan that has returned as many pages as it has behind it has skipped none of them. -/
theorem along_of_length {s s' : Scan pages} {calls : List (ℕ → RequestOutcome)}
    (h : scan.exec s calls = some s') (hended : s'.ended = some none)
    (hle : s.returned.length ≤ s.state.done) (heq : s'.state.done ≤ s'.returned.length) :
    s.state.done = s.returned.length ∧
      scan.Along (fun t outcomes => ¬ t.state.Skips outcomes) s calls := by
  induction calls generalizing s with
  | nil =>
    cases h
    exact ⟨le_antisymm heq hle, trivial⟩
  | cons outcomes calls ih =>
    obtain ⟨t, ht, hrest⟩ := LTS.exec_cons_eq_some.1 h
    obtain ⟨-, ⟨k, hk, hreturned, hdone, -, hsame⟩ | ⟨hreturned, hstate, hfinished, hend⟩ |
      ⟨e, -, hfailed⟩⟩ := step_cases ht
    · have hlength : t.returned.length = s.returned.length + 1 := by
        rw [hreturned, List.length_append, List.length_singleton]
      obtain ⟨hexact, halong⟩ := ih hrest (by omega)
      exact ⟨by omega, LTS.along_cons ht (hsame.1 (by omega)) halong⟩
    · obtain ⟨rfl, rfl⟩ := ended_of_exec hrest hend
      rw [hstate, hreturned] at heq
      exact ⟨le_antisymm heq hle, LTS.along_cons ht (not_skips_of_finished hfinished _) trivial⟩
    · obtain ⟨rfl, rfl⟩ := ended_of_exec hrest hfailed
      cases hfailed.symm.trans hended

/-- **Pages are read once.** However the attempts of the calls end, a scan that comes to the end of
the range has returned the pages of the server, in order, if and only if no call has skipped one; it
does not take more calls than there are pages, and one.  A failed attempt leaves the paging position
as it is, unless it is for a page before the last whose rows could not be read. -/
theorem scan_exact (backoff : Backoff) (first : α) (rest : List α) :
    (∀ calls s, scan.exec (new backoff first rest) calls = some s →
      calls.length ≤ (first :: rest).length + 1 ∧
      (s.ended = some none → (s.returned = first :: rest ↔
        scan.Along (fun t outcomes => ¬ t.state.Skips outcomes) (new backoff first rest) calls))) ∧
    ∀ (execute : V → RequestOutcome × V) (s s' : ScanState (first :: rest)) v v' e,
      attempt execute (s, v) = (.error e, (s', v')) → (s'.position = s.position ↔
        ¬ ((execute v).1 = .unreadable ∧ s.position + 1 < (first :: rest).length)) := by
  refine ⟨fun calls s h => ⟨?_, fun hended => ⟨fun hreturned => ?_, fun halong => ?_⟩⟩,
    fun execute s s' v v' e h => position_attempt h⟩
  · have hcalls := length_calls h
    omega
  · have hdone : s.state.done ≤ s.returned.length := by
      rw [hreturned]
      exact s.state.done_le
    exact (along_of_length h hended (Nat.zero_le _) hdone).2
  · have hexact : s.Exact := LTS.exec_invariant_along h halong
      ⟨fun _ => rfl, nofun⟩ fun _ _ _ ht hskips hstep => ht.step hskips hstep
    have hreturned := hexact.returned fun e he => nomatch hended.symm.trans he
    have hdone : s.state.done = (first :: rest).length := if_pos (hexact.finished hended)
    rw [hreturned, hdone, List.take_length]

/-- Two attempts. -/
def twice : Backoff := ⟨2, by decide⟩

/-- A failure, and then the page. -/
def failedOnce (i : ℕ) : RequestOutcome := if i = 0 then .failed .readTimeout else .readable

/-- A response without rows, and then one with rows. -/
def unreadableOnce (i : ℕ) : RequestOutcome := if i = 0 then .unreadable else .readable

/-- A failure on the first page, an empty page, and a last page whose rows cannot be read at first.
-/
theorem scan_exact_retried : ∃ s,
    scan.exec (new twice [1] [[], [2]]) [failedOnce, fun _ => .readable, unreadableOnce,
      fun _ => .readable] = some s ∧ s.ended = some none ∧ s.returned = [[1], [], [2]] := by
  obtain ⟨s, hs⟩ := Option.isSome_iff_exists.1 (by decide +kernel :
    (scan.exec (new twice [1] [[], [2]]) [failedOnce, fun _ => .readable, unreadableOnce,
      fun _ => .readable]).isSome = true)
  have hended : (scan.exec (new twice [1] [[], [2]]) [failedOnce, fun _ => .readable,
      unreadableOnce, fun _ => .readable]).map Scan.ended = some (some none) := by decide +kernel
  rw [hs, Option.map_some, Option.some.injEq] at hended
  have hexact := ((scan_exact (V := ℕ) twice [1] [[], [2]]).1 _ s hs).2 hended
  exact ⟨s, hs, hended, hexact.2 (by decide +kernel)⟩

/-- The first of two pages is skipped. -/
theorem not_scan_exact : ¬ ∀ calls (s : Scan [[1], [2]]),
    scan.exec (new twice [1] [[2]]) calls = some s → s.ended = some none →
      s.returned = [[1], [2]] := by
  intro h
  obtain ⟨s, hs⟩ := Option.isSome_iff_exists.1 (by decide +kernel :
    (scan.exec (new twice [1] [[2]]) [unreadableOnce, fun _ => .readable]).isSome = true)
  have hvalues : (scan.exec (new twice [1] [[2]]) [unreadableOnce, fun _ => .readable]).map
      (fun s => (s.ended, s.returned)) = some (some none, [[2]]) := by decide +kernel
  rw [hs, Option.map_some, Option.some.injEq, Prod.mk.injEq] at hvalues
  exact absurd ((h _ s hs hvalues.1).symm.trans hvalues.2) (by decide)

end Scan

end Cdm
