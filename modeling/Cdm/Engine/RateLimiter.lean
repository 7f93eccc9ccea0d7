import Cdm.Core.Domain
import Cdm.LTS.Machine
import Cdm.Lib.Pacing
import Mathlib.Algebra.Order.Group.Int
import Mathlib.Data.Nat.Cast.Order.Basic
import Mathlib.Algebra.BigOperators.Group.List.Lemmas

/-!
# The rate limiter

`RateLimiter` keeps the instant at which the rows reserved so far are paid for.  A reservation of
rows moves it by their cost and is told how long to wait: until its own rows are due, less the burst
of one second.  Instants are picoseconds, in 128 bits that the additions stay within by saturating.
-/

namespace Cdm

open List

/-- Picoseconds in one second. -/
def picosPerSecond : ℕ := 1000000000000

/-- A token bucket of rows per second.  A rate of `0` is no limit. -/
structure RateLimiter where
  rowsPerSecond : ℕ
  burstPicos : ℕ
  /-- The theoretical arrival time, which the lock guards. -/
  tat : ℕ
  deriving DecidableEq, Repr

/-- A call of `reserve`: so many rows, at a time. -/
structure Reservation where
  rows : ℕ
  now : ℕ
  deriving DecidableEq, Repr

namespace RateLimiter

/-- A limiter with one second of burst. -/
def new (rowsPerSecond : ℕ) : RateLimiter := ⟨rowsPerSecond, picosPerSecond, 0⟩

/-- What a row costs, in picoseconds. -/
def picosPerRow (rate : ℕ) : ℕ := picosPerSecond / rate

/-- Reserves rows: the limiter after it, and the delay before they come due. -/
def reserve (limiter : RateLimiter) (rows now : ℕ) : RateLimiter × ℕ :=
  if limiter.rowsPerSecond = 0 ∨ rows = 0 then (limiter, 0)
  else
    let cost := min u128Max (picosPerRow limiter.rowsPerSecond * rows)
    let due := min u128Max (max limiter.tat now + cost)
    ({ limiter with tat := due }, due - limiter.burstPicos - now)

/-- The reservations, in the order in which they take the lock. -/
def reservations : Machine RateLimiter Reservation ℕ where
  step limiter call := limiter.reserve call.rows call.now

/-- When the rows of the reservations start, and how many they are. -/
def started (limiter : RateLimiter) (calls : List Reservation) : List (ℕ × ℕ) :=
  List.zipWith (fun call delay => (call.now + delay, call.rows)) calls
    (reservations.replies limiter calls)

/-- The rows that start between two instants. -/
def rowsWithin (first last : ℕ) (work : List (ℕ × ℕ)) : ℕ :=
  ((work.filter fun rows => first ≤ rows.1 ∧ rows.1 ≤ last).map Prod.snd).sum

/-- What is reserved and not paid for at a time, a further reservation included. -/
def backlog (limiter : RateLimiter) (call : Reservation) : ℕ :=
  max limiter.tat call.now + picosPerRow limiter.rowsPerSecond * call.rows - call.now

/-- What the rows of the reservations cost. -/
def totalCost (rate : ℕ) (calls : List Reservation) : ℕ :=
  (calls.map fun call => picosPerRow rate * call.rows).sum

/-- No reservation comes due behind the last instant of the type, were the limiter idle at it. -/
def Fits (rate : ℕ) : List Reservation → Prop
  | [] => True
  | call :: calls => call.now + totalCost rate (call :: calls) ≤ u128Max ∧ Fits rate calls

instance decidableFits (rate : ℕ) : ∀ calls, Decidable (Fits rate calls)
  | [] => .isTrue trivial
  | call :: calls =>
    have := decidableFits rate calls
    inferInstanceAs (Decidable (call.now + totalCost rate (call :: calls) ≤ u128Max ∧ _))

theorem started_cons (limiter : RateLimiter) (call : Reservation) (calls : List Reservation) :
    limiter.started (call :: calls) =
      (call.now + (limiter.reserve call.rows call.now).2, call.rows) ::
        (limiter.reserve call.rows call.now).1.started calls := rfl

theorem rowsWithin_cons (first last : ℕ) (rows : ℕ × ℕ) (work : List (ℕ × ℕ)) :
    rowsWithin first last (rows :: work) =
      (if first ≤ rows.1 ∧ rows.1 ≤ last then rows.2 else 0) + rowsWithin first last work := by
  rw [rowsWithin, filter_cons]
  simp only [decide_eq_true_eq]
  split_ifs
  · rw [map_cons, sum_cons, rowsWithin]
  · rw [Nat.zero_add, rowsWithin]

theorem rowsWithin_append (first last : ℕ) (work work' : List (ℕ × ℕ)) :
    rowsWithin first last (work ++ work') =
      rowsWithin first last work + rowsWithin first last work' := by
  rw [rowsWithin, filter_append, map_append, sum_append, rowsWithin, rowsWithin]

theorem totalCost_cons (rate : ℕ) (call : Reservation) (calls : List Reservation) :
    totalCost rate (call :: calls) = picosPerRow rate * call.rows + totalCost rate calls := by
  rw [totalCost, map_cons, sum_cons, totalCost]

theorem picosPerRow_pos {rate : ℕ} (hpos : 0 < rate) (hmax : rate ≤ u32Max) :
    0 < picosPerRow rate := by
  refine Nat.div_pos ?_ hpos
  simp only [u32Max, picosPerSecond] at *
  omega

/-- So many rows as the rate has cost one second at most. -/
theorem cost_le {rate rows : ℕ} (h : rows ≤ rate) : picosPerRow rate * rows ≤ picosPerSecond :=
  (Nat.mul_le_mul_left _ h).trans (Nat.div_mul_le_self _ _)

/-! ### What one reservation does -/

theorem reserve_of_rows_eq_zero (limiter : RateLimiter) (now : ℕ) :
    limiter.reserve 0 now = (limiter, 0) := if_pos (.inr rfl)

/-- A reservation within the 128 bits. -/
theorem reserve_eq {limiter : RateLimiter} {rows now : ℕ} (hrate : limiter.rowsPerSecond ≠ 0)
    (hrows : rows ≠ 0)
    (hfits : max limiter.tat now + picosPerRow limiter.rowsPerSecond * rows ≤ u128Max) :
    limiter.reserve rows now =
      ({ limiter with tat := max limiter.tat now + picosPerRow limiter.rowsPerSecond * rows },
        max limiter.tat now + picosPerRow limiter.rowsPerSecond * rows -
          limiter.burstPicos - now) := by
  have hcost : min u128Max (picosPerRow limiter.rowsPerSecond * rows) =
      picosPerRow limiter.rowsPerSecond * rows := min_eq_right (by omega)
  rw [reserve, if_neg (not_or.2 ⟨hrate, hrows⟩), hcost]
  dsimp only
  rw [min_eq_right hfits]

/-- The delay is what the backlog exceeds the burst by, at most. -/
theorem reserve_delay_le (limiter : RateLimiter) (call : Reservation) :
    (limiter.reserve call.rows call.now).2 ≤ limiter.backlog call - limiter.burstPicos := by
  rw [reserve, backlog]
  split_ifs
  · exact Nat.zero_le _
  · dsimp only
    omega

/-- A reservation leaves the rate and the burst as they are. -/
theorem reserve_settings (limiter : RateLimiter) (rows now : ℕ) :
    (limiter.reserve rows now).1.rowsPerSecond = limiter.rowsPerSecond ∧
      (limiter.reserve rows now).1.burstPicos = limiter.burstPicos := by
  rw [reserve]
  split_ifs <;> exact ⟨rfl, rfl⟩

theorem run_settings (limiter : RateLimiter) (calls : List Reservation) :
    (reservations.run limiter calls).rowsPerSecond = limiter.rowsPerSecond ∧
      (reservations.run limiter calls).burstPicos = limiter.burstPicos := by
  refine Machine.run_invariant (I := fun after : RateLimiter =>
    after.rowsPerSecond = limiter.rowsPerSecond ∧ after.burstPicos = limiter.burstPicos) ?_
    ⟨rfl, rfl⟩
  rintro after call - ⟨hrate, hburst⟩
  obtain ⟨hrate', hburst'⟩ := after.reserve_settings call.rows call.now
  exact ⟨hrate'.trans hrate, hburst'.trans hburst⟩

/-! ### The limiter paces its reservations -/

/-- The reservations that take rows, as jobs. -/
def jobs (rate : ℕ) (calls : List Reservation) : List (Pacing.Job ℤ) :=
  (calls.filter fun call => call.rows ≠ 0).map fun call =>
    ⟨call.now, (picosPerRow rate * call.rows : ℕ)⟩

/-- A start with the cost of its rows. -/
def costed (rate : ℕ) (rows : ℕ × ℕ) : ℤ × ℤ := (rows.1, (picosPerRow rate * rows.2 : ℕ))

/-- The rows of a run start when their jobs do. -/
theorem map_started {rate : ℕ} (hpos : 0 < rate) {limiter : RateLimiter}
    (hrate : limiter.rowsPerSecond = rate) (hburst : limiter.burstPicos = picosPerSecond)
    {calls : List Reservation} (hfits : Fits rate calls)
    (htat : limiter.tat + totalCost rate calls ≤ u128Max) :
    ((limiter.started calls).filter fun rows => rows.2 ≠ 0).map (costed rate) =
      Pacing.starts (picosPerSecond : ℤ) limiter.tat (jobs rate calls) := by
  induction calls generalizing limiter with
  | nil => rfl
  | cons call calls ih =>
    obtain ⟨hcall, hfits⟩ := hfits
    rw [totalCost_cons] at hcall htat
    by_cases hrows : call.rows = 0
    · -- no rows: neither the limiter nor the jobs change
      have hreserve : limiter.reserve call.rows call.now = (limiter, 0) := by
        rw [hrows, reserve_of_rows_eq_zero]
      have hjobs : jobs rate (call :: calls) = jobs rate calls := by
        rw [jobs, filter_cons_of_neg (by simpa using hrows), jobs]
      rw [started_cons, hreserve, filter_cons_of_neg (by simpa using hrows), hjobs]
      exact ih hrate hburst hfits ((Nat.add_le_add_left (Nat.le_add_left _ _) _).trans htat)
    · -- the instant that is due is that of the job, as nothing saturates
      have hmax : max limiter.tat call.now + picosPerRow rate * call.rows ≤ u128Max := by omega
      have hreserve := reserve_eq (hrate ▸ hpos.ne') hrows (hrate.symm ▸ hmax)
      have hjobs : jobs rate (call :: calls) =
          ⟨call.now, (picosPerRow rate * call.rows : ℕ)⟩ :: jobs rate calls := by
        rw [jobs, filter_cons_of_pos (by simpa using hrows), map_cons, jobs]
      have hdue : Pacing.due (limiter.tat : ℤ) ⟨call.now, (picosPerRow rate * call.rows : ℕ)⟩ =
          (max limiter.tat call.now + picosPerRow rate * call.rows : ℕ) := by
        rw [Pacing.due, Nat.cast_add]
        dsimp only
        omega
      have hstart : ((call.now + (max limiter.tat call.now + picosPerRow rate * call.rows -
          picosPerSecond - call.now) : ℕ) : ℤ) =
          max (call.now : ℤ) ((max limiter.tat call.now + picosPerRow rate * call.rows : ℕ) -
            picosPerSecond) := by
        omega
      rw [hrate, hburst] at hreserve
      rw [started_cons, hreserve, filter_cons_of_pos (by simpa using hrows), map_cons,
        hjobs, Pacing.starts, Pacing.start, hdue]
      refine congrArg₂ List.cons (congrArg₂ Prod.mk hstart rfl) ?_
      exact ih rfl rfl hfits (by dsimp only; omega)

/-- What the rows that start in a window cost. -/
theorem sum_within (rate first last : ℕ) (work : List (ℕ × ℕ)) :
    ((Pacing.within (first : ℤ) last
      ((work.filter fun rows => rows.2 ≠ 0).map (costed rate))).map Prod.snd).sum =
        (picosPerRow rate * rowsWithin first last work : ℕ) := by
  induction work with
  | nil => rfl
  | cons rows work ih =>
    rw [rowsWithin_cons]
    by_cases hrows : rows.2 = 0
    · rw [filter_cons_of_neg (by simpa using hrows), ih, hrows, ite_self, Nat.zero_add]
    · rw [filter_cons_of_pos (by simpa using hrows), map_cons, Pacing.within,
        filter_cons]
      rw [Pacing.within] at ih
      simp only [costed, Nat.cast_le]
      split_ifs <;> simp_all [Nat.mul_add]

/-! ### The envelope -/

theorem Fits.total_le {rate : ℕ} {calls : List Reservation} (h : Fits rate calls) :
    totalCost rate calls ≤ u128Max := by
  cases calls with
  | nil => exact Nat.zero_le _
  | cons call calls => exact (Nat.le_add_left _ _).trans h.1

/-- **The envelope.**  The rows that start in a window are those of its length and of one second
more at most, rows start in the order of their reservations, and a reservation waits only where more
than one second is reserved. -/
theorem envelope {rate : ℕ} (hpos : 0 < rate) (hmax : rate ≤ u32Max) {calls : List Reservation}
    (hrows : ∀ call ∈ calls, call.rows ≤ rate)
    (hsorted : calls.Pairwise fun call next => call.now ≤ next.now) (hfits : Fits rate calls) :
    (∀ first length, rowsWithin first (first + length) ((new rate).started calls) ≤
        (length + picosPerSecond) / picosPerRow rate) ∧
      (((new rate).started calls).filter fun rows => rows.2 ≠ 0).Pairwise
        (fun rows next => rows.1 ≤ next.1) ∧
      ∀ before call after, calls = before ++ call :: after →
        (reservations.run (new rate) before).backlog call ≤ picosPerSecond →
          ((reservations.run (new rate) before).reserve call.rows call.now).2 = 0 := by
  have hstarts : (((new rate).started calls).filter fun rows => rows.2 ≠ 0).map (costed rate) =
      Pacing.starts (picosPerSecond : ℤ) 0 (jobs rate calls) :=
    map_started hpos rfl rfl hfits (by simpa [new] using hfits.total_le)
  have hcost : ∀ job ∈ jobs rate calls, 0 ≤ job.cost ∧ job.cost ≤ (picosPerSecond : ℤ) := by
    intro job hjob
    obtain ⟨call, hcall, rfl⟩ := mem_map.1 hjob
    have hle := cost_le (hrows call (mem_of_mem_filter hcall))
    exact ⟨Int.natCast_nonneg _, Int.ofNat_le.2 hle⟩
  refine ⟨fun first length => ?_, ?_, ?_⟩
  · have hsum := sum_within rate first (first + length) ((new rate).started calls)
    have hlength : (0 : ℤ) ≤ length + picosPerSecond :=
      Int.add_nonneg (Int.natCast_nonneg _) (Int.natCast_nonneg _)
    have hle := Pacing.sum_cost_le hlength hcost 0 first
    rw [hstarts, Nat.cast_add] at hsum
    rw [hsum] at hle
    rw [Nat.le_div_iff_mul_le (picosPerRow_pos hpos hmax), Nat.mul_comm]
    exact_mod_cast hle
  · have htimes : (jobs rate calls).Pairwise fun job next => job.time ≤ next.time :=
      pairwise_map.2 ((hsorted.filter _).imp Int.ofNat_le.2)
    have hpairwise := Pacing.pairwise_starts (fun job hjob => (hcost job hjob).1) htimes
      picosPerSecond 0
    rw [← hstarts, pairwise_map] at hpairwise
    exact hpairwise.imp Int.ofNat_le.1
  · rintro before call after - hbacklog
    have hdelay := (reservations.run (new rate) before).reserve_delay_le call
    rw [((new rate).run_settings before).2] at hdelay
    exact Nat.le_zero.1 (hdelay.trans_eq (Nat.sub_eq_zero_of_le hbacklog))

/-- Three rows a second, a whole burst and two rows a second later. -/
theorem envelope_burst :
    rowsWithin 0 (0 + picosPerSecond) ((new 3).started [⟨3, 0⟩, ⟨2, picosPerSecond⟩]) ≤
      (picosPerSecond + picosPerSecond) / picosPerRow 3 :=
  (envelope (by decide) (by decide) (by decide) (by decide) (by decide)).1 0 picosPerSecond

/-! ### Outside the envelope -/

theorem started_append (limiter : RateLimiter) (calls calls' : List Reservation) :
    limiter.started (calls ++ calls') =
      limiter.started calls ++ (reservations.run limiter calls).started calls' := by
  induction calls generalizing limiter with
  | nil => rfl
  | cons call calls ih =>
    rw [cons_append, started_cons, started_cons, ih, cons_append]
    rfl

/-- One row after the other, all at the first instant. -/
theorem run_replicate {tat : ℕ} (htat : tat ≤ u128Max) (n : ℕ) :
    reservations.run ⟨1, picosPerSecond, tat⟩ (List.replicate n ⟨1, 0⟩) =
      ⟨1, picosPerSecond, min u128Max (tat + n * picosPerSecond)⟩ := by
  induction n generalizing tat with
  | zero => rw [replicate_zero, Nat.zero_mul, Nat.add_zero, min_eq_right htat, Machine.run]
  | succ n ih =>
    have hcost : min u128Max (picosPerRow 1 * 1) = picosPerSecond := by decide
    have hstep : (reservations.step ⟨1, picosPerSecond, tat⟩ ⟨1, 0⟩).1 =
        ⟨1, picosPerSecond, min u128Max (tat + picosPerSecond)⟩ := by
      change (reserve ⟨1, picosPerSecond, tat⟩ 1 0).1 = _
      rw [reserve, if_neg (by simp)]
      dsimp only
      rw [Nat.max_zero, hcost]
    rw [replicate_succ, Machine.run, hstep, ih (min_le_left _ _), Nat.succ_mul]
    refine congrArg (RateLimiter.mk 1 picosPerSecond) ?_
    omega

/-- A reservation of no rows starts at once, before the rows that wait; and where the instants end
all rows start together. -/
theorem not_envelope :
    ¬ ((new 1).started [⟨1, 0⟩, ⟨1, 0⟩, ⟨0, 0⟩]).Pairwise (fun rows next => rows.1 ≤ next.1) ∧
      ¬ rowsWithin (u128Max - picosPerSecond) (u128Max - picosPerSecond + 0)
          ((new 1).started (List.replicate (2 ^ 89 + 2) ⟨1, 0⟩)) ≤
        (0 + picosPerSecond) / picosPerRow 1 := by
  refine ⟨by decide, ?_⟩
  -- so many rows that the arrival time is the last instant of the type
  have hrun : reservations.run (new 1) (List.replicate (2 ^ 89) ⟨1, 0⟩) =
      ⟨1, picosPerSecond, u128Max⟩ := by
    rw [new, run_replicate (Nat.zero_le _), Nat.zero_add, min_eq_left (by decide)]
  have hlast : rowsWithin (u128Max - picosPerSecond) (u128Max - picosPerSecond + 0)
      (started ⟨1, picosPerSecond, u128Max⟩ (List.replicate 2 ⟨1, 0⟩)) = 2 := by
    decide
  have hone : (0 + picosPerSecond) / picosPerRow 1 = 1 := by decide
  rw [replicate_add, started_append, rowsWithin_append, hrun, hlast, hone]
  omega

end RateLimiter

end Cdm
