import Mathlib.Algebra.Order.Group.Unbundled.Basic
import Mathlib.Algebra.Order.BigOperators.Group.List
import Mathlib.Tactic.Abel
import Mathlib.Tactic.GCongr

/-!
# Pacing work by its theoretical arrival time

A server is paced by the instant at which the work taken on so far is paid for: work that arrives
moves the instant, or its own arrival if that is later, by its cost, and starts a fixed burst before
the instant it is due.  Costs are at most the burst.
-/

namespace Pacing

variable {T : Type*} [AddCommGroup T] [LinearOrder T] [IsOrderedAddMonoid T]

/-- Work that arrives at a time. -/
structure Job (T : Type*) where
  time : T
  cost : T

/-- When a job is paid for, if the work before it is at `tat`. -/
def due (tat : T) (job : Job T) : T := max tat job.time + job.cost

/-- When a job starts. -/
def start (burst tat : T) (job : Job T) : T := max job.time (due tat job - burst)

/-- When the jobs start, and what they cost. -/
def starts (burst tat : T) : List (Job T) → List (T × T)
  | [] => []
  | job :: jobs => (start burst tat job, job.cost) :: starts burst (due tat job) jobs

/-- What starts between two instants. -/
def within (first last : T) (started : List (T × T)) : List (T × T) :=
  started.filter fun work => first ≤ work.1 ∧ work.1 ≤ last

variable {burst tat : T}

/-- A job that starts from an instant on is due no earlier than its cost behind it. -/
theorem le_max_of_le_start {first : T} {job : Job T} (hcost : job.cost ≤ burst)
    (h : first ≤ start burst tat job) : first ≤ max tat job.time := by
  rcases le_max_iff.1 h with htime | hdue
  · exact htime.trans (le_max_right _ _)
  · refine hdue.trans ?_
    rw [due, add_sub_assoc]
    exact add_le_of_nonpos_right (sub_nonpos.2 hcost)

/-- What starts in a window, from any state on, is paid for between the state and the end of the
window. -/
theorem sum_within_le {first last : T} {jobs : List (Job T)}
    (hcost : ∀ job ∈ jobs, 0 ≤ job.cost ∧ job.cost ≤ burst) (tat : T) :
    ((within first last (starts burst tat jobs)).map Prod.snd).sum ≤
      max 0 (last + burst - max tat first) := by
  induction jobs generalizing tat with
  | nil => exact le_max_left _ _
  | cons job jobs ih =>
    rw [List.forall_mem_cons] at hcost
    obtain ⟨⟨hpos, hle⟩, hjobs⟩ := hcost
    have htail := ih hjobs (due tat job)
    have hdue : tat ≤ due tat job :=
      (le_max_left _ _).trans (le_add_of_nonneg_right hpos)
    rw [starts, within, List.filter_cons]
    split_ifs with hin
    · -- the job is in the window, so it is paid for after its start and before its end
      obtain ⟨hfirst, hlast⟩ := of_decide_eq_true hin
      have hmax := le_max_of_le_start hle hfirst
      have hend : due tat job ≤ last + burst :=
        sub_le_iff_le_add.1 ((le_max_right _ _).trans hlast)
      have hstate : max (due tat job) first = due tat job :=
        max_eq_left (hmax.trans (le_add_of_nonneg_right hpos))
      rw [hstate, max_eq_right (sub_nonneg.2 hend)] at htail
      rw [List.map_cons, List.sum_cons]
      calc job.cost + ((within first last (starts burst (due tat job) jobs)).map Prod.snd).sum
          ≤ job.cost + (last + burst - due tat job) := by gcongr
        _ = last + burst - max tat job.time := by rw [due]; abel
        _ ≤ last + burst - max tat first :=
          sub_le_sub_left (max_le (le_max_left _ _) hmax) _
        _ ≤ _ := le_max_right _ _
    · exact htail.trans (max_le_max_left _ (sub_le_sub_left (max_le_max_right _ hdue) _))

/-- **The envelope.**  What starts in a window costs at most its length and the burst. -/
theorem sum_cost_le {length : T} (hlength : 0 ≤ length + burst) {jobs : List (Job T)}
    (hcost : ∀ job ∈ jobs, 0 ≤ job.cost ∧ job.cost ≤ burst) (tat first : T) :
    ((within first (first + length) (starts burst tat jobs)).map Prod.snd).sum ≤
      length + burst := by
  refine (sum_within_le hcost tat).trans (max_le hlength ?_)
  calc first + length + burst - max tat first ≤ first + length + burst - first := by
        gcongr
        exact le_max_right _ _
    _ = length + burst := by abel

/-- What arrives from an instant on starts no earlier than that, and than the work before it. -/
theorem le_of_mem_starts {bound : T} {jobs : List (Job T)} (hcost : ∀ job ∈ jobs, 0 ≤ job.cost)
    (hbound : ∀ job ∈ jobs, bound ≤ job.time) {work : T × T} (h : work ∈ starts burst tat jobs) :
    max bound (tat - burst) ≤ work.1 := by
  induction jobs generalizing tat with
  | nil => exact absurd h List.not_mem_nil
  | cons job jobs ih =>
    rw [List.forall_mem_cons] at hcost hbound
    have hdue : tat ≤ due tat job :=
      (le_max_left _ _).trans (le_add_of_nonneg_right hcost.1)
    rcases List.mem_cons.1 h with rfl | h
    · exact max_le_max hbound.1 (sub_le_sub_right hdue _)
    · exact (max_le_max_left _ (sub_le_sub_right hdue _)).trans (ih hcost.2 hbound.2 h)

/-- Jobs that arrive in order start in order. -/
theorem pairwise_starts {jobs : List (Job T)} (hcost : ∀ job ∈ jobs, 0 ≤ job.cost)
    (hsorted : jobs.Pairwise fun job next => job.time ≤ next.time) (burst tat : T) :
    (starts burst tat jobs).Pairwise fun work next => work.1 ≤ next.1 := by
  induction jobs generalizing tat with
  | nil => exact List.Pairwise.nil
  | cons job jobs ih =>
    rw [List.forall_mem_cons] at hcost
    rw [List.pairwise_cons] at hsorted
    exact List.pairwise_cons.2
      ⟨fun work hwork => le_of_mem_starts hcost.2 hsorted.1 hwork, ih hcost.2 hsorted.2 _⟩

end Pacing
