import Mathlib.Data.List.Basic

/-!
# Machines that answer calls

A component with a call interface is a machine: a state, and a function that gives for a state and a
call the next state and the reply.  Two machines with the same interface are compared by their
replies to a whole list of calls.
-/

/-- A machine with states `S`, calls `C` and replies `R`. -/
structure Machine (S C R : Type*) where
  /-- The state after a call, and the reply to it. -/
  step : S → C → S × R

namespace Machine

variable {S T C R : Type*} (M : Machine S C R)

/-- The state after a list of calls. -/
def run (s : S) : List C → S
  | [] => s
  | c :: cs => run (M.step s c).1 cs

/-- The replies to a list of calls. -/
def replies (s : S) : List C → List R
  | [] => []
  | c :: cs => (M.step s c).2 :: replies (M.step s c).1 cs

/-- Every call is made in a state, and with an argument, that satisfy `P`. -/
def Along (P : S → C → Prop) (s : S) : List C → Prop
  | [] => True
  | c :: cs => P s c ∧ Along P (M.step s c).1 cs

/-- A machine whose calls may fail, and then leave the state alone; the reply is the error. -/
def ofFallible {E : Type*} (f : S → C → Except E S) : Machine S C (Option E) where
  step s c :=
    match f s c with
    | .ok s' => (s', none)
    | .error e => (s, some e)

variable {M} {N : Machine T C R}

/-- **Replies that agree step by step.**  From related states the two machines reply the same to a
list of calls exactly when every call of it meets `P`, if `P` says exactly when one step of the two
gives the same reply, and such a step leads to related states again. -/
theorem replies_eq_iff {Rel : S → T → Prop} {P : S → C → Prop}
    (hreply : ∀ s t c, Rel s t → ((M.step s c).2 = (N.step t c).2 ↔ P s c))
    (hnext : ∀ s t c, Rel s t → P s c → Rel (M.step s c).1 (N.step t c).1)
    {s : S} {t : T} (h : Rel s t) (cs : List C) :
    M.replies s cs = N.replies t cs ↔ M.Along P s cs := by
  induction cs generalizing s t with
  | nil => simp [replies, Along]
  | cons c cs ih =>
    rw [replies, replies, Along, List.cons.injEq, hreply s t c h]
    constructor
    · rintro ⟨hc, hcs⟩
      exact ⟨hc, (ih (hnext s t c h hc)).1 hcs⟩
    · rintro ⟨hc, hcs⟩
      exact ⟨hc, (ih (hnext s t c h hc)).2 hcs⟩

theorem ofFallible_step {E : Type*} {f : S → C → Except E S} {s s' : S} {c : C}
    (h : f s c = .ok s') : ((ofFallible f).step s c).1 = s' := by
  simp [ofFallible, h]

theorem ofFallible_step_of_error {E : Type*} {f : S → C → Except E S} {s : S} {c : C} {e : E}
    (h : f s c = .error e) : ((ofFallible f).step s c).1 = s := by
  simp [ofFallible, h]

/-- **Induction over calls.**  A predicate that every call of the list keeps holds after it. -/
theorem run_invariant {I : S → Prop} {cs : List C}
    (hstep : ∀ s, ∀ c ∈ cs, I s → I (M.step s c).1) {s : S} (h : I s) : I (M.run s cs) := by
  induction cs generalizing s with
  | nil => exact h
  | cons c cs ih =>
    refine ih (fun t d hd => hstep t d (List.mem_cons_of_mem _ hd)) ?_
    exact hstep s c List.mem_cons_self h

end Machine
