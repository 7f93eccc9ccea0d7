import Cdm.Lib.Quoted

/-!
# Comma-separated values

A row is its fields, separated by commas and ended by a line feed; a field in quotation marks may
hold any text, with its own quotation marks doubled.  The reader takes a carriage return before the
line feed as part of the end of a row, and a last row that is not ended; it rejects a quotation mark
within a field that does not start with one, and anything but the end of the field behind a closing
one.
-/

namespace Csv

open List

/-! ### Writing -/

/-- A character that a field cannot have outside quotation marks. -/
def isSpecial (c : Char) : Bool := c = ',' || c = '\x22' || c = '\n' || c = '\r'

def field (value : List Char) : List Char :=
  if value.any isSpecial then Text.quoted '\x22' value else value

/-- A row of at least one field. -/
def line : List (List Char) → List Char
  | [] => ['\n']
  | [value] => field value ++ ['\n']
  | value :: values => field value ++ ',' :: line values

/-! ### Reading -/

/-- Where in a field the reader is. -/
inductive Mode
  | start
  | plain
  | quoted
  /-- Behind a quotation mark in a quoted field. -/
  | closed
  /-- Behind a carriage return. -/
  | ended
  deriving DecidableEq, Repr

/-- The rows so far, the fields of the open row, and the open field. -/
structure State where
  rows : List (List (List Char))
  row : List (List Char)
  field : List Char
  mode : Mode
  deriving DecidableEq, Repr

namespace State

def start : State := ⟨[], [], [], .start⟩

/-- The open field ends, and another one starts. -/
def endField (s : State) : State := ⟨s.rows, s.row ++ [s.field], [], .start⟩

/-- The open field ends, and with it the row. -/
def endRow (s : State) : State := ⟨s.rows ++ [s.row ++ [s.field]], [], [], .start⟩

/-- One character more in the open field. -/
def push (s : State) (mode : Mode) (c : Char) : State := ⟨s.rows, s.row, s.field ++ [c], mode⟩

/-- What may end a field. -/
def delimiter (s : State) (c : Char) : Option State :=
  if c = ',' then some s.endField
  else if c = '\n' then some s.endRow
  else if c = '\r' then some { s with mode := .ended }
  else none

def step (s : State) (c : Char) : Option State :=
  match s.mode with
  | .start =>
    if c = '\x22' then some { s with mode := .quoted }
    else if isSpecial c then s.delimiter c
    else some (s.push .plain c)
  | .plain => if isSpecial c then s.delimiter c else some (s.push .plain c)
  | .quoted => if c = '\x22' then some { s with mode := .closed } else some (s.push .quoted c)
  | .closed => if c = '\x22' then some (s.push .quoted c) else s.delimiter c
  | .ended => if c = '\n' then some s.endRow else none

def run (s : State) : List Char → Option State
  | [] => some s
  | c :: cs => (s.step c).bind fun next => next.run cs

/-- The rows at the end of the text. -/
def finish (s : State) : Option (List (List (List Char))) :=
  match s.mode with
  | .start => if s.row = [] then some s.rows else some s.endRow.rows
  | .plain | .closed => some s.endRow.rows
  | .quoted | .ended => none

end State

/-- The rows of a text. -/
def parse (text : List Char) : Option (List (List (List Char))) :=
  (State.start.run text).bind State.finish

/-! ### Reading what is written -/

namespace State

variable {s : State}

theorem run_append (s : State) (a b : List Char) :
    s.run (a ++ b) = (s.run a).bind fun next => next.run b := by
  induction a generalizing s with
  | nil => rfl
  | cons c a ih =>
    rw [cons_append, run, run, Option.bind_assoc]
    exact congrArg (Option.bind (s.step c)) (funext fun next => ih next)

theorem run_cons_of_step {c : Char} {cs : List Char} {next : State} (h : s.step c = some next) :
    s.run (c :: cs) = next.run cs := by
  rw [run, h, Option.bind_some]

/-- A plain field. -/
theorem run_plain {value : List Char} (h : ∀ c ∈ value, isSpecial c = false)
    (hmode : s.mode = .plain) :
    s.run value = some { s with field := s.field ++ value } := by
  induction value generalizing s with
  | nil => rw [run, append_nil]
  | cons c value ih =>
    have hstep : s.step c = some (s.push .plain c) := by
      rw [step, hmode]
      exact if_neg (by simp [h c mem_cons_self])
    rw [run_cons_of_step hstep, ih (fun d hd => h d (mem_cons_of_mem _ hd)) rfl, push, hmode,
      append_assoc, singleton_append]

/-- The content of a quoted field. -/
theorem run_doubled (value : List Char) (hmode : s.mode = .quoted) :
    s.run (Text.doubled '\x22' value) = some { s with field := s.field ++ value } := by
  induction value generalizing s with
  | nil => rw [Text.doubled_nil, run, append_nil]
  | cons c value ih =>
    have hpush : ∀ t : State, t = s.push .quoted c →
        t.run (Text.doubled '\x22' value) = some { s with field := s.field ++ c :: value } := by
      rintro t rfl
      rw [ih rfl, push, hmode, append_assoc, singleton_append]
    by_cases hc : c = '\x22'
    · subst hc
      have hopen : s.step '\x22' = some { s with mode := .closed } := by
        rw [step, hmode]
        rfl
      rw [Text.doubled_cons_self, run_cons_of_step hopen]
      exact hpush _ rfl
    · have hstep : s.step c = some (s.push .quoted c) := by
        rw [step, hmode]
        exact if_neg hc
      rw [Text.doubled_cons_of_ne hc, run_cons_of_step hstep]
      exact hpush _ rfl

/-- A field can end here. -/
def AtEnd (s : State) : Prop := s.mode = .start ∨ s.mode = .plain ∨ s.mode = .closed

theorem AtEnd.step_comma (h : s.AtEnd) : s.step ',' = some s.endField := by
  rcases h with h | h | h
  all_goals
    rw [step, h]
    rfl

theorem AtEnd.step_newline (h : s.AtEnd) : s.step '\n' = some s.endRow := by
  rcases h with h | h | h
  all_goals
    rw [step, h]
    rfl

/-- A field is read as what it was written for. -/
theorem exists_run_field (value : List Char) (rows : List (List (List Char)))
    (row : List (List Char)) :
    ∃ mode, AtEnd ⟨rows, row, value, mode⟩ ∧
      run ⟨rows, row, [], .start⟩ (Csv.field value) = some ⟨rows, row, value, mode⟩ := by
  rw [Csv.field]
  split_ifs with hspecial
  · refine ⟨.closed, .inr (.inr rfl), ?_⟩
    have hopen : step ⟨rows, row, [], .start⟩ '\x22' = some ⟨rows, row, [], .quoted⟩ := rfl
    rw [Text.quoted, run_cons_of_step hopen, run_append, run_doubled value rfl, Option.bind_some]
    rfl
  · rw [Bool.not_eq_true, any_eq_false] at hspecial
    cases value with
    | nil => exact ⟨.start, .inl rfl, rfl⟩
    | cons c value =>
      have hc : isSpecial c = false := by simpa using hspecial c mem_cons_self
      have hquote : c ≠ '\x22' := by
        rintro rfl
        exact absurd hc (by decide)
      have hstep : step ⟨rows, row, [], .start⟩ c = some ⟨rows, row, [c], .plain⟩ := by
        rw [step]
        dsimp only
        rw [if_neg hquote, hc]
        rfl
      refine ⟨.plain, .inr (.inl rfl), ?_⟩
      rw [run_cons_of_step hstep, run_plain (fun d hd => ?_) rfl]
      · rfl
      · simpa using hspecial d (mem_cons_of_mem _ hd)

theorem run_line {values : List (List Char)} (hne : values ≠ []) (rows : List (List (List Char)))
    (row : List (List Char)) (rest : List Char) :
    run ⟨rows, row, [], .start⟩ (line values ++ rest) =
      run ⟨rows ++ [row ++ values], [], [], .start⟩ rest := by
  induction values generalizing row with
  | nil => exact absurd rfl hne
  | cons value values ih =>
    obtain ⟨mode, hend, hrun⟩ := exists_run_field value rows row
    cases values with
    | nil =>
      rw [line, append_assoc, run_append, hrun, Option.bind_some, singleton_append,
        run_cons_of_step hend.step_newline]
      rfl
    | cons next values =>
      rw [line, append_assoc, run_append, hrun, Option.bind_some, cons_append,
        run_cons_of_step hend.step_comma]
      · show run ⟨rows, row ++ [value], [], .start⟩ (line (next :: values) ++ rest) = _
        rw [ih (cons_ne_nil _ _), append_assoc, singleton_append]
      · exact cons_ne_nil _ _

theorem run_lines {table : List (List (List Char))} (h : ∀ values ∈ table, values ≠ [])
    (rows : List (List (List Char))) :
    run ⟨rows, [], [], .start⟩ (table.flatMap line) = some ⟨rows ++ table, [], [], .start⟩ := by
  induction table generalizing rows with
  | nil => rw [flatMap_nil, run, append_nil]
  | cons values table ih =>
    rw [flatMap_cons, run_line (h values mem_cons_self),
      ih fun v hv => h v (mem_cons_of_mem _ hv), append_assoc, nil_append,
      singleton_append]

end State

/-- **Rows are read back**, whatever their fields are. -/
theorem parse_lines {table : List (List (List Char))} (h : ∀ values ∈ table, values ≠ []) :
    parse (table.flatMap line) = some table := by
  rw [parse, State.start, State.run_lines h, Option.bind_some]
  rfl

end Csv
