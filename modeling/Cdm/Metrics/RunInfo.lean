import Cdm.Lib.Quoted
import Cdm.Lib.Words
import Cdm.Metrics.Registry

/-!
# Reading the metrics string

The string that is stored with a range is the only account of the range that an observer of the run
is given; it reads the counts back from it.
-/

namespace Text

/-- `str::parse::<u64>`: an optional plus sign and digits, within the range of the type. -/
def parseU64 (s : List Char) : Option ℕ :=
  match parseDigits (withoutPlus s) with
  | none => none
  | some n => if n < 2 ^ 64 then some n else none

theorem parseU64_toDigits {n : ℕ} (h : n < 2 ^ 64) : parseU64 (Nat.toDigits 10 n) = some n := by
  have hplus : withoutPlus (Nat.toDigits 10 n) = Nat.toDigits 10 n := by
    unfold withoutPlus
    split
    · have := isDigit_head_toDigits ‹_›
      simp at this
    · rfl
  simpa [parseU64, hplus, parseDigits_toDigits] using h

end Text

namespace Cdm

open List

/-- Every counter, in the order of their indices. -/
def CounterKind.all : List CounterKind :=
  [.read, .write, .mismatch, .correctedMismatch, .missing, .correctedMissing, .valid, .skipped,
    .large, .error, .unflushed, .partitionsPassed, .partitionsFailed]

/-- What one entry adds to the counts; an entry that cannot be read, or names no counter, adds
nothing. -/
def readEntry (counts : CounterKind → UInt64) (entry : List Char) : CounterKind → UInt64 :=
  match Text.rsplitOnce ':' entry with
  | none => counts
  | some (name, value) =>
    match Text.parseU64 (Text.trim value) with
    | none => counts
    | some value =>
      match CounterKind.all.find? fun kind => kind.titleCase.toList = Text.trim name with
      | none => counts
      | some kind => Function.update counts kind (.ofNat value)

/-- The counts that a metrics string states. -/
def parseRunInfo (text : String) : CounterKind → UInt64 :=
  (Text.splitOn ';' text.toList).foldl readEntry fun _ => 0

/-! ### One entry -/

/-- The characters of an entry. -/
def counterText (kind : CounterKind) (value : UInt64) : List Char :=
  kind.titleCase.toList ++ ':' :: ' ' :: Nat.toDigits 10 value.toNat

theorem toList_entry_counterText (c : JobCounters) (view : CounterView) (kind : CounterKind) :
    (c.entry view kind).toList = counterText kind (c.countOf kind view) := by
  have hnum : toString (c.countOf kind view) =
      String.ofList (Nat.toDigits 10 (c.countOf kind view).toNat) := Nat.toString_eq_ofList_toDigits
  rw [JobCounters.entry, hnum]
  simp [counterText]

theorem not_mem_toDigits {sep : Char} (hsep : sep.isDigit = false) (n : ℕ) :
    sep ∉ Nat.toDigits 10 n := by
  intro h
  have := Nat.isDigit_of_mem_toDigits (by decide) (by decide) h
  rw [hsep] at this
  cases this

/-- The spellings hold no semicolon, and neither start nor end with white space. -/
theorem titleCase_spec (kind : CounterKind) : ';' ∉ kind.titleCase.toList ∧
    (∀ c ∈ kind.titleCase.toList.head?, Text.isWhitespace c = false) ∧
    (∀ c ∈ kind.titleCase.toList.getLast?, Text.isWhitespace c = false) ∧
    (CounterKind.all.find? fun other => other.titleCase.toList = kind.titleCase.toList) =
      some kind := by
  refine ⟨?_, ?_, ?_, ?_⟩
  · cases kind <;> decide
  · intro c hc
    cases kind <;> cases hc <;> decide
  · intro c hc
    cases kind <;> cases hc <;> decide
  · cases kind <;> rfl

theorem semicolon_not_mem_counterText (kind : CounterKind) (value : UInt64) :
    ';' ∉ counterText kind value := by
  simp [counterText, (titleCase_spec kind).1, not_mem_toDigits (show ';'.isDigit = false by decide)]

/-- An entry is read as its counter's value, with or without the space of the separator. -/
theorem readEntry_counterText (counts : CounterKind → UInt64) {pad : List Char}
    (hpad : ∀ c ∈ pad, Text.isWhitespace c = true) (kind : CounterKind) (value : UInt64) :
    readEntry counts (pad ++ counterText kind value) = Function.update counts kind value := by
  obtain ⟨-, hhead, hlast, hfind⟩ := titleCase_spec kind
  have hsplit : Text.rsplitOnce ':' (pad ++ counterText kind value) =
      some (pad ++ kind.titleCase.toList, ' ' :: Nat.toDigits 10 value.toNat) := by
    rw [counterText, ← append_assoc]
    refine Text.rsplitOnce_append ?_ _
    simp [not_mem_toDigits (show ':'.isDigit = false by decide)]
  have hdigit : ∀ d ∈ Nat.toDigits 10 value.toNat, Text.isWhitespace d = false := fun d hd =>
    Text.isWhitespace_of_isDigit (Nat.isDigit_of_mem_toDigits (by decide) (by decide) hd)
  have hname : Text.trim (pad ++ kind.titleCase.toList) = kind.titleCase.toList :=
    Text.trim_append hpad hhead hlast
  have hvalue : Text.trim (' ' :: Nat.toDigits 10 value.toNat) = Nat.toDigits 10 value.toNat :=
    Text.trim_append (w := [' ']) (by simp [Text.isWhitespace])
      (fun d hd => hdigit d (mem_of_head? hd)) fun d hd => hdigit d (mem_of_getLast? hd)
  simp [readEntry, hsplit, hname, hvalue, hfind, Text.parseU64_toDigits value.toNat_lt]

/-! ### The whole string -/

/-- The pieces between the semicolons are the entries, all but the first after a space. -/
theorem splitOn_metrics (entry : String) (entries : List String)
    (h : ∀ e ∈ entry :: entries, ';' ∉ e.toList) :
    Text.splitOn ';' (JobCounters.metricSeparator.intercalate (entry :: entries)).toList =
      entry.toList :: entries.map fun e => ' ' :: e.toList := by
  induction entries generalizing entry with
  | nil => simpa using Text.splitOn_of_not_mem (h entry mem_cons_self)
  | cons next entries ih =>
    have hrest := ih next fun e he => h e (mem_cons_of_mem _ he)
    rw [String.intercalate_cons_of_ne_nil (by simp), String.toList_append, String.toList_append]
    have hsep : JobCounters.metricSeparator.toList = [';', ' '] := rfl
    rw [hsep, append_assoc, cons_append, cons_append, nil_append,
      Text.splitOn_append_sep, Text.splitOn_of_not_mem (h entry mem_cons_self),
      Text.splitOn_cons (by decide) hrest]
    rfl

/-- Reading the pieces of some counters' entries sets these counters. -/
theorem foldl_readEntry (f : CounterKind → UInt64) (kinds : List CounterKind)
    (counts : CounterKind → UInt64) (kind : CounterKind) :
    (kinds.map fun k => ' ' :: counterText k (f k)).foldl readEntry counts kind =
      if kind ∈ kinds then f kind else counts kind := by
  induction kinds generalizing counts with
  | nil => simp
  | cons k kinds ih =>
    have hread : readEntry counts ([' '] ++ counterText k (f k)) = Function.update counts k (f k) :=
      readEntry_counterText counts (by simp [Text.isWhitespace]) k (f k)
    rw [map_cons, foldl_cons, ih, show ' ' :: counterText k (f k) = [' '] ++ counterText k (f k)
      from rfl, hread]
    by_cases hmem : kind ∈ kinds
    · simp [hmem]
    · by_cases hk : kind = k <;> simp [hmem, hk]

/-- **The metrics string states the counters.** Whatever the job, the level and the values, the
string of a registry is read as the values it was rendered from; a counter that the job does not
register, or that the committed string leaves out, is read as zero. -/
theorem parseRunInfo_metrics (c : JobCounters) (view : CounterView) (kind : CounterKind) :
    parseRunInfo (c.metrics view) kind =
      if view = .committed ∧ kind = .unflushed then 0 else c.countOf kind view := by
  have hmem : kind ∈ c.registered.filter (fun kind => view = .interim || kind ≠ .unflushed) ↔
      c.isRegistered kind = true ∧ ¬(view = .committed ∧ kind = .unflushed) := by
    rw [mem_filter, JobCounters.registered, mem_registeredCounters, JobCounters.isRegistered]
    cases view <;> simp
  obtain ⟨first, kinds, hkinds⟩ : ∃ first kinds,
      c.registered.filter (fun kind => view = .interim || kind ≠ .unflushed) = first :: kinds := by
    cases view <;> cases hjob : c.job <;> simp [JobCounters.registered, hjob, registeredCounters]
  rw [hkinds] at hmem
  have hpieces : Text.splitOn ';' (c.metrics view).toList =
      counterText first (c.countOf first view) ::
        kinds.map fun k => ' ' :: counterText k (c.countOf k view) := by
    rw [JobCounters.metrics, hkinds, map_cons, splitOn_metrics]
    · simp [toList_entry_counterText, Function.comp_def]
    · simp [toList_entry_counterText, semicolon_not_mem_counterText]
  have hfirst : readEntry (fun _ => 0) (counterText first (c.countOf first view)) =
      Function.update (fun _ => 0) first (c.countOf first view) :=
    readEntry_counterText (fun _ => 0) (forall_mem_nil _) first (c.countOf first view)
  rw [parseRunInfo, hpieces, foldl_cons, hfirst, foldl_readEntry (c.countOf · view)]
  by_cases hin : kind ∈ first :: kinds
  · have hshown := (hmem.1 hin).2
    rw [if_neg hshown]
    by_cases hrest : kind ∈ kinds
    · simp [hrest]
    · have hk : kind = first := by simpa [hrest] using hin
      simp [hk]
  · have hout : c.isRegistered kind = false ∨ view = .committed ∧ kind = .unflushed := by
      by_contra hcon
      exact hin (hmem.2 (by simpa using hcon))
    simp only [mem_cons, not_or] at hin
    rw [if_neg hin.2, Function.update_of_ne hin.1]
    split_ifs with hshown
    · rfl
    · simp [JobCounters.countOf, hout.resolve_right hshown]

end Cdm
