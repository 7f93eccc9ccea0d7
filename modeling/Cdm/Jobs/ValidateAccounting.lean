import Cdm.Jobs.ValidateRange
import Cdm.Lib.Tally

/-!
# Accounting for the rows of a validate range

A row that was read is skipped, or calls for one lookup or several; each lookup has been classified,
or is queued, or has still to be issued.  The two queues are the same list, so that a result is
classified against the record that its lookup was issued for.

The rows a failed range is charged with are the rows it read less the lookups it classified.  This is
the number of rows it lost as long as no lookup was classified of a row that has several.
-/

namespace Cdm

open List

namespace ValidateRange

/-! ### The invariant -/

/-- How many lookups of the row `r` are queued. -/
def queued (records : List Issued) (r : ℕ) : ℕ := records.countP fun record => record.1 = r

/-- Every lookup that a row calls for has been classified, or is queued, or is one of the
`pending r` that are still to be issued. -/
structure Settled (rows : List RowFate) (records : List Issued) (pending : ℕ → ℕ) : Prop where
  looked : ∀ r lookups classified, rows[r]? = some (.looked lookups classified) →
    1 ≤ lookups ∧ classified + queued records r + pending r = lookups
  decided : RowFate.reading ∉ rows
  idle : ∀ r, (∀ lookups classified, rows[r]? ≠ some (.looked lookups classified)) →
    queued records r = 0

/-- Where the rows read so far are. -/
def InPhase (rows : List RowFate) (records : List Issued) : Phase → Prop
  | .reading | .comparing _ | .correcting _ _ => Settled rows records fun _ => 0
  | .filtering _ | .exploding _ =>
    ∃ before, rows = before ++ [RowFate.reading] ∧ Settled before records fun _ => 0
  | .enqueuing left =>
    (∃ before lookups classified, rows = before ++ [RowFate.looked lookups classified]) ∧
      Settled rows records fun r => if r + 1 = rows.length then left.length else 0
  | .ended result =>
    (∀ lookups classified, RowFate.looked lookups classified ∈ rows →
      1 ≤ lookups ∧ classified ≤ lookups) ∧
    (result.Completed → ∀ row ∈ rows, row.isLost = false)

/-- A discrepancy of this kind has been counted, and may still be corrected. -/
def Phase.owes (kind : CounterKind) : Phase → ℕ
  | .correcting comparison _ => if correctedOf comparison = kind then 1 else 0
  | _ => 0

/-- A discrepancy that is corrected is one. -/
def Phase.Discrepant : Phase → Prop
  | .correcting comparison _ => comparison.isDiscrepancy = true
  | _ => True

section Range

variable [LiteralParsers] [SerdeJson] {job : ValidateJob} {fetchSize : ℕ}

/-- What a lookup was classified as. -/
def Classified.comparison (job : ValidateJob) (lookup : Classified) : Comparison :=
  job.plan.compare lookup.issuer.2 lookup.target

/-- How many lookups were classified under a counter. -/
def countedAs (job : ValidateJob) (lookups : List Classified) (kind : CounterKind) : ℕ :=
  lookups.countP fun lookup => counterOf (lookup.comparison job) = kind

/-- The counters of a range, its queues, and where its rows are. -/
structure Inv (job : ValidateJob) (s : ValidateRange) (lookups : List Classified)
    (f : CounterKind → ℕ) : Prop where
  registry : s.counters.job = .validate
  counts : s.counters.Counts f
  read : f .read = s.rows.length
  skipped : f .skipped = s.rows.countP RowFate.isSkipped
  error : f .error = 0
  valid : f .valid = countedAs job lookups .valid
  missing : f .missing = countedAs job lookups .missing
  mismatch : f .mismatch = countedAs job lookups .mismatch
  classified : f .valid + f .missing + f .mismatch = (s.rows.map RowFate.classified).sum
  correctedMissing : f .correctedMissing + s.phase.owes .correctedMissing ≤ f .missing
  correctedMismatch : f .correctedMismatch + s.phase.owes .correctedMismatch ≤ f .mismatch
  aligned : s.inflight = s.records
  issued : ∀ lookup ∈ lookups, lookup.issuer = lookup.record
  discrepant : s.phase.Discrepant
  phase : InPhase s.rows s.records s.phase

/-! ### The rows and the queue -/

section Settled

omit [LiteralParsers] [SerdeJson]

variable {rows : List RowFate} {records : List Issued} {pending : ℕ → ℕ}

theorem Settled.bounded (h : Settled rows records pending) {lookups classified : ℕ}
    (hmem : RowFate.looked lookups classified ∈ rows) : 1 ≤ lookups ∧ classified ≤ lookups := by
  obtain ⟨r, hr⟩ := mem_iff_getElem?.1 hmem
  obtain ⟨hpos, hsum⟩ := h.looked r lookups classified hr
  exact ⟨hpos, by omega⟩

/-- A row whose number is not that of a row that was read has no lookups. -/
theorem Settled.queued_eq_zero (h : Settled rows records pending) {r : ℕ} (hr : rows.length ≤ r) :
    queued records r = 0 := by
  refine h.idle r fun lookups classified hrow => ?_
  rw [getElem?_eq_none hr] at hrow
  cases hrow

/-- The row that is being read is skipped. -/
theorem Settled.skip (h : Settled rows records fun _ => 0) :
    Settled (rows ++ [RowFate.skipped]) records fun _ => 0 := by
  refine ⟨fun r lookups classified hrow => ?_, ?_, fun r hrow => ?_⟩
  · by_cases hr : r < rows.length
    · rw [getElem?_append_left hr] at hrow
      exact h.looked r lookups classified hrow
    · obtain ⟨hlt, hrow⟩ := List.getElem?_eq_some_iff.1 hrow
      rw [getElem_append_right (by omega)] at hrow
      simp at hrow
  · simpa using h.decided
  · by_cases hr : r < rows.length
    · refine h.idle r fun lookups classified => ?_
      rw [← getElem?_append_left hr]
      exact hrow lookups classified
    · exact h.queued_eq_zero (by omega)

/-- The row that is being read calls for lookups. -/
theorem Settled.look (h : Settled rows records fun _ => 0) {n : ℕ} (hn : 1 ≤ n) :
    Settled (rows ++ [RowFate.looked n 0]) records
      fun r => if r + 1 = (rows ++ [RowFate.looked n 0]).length then n else 0 := by
  refine ⟨fun r lookups classified hrow => ?_, ?_, fun r hrow => ?_⟩
  · by_cases hr : r < rows.length
    · rw [getElem?_append_left hr] at hrow
      rw [if_neg (by rw [length_append, length_singleton]; omega)]
      exact h.looked r lookups classified hrow
    · obtain ⟨hlt, hrow⟩ := List.getElem?_eq_some_iff.1 hrow
      rw [length_append, length_singleton] at hlt
      have hr : r = rows.length := by omega
      subst hr
      simp only [getElem_concat_length, RowFate.looked.injEq] at hrow
      obtain ⟨rfl, rfl⟩ := hrow
      simp [h.queued_eq_zero le_rfl, hn]
  · simpa using h.decided
  · by_cases hr : r < rows.length
    · refine h.idle r fun lookups classified => ?_
      rw [← getElem?_append_left hr]
      exact hrow lookups classified
    · exact h.queued_eq_zero (by omega)

theorem queued_append (records : List Issued) (last r : ℕ) (record : Record) :
    queued (records ++ [(last, record)]) r = queued records r + if r = last then 1 else 0 := by
  by_cases hr : r = last
  · simp [queued, hr]
  · simp [queued, hr, Ne.symm hr]

/-- One lookup of the row that is being read is issued. -/
theorem Settled.enqueue {before : List RowFate} {lookups classified left : ℕ}
    (hrows : rows = before ++ [RowFate.looked lookups classified]) (record : Record)
    (h : Settled rows records fun r => if r + 1 = rows.length then left + 1 else 0) :
    Settled rows (records ++ [(rows.length - 1, record)])
      fun r => if r + 1 = rows.length then left else 0 := by
  have hlength : rows.length = before.length + 1 := by
    rw [hrows, length_append, length_singleton]
  refine ⟨fun r lookups classified hrow => ?_, h.decided, fun r hrow => ?_⟩
  · obtain ⟨hpos, hsum⟩ := h.looked r lookups classified hrow
    refine ⟨hpos, ?_⟩
    rw [queued_append]
    by_cases hr : r + 1 = rows.length
    · rw [if_pos hr] at hsum
      rw [if_pos hr, if_pos (by omega)]
      omega
    · rw [if_neg hr] at hsum
      rw [if_neg hr, if_neg (by omega)]
      omega
  · -- the row that is being read has been looked up
    have hlast : r ≠ rows.length - 1 := by
      rintro rfl
      refine hrow lookups classified ?_
      rw [hlength, hrows, Nat.add_sub_cancel, getElem?_concat_length]
    rw [queued_append, if_neg hlast, h.idle r hrow]

theorem queued_cons (records : List Issued) (issuer : Issued) (r : ℕ) :
    queued (issuer :: records) r = queued records r + if r = issuer.1 then 1 else 0 := by
  by_cases hr : r = issuer.1
  · simp [queued, hr]
  · simp [queued, hr, Ne.symm hr]

/-- The row of a queued lookup has been looked up. -/
theorem Settled.looked_of_queued {issuer : Issued} (h : Settled rows (issuer :: records) pending) :
    ∃ lookups classified, rows[issuer.1]? = some (.looked lookups classified) := by
  by_contra hnone
  rw [not_exists] at hnone
  have hidle := h.idle issuer.1 fun lookups classified hrow => hnone lookups ⟨classified, hrow⟩
  rw [queued_cons, if_pos rfl] at hidle
  omega

/-- The result of the first lookup is classified. -/
theorem Settled.classify {issuer : Issued} (h : Settled rows (issuer :: records) fun _ => 0) :
    Settled (rows.modify issuer.1 RowFate.classify) records fun _ => 0 := by
  refine ⟨fun r lookups classified hrow => ?_, ?_, fun r hrow => ?_⟩
  · rw [getElem?_modify] at hrow
    obtain ⟨fate, hfate, heq⟩ := Option.map_eq_some_iff.1 hrow
    by_cases hr : issuer.1 = r
    · subst hr
      obtain ⟨lookups', classified', hlooked⟩ := h.looked_of_queued
      cases hfate.symm.trans hlooked
      obtain ⟨hpos, hsum⟩ := h.looked _ _ _ hlooked
      simp only [if_true, RowFate.classify, RowFate.looked.injEq] at heq
      obtain ⟨rfl, rfl⟩ := heq
      rw [queued_cons, if_pos rfl] at hsum
      exact ⟨hpos, by omega⟩
    · simp only [if_neg hr] at heq
      subst heq
      obtain ⟨hpos, hsum⟩ := h.looked _ _ _ hfate
      rw [queued_cons, if_neg (Ne.symm hr)] at hsum
      exact ⟨hpos, by omega⟩
  · intro hmem
    obtain ⟨r, hr⟩ := mem_iff_getElem?.1 hmem
    rw [getElem?_modify] at hr
    obtain ⟨fate, hfate, heq⟩ := Option.map_eq_some_iff.1 hr
    have hreading : fate = .reading := by
      by_cases hr : issuer.1 = r
      · rw [if_pos hr] at heq
        cases fate with
        | reading => rfl
        | skipped => cases heq
        | looked lookups classified => cases heq
      · rwa [if_neg hr] at heq
    rw [hreading] at hfate
    exact h.decided (mem_of_getElem? hfate)
  · by_cases hr : issuer.1 = r
    · subst hr
      obtain ⟨lookups, classified, hlooked⟩ := h.looked_of_queued
      refine absurd ?_ (hrow lookups (classified + 1))
      rw [getElem?_modify, hlooked]
      simp [RowFate.classify]
    · have hidle := h.idle r fun lookups classified hlooked => by
        refine hrow lookups classified ?_
        rw [getElem?_modify, hlooked]
        simp [hr]
      rw [queued_cons, if_neg (Ne.symm hr)] at hidle
      exact hidle

end Settled

/-! ### The steps -/

variable {s s' : ValidateRange} {lookups : List Classified} {f : CounterKind → ℕ}

omit [LiteralParsers] [SerdeJson] in
theorem InPhase.bounded {rows : List RowFate} {records : List Issued} {phase : Phase}
    (h : InPhase rows records phase) {lookups classified : ℕ}
    (hmem : RowFate.looked lookups classified ∈ rows) : 1 ≤ lookups ∧ classified ≤ lookups := by
  cases phase with
  | reading => exact Settled.bounded h hmem
  | comparing after => exact Settled.bounded h hmem
  | correcting comparison after => exact Settled.bounded h hmem
  | filtering record =>
    obtain ⟨before, rfl, h⟩ := h
    exact h.bounded (by simpa using hmem)
  | exploding record =>
    obtain ⟨before, rfl, h⟩ := h
    exact h.bounded (by simpa using hmem)
  | enqueuing left => exact h.2.bounded hmem
  | ended result => exact h.1 lookups classified hmem

/-- A step that counts nothing and is not a correction. -/
theorem Inv.move (hi : Inv job s lookups f) {phase : Phase} (hphase : InPhase s.rows s.records phase)
    (howes : ∀ kind, phase.owes kind = 0) (hdiscrepant : phase.Discrepant) :
    Inv job { s with phase } lookups f where
  registry := hi.registry
  counts := hi.counts
  read := hi.read
  skipped := hi.skipped
  error := hi.error
  valid := hi.valid
  missing := hi.missing
  mismatch := hi.mismatch
  classified := hi.classified
  correctedMissing := by
    have := hi.correctedMissing
    rw [howes]
    omega
  correctedMismatch := by
    have := hi.correctedMismatch
    rw [howes]
    omega
  aligned := hi.aligned
  issued := hi.issued
  discrepant := hdiscrepant
  phase := hphase

/-- A range fails in any phase. -/
theorem Inv.fail (hi : Inv job s lookups f) {result : RangeResult} (hresult : result.Failed) :
    Inv job { s with phase := .ended result } lookups f := by
  refine hi.move ⟨fun _ _ hmem => hi.phase.bounded hmem, fun hcompleted => ?_⟩ (fun _ => rfl) trivial
  cases result with
  | verdict verdict => exact hresult.elim
  | error error => exact hcompleted.elim
  | panic message => exact hcompleted.elim
  | killed => exact hcompleted.elim

/-- The row that is being read is skipped. -/
theorem Inv.skip (hi : Inv job s lookups f) {before : List RowFate}
    (hrows : s.rows = before ++ [RowFate.reading]) (hsettled : Settled before s.records fun _ => 0)
    (howes : ∀ kind, s.phase.owes kind = 0) :
    Inv job { s with
      counters := s.counters.incrementKind .skipped 1
      rows := s.rows.set s.current .skipped
      phase := .reading } lookups (Function.update f .skipped (f .skipped + 1)) := by
  have hset : s.rows.set s.current .skipped = before ++ [RowFate.skipped] := by
    rw [current, hrows]
    simp
  have hread := hi.read
  have hskipped := hi.skipped
  have hclassified := hi.classified
  have hmissing := hi.correctedMissing
  have hmismatch := hi.correctedMismatch
  rw [howes] at hmissing hmismatch
  rw [hrows] at hread hskipped hclassified
  rw [hset]
  exact {
    registry := by rw [JobCounters.job_incrementKind]; exact hi.registry
    counts := hi.counts.increment .skipped 1
    read := by simpa using hread
    skipped := by simpa [RowFate.isSkipped] using hskipped
    error := by simpa using hi.error
    valid := by simpa using hi.valid
    missing := by simpa using hi.missing
    mismatch := by simpa using hi.mismatch
    classified := by simpa [RowFate.classified] using hclassified
    correctedMissing := by simpa [Phase.owes] using hmissing
    correctedMismatch := by simpa [Phase.owes] using hmismatch
    aligned := hi.aligned
    issued := hi.issued
    discrepant := trivial
    phase := hsettled.skip }

theorem nextRecord_inv (hi : Inv job s lookups f) {record : Except CdmError (Option Record)}
    (hs : step job fetchSize s (.nextRecord record) = some s') : ∃ f', Inv job s' lookups f' := by
  have hphase := hi.phase
  simp only [step] at hs
  split at hs
  · rename_i hreading
    rw [hreading] at hphase
    split at hs
    · cases hs
      exact ⟨f, hi.fail trivial⟩
    · cases hs
      exact ⟨f, hi.move hphase (fun _ => rfl) trivial⟩
    · cases hs
      have hmissing := hi.correctedMissing
      have hmismatch := hi.correctedMismatch
      rw [hreading] at hmissing hmismatch
      refine ⟨Function.update f .read (f .read + 1), {
        registry := by rw [JobCounters.job_incrementKind]; exact hi.registry
        counts := hi.counts.increment .read 1
        read := by simp [hi.read]
        skipped := by simp [hi.skipped, RowFate.isSkipped]
        error := by simpa using hi.error
        valid := by simpa using hi.valid
        missing := by simpa using hi.missing
        mismatch := by simpa using hi.mismatch
        classified := by simpa [RowFate.classified] using hi.classified
        correctedMissing := by simpa [Phase.owes] using hmissing
        correctedMismatch := by simpa [Phase.owes] using hmismatch
        aligned := hi.aligned
        issued := hi.issued
        discrepant := trivial
        phase := ⟨s.rows, rfl, hphase⟩ }⟩
  · cases hs

theorem filter_inv (hi : Inv job s lookups f) (hs : step job fetchSize s .filter = some s') :
    ∃ f', Inv job s' lookups f' := by
  have hphase := hi.phase
  simp only [step] at hs
  split at hs
  · rename_i record hfiltering
    rw [hfiltering] at hphase
    split at hs
    · cases hs
      exact ⟨f, hi.fail trivial⟩
    · cases hs
      obtain ⟨before, hrows, hsettled⟩ := hphase
      exact ⟨_, hi.skip hrows hsettled fun _ => by rw [hfiltering]; rfl⟩
    · cases hs
      exact ⟨f, hi.move hphase (fun _ => rfl) trivial⟩
  · cases hs

theorem explode_inv (hi : Inv job s lookups f) (hs : step job fetchSize s .explode = some s') :
    ∃ f', Inv job s' lookups f' := by
  have hphase := hi.phase
  simp only [step] at hs
  split at hs
  · rename_i record hexploding
    rw [hexploding] at hphase
    split at hs
    · cases hs
      exact ⟨f, hi.fail trivial⟩
    · cases hs
      obtain ⟨before, hrows, hsettled⟩ := hphase
      exact ⟨_, hi.skip hrows hsettled fun _ => by rw [hexploding]; rfl⟩
    · rename_i left hne _
      cases hs
      obtain ⟨before, hrows, hsettled⟩ := hphase
      have hpos : 1 ≤ left.length := length_pos_iff.2 hne
      have hset : s.rows.set s.current (.looked left.length 0) =
          before ++ [RowFate.looked left.length 0] := by
        rw [current, hrows]
        simp
      have hread := hi.read
      have hskipped := hi.skipped
      have hclassified := hi.classified
      have hmissing := hi.correctedMissing
      have hmismatch := hi.correctedMismatch
      rw [hexploding] at hmissing hmismatch
      rw [hrows] at hread hskipped hclassified
      rw [hset]
      exact ⟨f, { hi with
        read := by simpa using hread
        skipped := by simpa [RowFate.isSkipped] using hskipped
        classified := by simpa [RowFate.classified] using hclassified
        correctedMissing := hmissing
        correctedMismatch := hmismatch
        discrepant := trivial
        phase := ⟨⟨before, _, _, rfl⟩, hsettled.look hpos⟩ }⟩
  · cases hs

theorem enqueue_inv (hi : Inv job s lookups f) {slot : Except CdmError Unit}
    (hs : step job fetchSize s (.enqueue slot) = some s') : Inv job s' lookups f := by
  have hphase := hi.phase
  simp only [step] at hs
  split at hs
  · rename_i record left henqueuing
    rw [henqueuing] at hphase
    split at hs
    · cases hs
      exact hi.fail trivial
    · cases hs
      obtain ⟨⟨before, n, c, hrows⟩, hsettled⟩ := hphase
      have hmissing := hi.correctedMissing
      have hmismatch := hi.correctedMismatch
      rw [henqueuing] at hmissing hmismatch
      exact { hi with
        correctedMissing := hmissing
        correctedMismatch := hmismatch
        aligned := by rw [hi.aligned]
        discrepant := trivial
        phase := ⟨⟨before, n, c, hrows⟩, hsettled.enqueue hrows record⟩ }
  · cases hs

theorem countedAs_append (lookup : Classified) (kind : CounterKind) :
    countedAs job (lookups ++ [lookup]) kind =
      countedAs job lookups kind + if counterOf (lookup.comparison job) = kind then 1 else 0 := by
  simp [countedAs, countP_append, countP_singleton]

/-- The result of the first lookup is classified against the record that it was issued for. -/
theorem Inv.classify (hi : Inv job s lookups f) {after : After} (hcomparing : s.phase = .comparing after)
    {record : Issued} {records : List Issued} (hrecords : s.records = record :: records)
    (target : Option Row) :
    Inv job { s with
      counters := s.counters.incrementKind (counterOf (job.plan.compare record.2 target)) 1
      records, inflight := records
      hadDiscrepancy := s.hadDiscrepancy || (job.plan.compare record.2 target).isDiscrepancy
      rows := s.rows.modify record.1 RowFate.classify
      phase :=
        if (job.plan.compare record.2 target).isDiscrepancy then
          .correcting (job.plan.compare record.2 target) after
        else .comparing after }
      (lookups ++ [⟨record, record, target⟩])
      (Function.update f (counterOf (job.plan.compare record.2 target))
        (f (counterOf (job.plan.compare record.2 target)) + 1)) := by
  have hphase := hi.phase
  have hmissing := hi.correctedMissing
  have hmismatch := hi.correctedMismatch
  rw [hcomparing] at hphase hmissing hmismatch
  rw [hrecords] at hphase
  obtain ⟨n, c, hlooked⟩ := Settled.looked_of_queued hphase
  have hsum := Tally.sum_map_modify hlooked RowFate.classify RowFate.classified
  have hskip := Tally.countP_modify hlooked RowFate.classify RowFate.isSkipped
  simp only [RowFate.classify, RowFate.classified] at hsum
  simp only [RowFate.classify, RowFate.isSkipped, Bool.false_eq_true, if_false, Nat.add_zero] at hskip
  have hread := hi.read
  have hskipped := hi.skipped
  have hvalid := hi.valid
  have hmiss := hi.missing
  have hmism := hi.mismatch
  have hclassified := hi.classified
  have hsettled := Settled.classify hphase
  have hcounted (kind : CounterKind) : countedAs job (lookups ++ [⟨record, record, target⟩]) kind =
      countedAs job lookups kind +
        if counterOf (job.plan.compare record.2 target) = kind then 1 else 0 := countedAs_append _ kind
  generalize job.plan.compare record.2 target = comparison at hcounted ⊢
  refine {
    registry := by rw [JobCounters.job_incrementKind]; exact hi.registry
    counts := hi.counts.increment _ 1
    read := ?_, skipped := ?_, error := ?_, valid := ?_, missing := ?_, mismatch := ?_,
    classified := ?_, correctedMissing := ?_, correctedMismatch := ?_
    aligned := rfl
    issued := ?_, discrepant := ?_, phase := ?_ }
  · cases comparison <;> simpa [counterOf] using hread
  · rw [hskip, ← hskipped]
    cases comparison <;> simp [counterOf]
  · cases comparison <;> simpa [counterOf] using hi.error
  · rw [hcounted]
    cases comparison <;> simp [counterOf, hvalid]
  · rw [hcounted]
    cases comparison <;> simp [counterOf, hmiss]
  · rw [hcounted]
    cases comparison <;> simp [counterOf, hmism]
  · cases comparison <;> simp [counterOf] <;> omega
  · cases comparison <;> simp [counterOf, correctedOf, Comparison.isDiscrepancy, Phase.owes] at * <;>
      omega
  · cases comparison <;> simp [counterOf, correctedOf, Comparison.isDiscrepancy, Phase.owes] at * <;>
      omega
  · intro lookup hlookup
    rcases mem_append.1 hlookup with hold | hnew
    · exact hi.issued lookup hold
    · rw [mem_singleton.1 hnew]
  · cases comparison <;> trivial
  · cases comparison <;> exact hsettled

theorem compare_inv (hi : Inv job s lookups f) {fetched : Except CdmError (Option Row)}
    (hs : step job fetchSize s (.compare fetched) = some s') :
    ∃ f', Inv job s' (lookups ++ (classified s (.compare fetched)).toList) f' := by
  have haligned := hi.aligned
  have hphase := hi.phase
  simp only [step] at hs
  split at hs
  · rename_i hinflight hrecords
    rw [hinflight, hrecords] at haligned
    cases haligned
  · rename_i after issuer inflight record records hcomparing hinflight hrecords
    rw [hinflight, hrecords] at haligned
    obtain ⟨rfl, rfl⟩ := List.cons.inj haligned
    split at hs
    · cases hs
      simp only [classified, Option.toList_none, append_nil]
      rw [hcomparing] at hphase
      have hmissing := hi.correctedMissing
      have hmismatch := hi.correctedMismatch
      rw [hcomparing] at hmissing hmismatch
      exact ⟨f, { hi with
        correctedMissing := hmissing
        correctedMismatch := hmismatch
        aligned := rfl
        discrepant := trivial
        phase := ⟨fun _ _ hmem => Settled.bounded hphase hmem, fun h => h.elim⟩ }⟩
    · rename_i target
      cases hs
      simp only [classified, hcomparing, hinflight, hrecords, Option.toList_some]
      exact ⟨_, hi.classify hcomparing hrecords target⟩
  · cases hs

theorem drained_inv (hi : Inv job s lookups f) (hs : step job fetchSize s .drained = some s') :
    Inv job s' lookups f := by
  have haligned := hi.aligned
  have hphase := hi.phase
  simp only [step] at hs
  split at hs
  · rename_i after hcomparing hinflight
    rw [hinflight] at haligned
    rw [hcomparing, ← haligned] at hphase
    have hempty : s.records = [] := haligned.symm
    cases hs
    have hsame (phase : Phase) : ({ s with records := [], phase } : ValidateRange) =
        { s with phase } := by
      rw [← hempty]
    have hsettled : Settled s.rows s.records fun _ => 0 := hempty.symm ▸ hphase
    rw [hsame]
    cases after with
    | readOn => exact hi.move hsettled (fun _ => rfl) trivial
    | finish =>
      refine hi.move ⟨fun _ _ hmem => hsettled.bounded hmem, fun _ row hrow => ?_⟩ (fun _ => rfl) trivial
      obtain ⟨r, hr⟩ := mem_iff_getElem?.1 hrow
      cases row with
      | reading => exact absurd hrow hphase.decided
      | skipped => rfl
      | looked n c =>
        have hsum := (hphase.looked r n c hr).2
        have hc : c = n := by simpa [queued] using hsum
        simp [RowFate.isLost, hc]
    | cancelled => exact hi.fail trivial
  · cases hs

theorem correct_inv (hi : Inv job s lookups f) {written : Except CdmError Unit}
    (hs : step job fetchSize s (.correct written) = some s') : ∃ f', Inv job s' lookups f' := by
  have hphase := hi.phase
  have hdiscrepant := hi.discrepant
  simp only [step] at hs
  split at hs
  · rename_i comparison after hcorrecting
    rw [hcorrecting] at hphase hdiscrepant
    split_ifs at hs
    · split at hs
      · cases hs
        exact ⟨f, hi.fail trivial⟩
      · cases hs
        have hmissing := hi.correctedMissing
        have hmismatch := hi.correctedMismatch
        rw [hcorrecting] at hmissing hmismatch
        refine ⟨Function.update f (correctedOf comparison) (f (correctedOf comparison) + 1), {
          registry := by rw [JobCounters.job_incrementKind]; exact hi.registry
          counts := hi.counts.increment _ 1
          read := ?_, skipped := ?_, error := ?_, valid := ?_, missing := ?_, mismatch := ?_,
          classified := ?_, correctedMissing := ?_, correctedMismatch := ?_
          aligned := hi.aligned
          issued := hi.issued
          discrepant := trivial
          phase := hphase }⟩
        · cases comparison <;> simpa [correctedOf] using hi.read
        · cases comparison <;> simpa [correctedOf] using hi.skipped
        · cases comparison <;> simpa [correctedOf] using hi.error
        · cases comparison <;> simpa [correctedOf] using hi.valid
        · cases comparison <;> simpa [correctedOf] using hi.missing
        · cases comparison <;> simpa [correctedOf] using hi.mismatch
        · cases comparison <;> simpa [correctedOf] using hi.classified
        · cases comparison <;> simpa [correctedOf, Phase.owes] using hmissing
        · cases comparison <;> simpa [correctedOf, Phase.owes] using hmismatch
    · cases hs
      exact ⟨f, hi.move hphase (fun _ => rfl) trivial⟩
  · cases hs

theorem step_inv (hi : Inv job s lookups f) (a : Act) (hs : step job fetchSize s a = some s') :
    ∃ f', Inv job s' (lookups ++ (classified s a).toList) f' := by
  have hphase := hi.phase
  cases a with
  | cancel =>
    simp only [step] at hs
    split at hs
    · rename_i hreading
      rw [hreading] at hphase
      cases hs
      simp only [classified, Option.toList_none, append_nil]
      exact ⟨f, hi.move hphase (fun _ => rfl) trivial⟩
    · cases hs
  | nextRecord record => simpa [classified] using nextRecord_inv hi hs
  | filter => simpa [classified] using filter_inv hi hs
  | explode => simpa [classified] using explode_inv hi hs
  | enqueue slot => exact ⟨f, by simpa [classified] using enqueue_inv hi hs⟩
  | enqueued =>
    simp only [step] at hs
    split at hs
    · rename_i henqueuing
      rw [henqueuing] at hphase
      cases hs
      have hsettled : Settled s.rows s.records fun _ => 0 := by simpa using hphase.2
      simp only [classified, Option.toList_none, append_nil]
      refine ⟨f, ?_⟩
      split_ifs
      · exact hi.move hsettled (fun _ => rfl) trivial
      · exact hi.move hsettled (fun _ => rfl) trivial
    · cases hs
  | compare fetched => exact compare_inv hi hs
  | drained => exact ⟨f, by simpa [classified] using drained_inv hi hs⟩
  | correct written => simpa [classified] using correct_inv hi hs
  | panic message =>
    simp only [step] at hs
    split at hs
    · cases hs
    · cases hs
      have hfailed : RangeResult.Failed (.panic message) := trivial
      exact ⟨f, by simpa [classified] using hi.fail hfailed⟩

/-! ### The range as a whole -/

/-- The lookups that a range has classified. -/
def classifiedIn (job : ValidateJob) (fetchSize : ℕ) (acts : List Act) : List Classified :=
  (lts job fetchSize).outputs classified init acts

theorem inv_of_exec {acts : List Act} (h : (lts job fetchSize).exec init acts = some s) :
    ∃ f, Inv job s (classifiedIn job fetchSize acts) f := by
  refine LTS.exec_invariant_outputs (I := fun s lookups => ∃ f, Inv job s lookups f) h ?_ ?_
  · exact ⟨fun _ => 0, rfl, .new .validate, rfl, rfl, rfl, rfl, rfl, rfl, rfl, le_rfl, le_rfl, rfl,
      nofun, trivial, ⟨nofun, nofun, fun _ _ => rfl⟩⟩
  · rintro s a s' lookups ⟨f, hi⟩ hs
    exact step_inv hi a hs

/-- The rows of a range are accounted for: `ERROR` is the number of rows lost, every lookup was
classified once, against the record that it was issued for, and no more was corrected than found. -/
structure Accounted (job : ValidateJob) (c : JobCounters) (rows : List RowFate)
    (lookups : List Classified) : Prop where
  error : c.committed .error = .ofNat (rows.countP RowFate.isLost)
  issued : ∀ lookup ∈ lookups, lookup.issuer = lookup.record
  valid : c.committed .valid = .ofNat (countedAs job lookups .valid)
  missing : c.committed .missing = .ofNat (countedAs job lookups .missing)
  mismatch : c.committed .mismatch = .ofNat (countedAs job lookups .mismatch)
  correctedMissing : c.committed .correctedMissing ≤ c.committed .missing
  correctedMismatch : c.committed .correctedMismatch ≤ c.committed .mismatch

/-- The lookups of a row were classified only if it has one. -/
def RowFate.Sole : RowFate → Prop
  | .looked lookups classified => classified = 0 ∨ lookups = 1
  | _ => True

instance : DecidablePred RowFate.Sole
  | .looked lookups classified => inferInstanceAs (Decidable (classified = 0 ∨ lookups = 1))
  | .reading => .isTrue trivial
  | .skipped => .isTrue trivial

omit [LiteralParsers] [SerdeJson] in
/-- What a failed range is charged with is the number of its lost rows exactly when it has none, or
when no lookup was classified of a row that has several. -/
theorem charged_iff {rows : List RowFate}
    (hbounded : ∀ lookups classified, RowFate.looked lookups classified ∈ rows →
      1 ≤ lookups ∧ classified ≤ lookups) :
    rows.length - (rows.map RowFate.classified).sum - rows.countP RowFate.isSkipped =
        rows.countP RowFate.isLost ↔
      rows.countP RowFate.isLost = 0 ∨ ∀ row ∈ rows, row.Sole := by
  -- a row is skipped, lost or done; a row that is done had a lookup classified, and only a row with
  -- one lookup had no more
  have hsum : rows.length ≤ rows.countP RowFate.isLost + rows.countP RowFate.isSkipped +
        (rows.map RowFate.classified).sum ∧
      (rows.length = rows.countP RowFate.isLost + rows.countP RowFate.isSkipped +
        (rows.map RowFate.classified).sum ↔ ∀ row ∈ rows, row.Sole) := by
    induction rows with
    | nil => simp
    | cons row rows ih =>
      obtain ⟨hle, hiff⟩ := ih fun n c hmem => hbounded n c (mem_cons_of_mem _ hmem)
      rw [forall_mem_cons, ← hiff]
      simp only [length_cons, countP_cons, map_cons, sum_cons]
      cases row with
      | reading =>
        simp [RowFate.isLost, RowFate.isSkipped, RowFate.classified, RowFate.Sole]
        omega
      | skipped =>
        simp [RowFate.isLost, RowFate.isSkipped, RowFate.classified, RowFate.Sole]
        omega
      | looked n c =>
        obtain ⟨hpos, hcn⟩ := hbounded n c mem_cons_self
        by_cases hc : c = n
        · simp [RowFate.isLost, RowFate.isSkipped, RowFate.classified, RowFate.Sole, hc]
          omega
        · simp [RowFate.isLost, RowFate.isSkipped, RowFate.classified, RowFate.Sole, hc]
          omega
  obtain ⟨hle, hiff⟩ := hsum
  rw [← hiff]
  omega

theorem countedAs_le (lookups : List Classified) (kind : CounterKind) :
    countedAs job lookups kind ≤ lookups.length := countP_le_length

omit [LiteralParsers] [SerdeJson] in
theorem ofNat_le_ofNat {a b : ℕ} (h : a ≤ b) (hb : b < 2 ^ 64) : UInt64.ofNat a ≤ UInt64.ofNat b := by
  rw [UInt64.le_iff_toNat_le, UInt64.toNat_ofNat_of_lt' hb,
    UInt64.toNat_ofNat_of_lt' (lt_of_le_of_lt h hb)]
  exact h

/-- What a range that has ended has counted is committed; `ERROR` is what it is charged with. -/
theorem exists_charged (hi : Inv job s lookups f) {result : RangeResult}
    (hended : s.phase = .ended result) (hkilled : result ≠ .killed) (range : TokenRange)
    (hrows : s.rows.length < 2 ^ 64) (hlookups : lookups.length < 2 ^ 64) :
    ∃ charged : ℕ,
      (∀ {kind : CounterKind}, kind.isRegisteredFor .validate = true → kind ≠ .partitionsPassed →
        kind ≠ .partitionsFailed →
        (processRange s.counters range result).counters.committed kind =
          .ofNat (f kind + if kind = .error then charged else 0)) ∧
      charged < 2 ^ 64 ∧
      (charged = s.rows.countP RowFate.isLost ↔
        s.rows.countP RowFate.isLost = 0 ∨ ∀ row ∈ s.rows, row.Sole) := by
  have hphase := hi.phase
  rw [hended] at hphase
  have hreg {kind : CounterKind} (h : kind.isRegisteredFor .validate = true) :
      s.counters.isRegistered kind = true := by
    rw [JobCounters.isRegistered, hi.registry]
    exact h
  have hresult : result.Completed ∨ result.Failed := by
    cases result with
    | verdict verdict => exact .inl trivial
    | error error => exact .inr trivial
    | panic message => exact .inr trivial
    | killed => exact absurd rfl hkilled
  rcases hresult with hcompleted | hfailed
  · refine ⟨0, fun hkind hpassed _ => ?_, by omega, ?_⟩
    · rw [committed_processRange_verdict hi.counts range hcompleted (hreg hkind) hpassed]
      simp
    · have hnone : s.rows.countP RowFate.isLost = 0 := by
        rw [countP_eq_zero]
        intro row hrow
        simp [hphase.2 hcompleted row hrow]
      simp [hnone]
  · refine ⟨(lostRows s.counters).toNat, fun hkind _ hfailed' => ?_, UInt64.toNat_lt _, ?_⟩
    · exact committed_processRange_failed hi.counts range hfailed (hreg hkind) hfailed'
    · have hfits (kind : CounterKind) : countedAs job lookups kind < 2 ^ 64 :=
        lt_of_le_of_lt (countedAs_le _ kind) hlookups
      have hlost := toNat_lostRows_validate hi.counts hi.registry (hi.read ▸ hrows)
        (hi.valid ▸ hfits .valid) (hi.missing ▸ hfits .missing) (hi.mismatch ▸ hfits .mismatch)
        (hi.skipped ▸ lt_of_le_of_lt countP_le_length hrows)
      have hsub : f .read - f .valid - f .missing - f .mismatch - f .skipped =
          f .read - (f .valid + f .missing + f .mismatch) - f .skipped := by omega
      rw [hlost, hsub, hi.classified, hi.skipped, hi.read]
      exact charged_iff hphase.1

/-- A range that has ended has accounted for its rows exactly when none was lost, or when no lookup
was classified of a row that calls for several; the numbers of rows and of lookups have to fit the
counters. -/
theorem accounted_iff {acts : List Act} (h : (lts job fetchSize).exec init acts = some s)
    {result : RangeResult} (hended : s.phase = .ended result) (hkilled : result ≠ .killed)
    (range : TokenRange) (hrows : s.rows.length < 2 ^ 64)
    (hlookups : (classifiedIn job fetchSize acts).length < 2 ^ 64) :
    Accounted job (processRange s.counters range result).counters s.rows
        (classifiedIn job fetchSize acts) ↔
      s.rows.countP RowFate.isLost = 0 ∨ ∀ row ∈ s.rows, row.Sole := by
  obtain ⟨f, hi⟩ := inv_of_exec h
  obtain ⟨charged, hcommitted, hcharged, hiff⟩ :=
    exists_charged hi hended hkilled range hrows hlookups
  have hmissing := hi.correctedMissing
  have hmismatch := hi.correctedMismatch
  have hmissingFits : f .missing < 2 ^ 64 := by
    rw [hi.missing]
    exact lt_of_le_of_lt (countedAs_le _ _) hlookups
  have hmismatchFits : f .mismatch < 2 ^ 64 := by
    rw [hi.mismatch]
    exact lt_of_le_of_lt (countedAs_le _ _) hlookups
  have hlost : s.rows.countP RowFate.isLost < 2 ^ 64 := lt_of_le_of_lt countP_le_length hrows
  rw [← hiff]
  constructor
  · intro haccounted
    have herror := haccounted.error
    rw [hcommitted rfl (by decide) (by decide), hi.error] at herror
    have := congrArg UInt64.toNat herror
    simpa [UInt64.toNat_ofNat_of_lt' hcharged, UInt64.toNat_ofNat_of_lt' hlost] using this
  · rintro rfl
    refine ⟨?_, hi.issued, ?_, ?_, ?_, ?_, ?_⟩
    · rw [hcommitted rfl (by decide) (by decide), hi.error]
      simp
    · rw [hcommitted rfl (by decide) (by decide), ← hi.valid]
      simp
    · rw [hcommitted rfl (by decide) (by decide), ← hi.missing]
      simp
    · rw [hcommitted rfl (by decide) (by decide), ← hi.mismatch]
      simp
    · rw [hcommitted rfl (by decide) (by decide), hcommitted rfl (by decide) (by decide)]
      exact ofNat_le_ofNat (by simp; omega) (by simpa using hmissingFits)
    · rw [hcommitted rfl (by decide) (by decide), hcommitted rfl (by decide) (by decide)]
      exact ofNat_le_ofNat (by simp; omega) (by simpa using hmismatchFits)

end Range

/-! ### A row that is lost in the middle -/

namespace Sample

attribute [local instance] LiteralParsers.rejecting SerdeJson.rejecting

/-- The key of a target row is that of the origin row, and that of the map entry. -/
def keys : TargetKeyPlan := ⟨[(.origin 0, none), (.explodeKey, none)]⟩

/-- The map in the second column becomes one target row for each entry; nothing is corrected. -/
def job : ValidateJob where
  keys := keys
  target := {
    binder := {
      statement := ⟨"INSERT INTO ks.dst (id,k,v) VALUES (?,?,?)", false, ⟨false, false⟩,
        [.column 0, .column 1, .column 2]⟩
      columns := [⟨"id", .primitive .int, "int", .passthrough, .origin 0, true⟩,
        ⟨"k", .primitive .int, "int", .passthrough, .explodeKey, true⟩,
        ⟨"v", .primitive .int, "int", .passthrough, .explodeValue, false⟩]
      missingKey := {}
      mapRemoveNullValue := false }
    counters := []
    timestamps := none }
  plan := {
    columns := [⟨"id", 0, .mapped 0, .passthrough⟩, ⟨"k", 1, .exploded .key, .passthrough⟩,
      ⟨"v", 2, .exploded .value, .passthrough⟩]
    extractJson := none
    extractJsonOverwrites := false
    keysOnly := false }
  filters := []
  explode := some ⟨⟨1, .passthrough, .passthrough, "k", "v", true, false⟩, keys⟩
  settings := ⟨⟨false, false, false⟩, false⟩

/-- A record with a map of the given entries. -/
def record (entries : List (UInt8 × UInt8)) : Record :=
  .new ⟨[some [0, 0, 0, 7]]⟩ ⟨[some [0, 0, 0, 7], some ([0, 0, 0, entries.length.toUInt8] ++
    entries.flatMap fun entry => [0, 0, 0, 4, 0, 0, 0, entry.1, 0, 0, 0, 4, 0, 0, 0, entry.2])]⟩

def timedOut : CdmError := ⟨.read, "the lookup timed out", {}⟩

/-- The only range. -/
def range : TokenRange := .checked 0 9 (.refl true)

/-- A row with one entry is found missing; then the lookup of another fails, and that row is lost. -/
def oneEntry : List Act :=
  [.nextRecord (.ok (some (record [(1, 5)]))), .filter, .explode, .enqueue (.ok ()), .enqueued,
    .compare (.ok none), .correct (.ok ()), .drained, .nextRecord (.ok (some (record [(2, 6)]))),
    .filter, .explode, .enqueue (.ok ()), .enqueued, .compare (.error timedOut)]

/-- Of a row with three entries two are found missing; then a lookup fails. -/
def threeEntries : List Act :=
  [.nextRecord (.ok (some (record [(1, 5), (2, 6), (3, 7)]))), .filter, .explode, .enqueue (.ok ()),
    .enqueue (.ok ()), .enqueue (.ok ()), .enqueued, .compare (.ok none), .correct (.ok ()),
    .compare (.ok none), .correct (.ok ()), .compare (.error timedOut)]

theorem accounted_one_entry :
    ∃ s, (lts job 1).exec init oneEntry = some s ∧ s.phase = .ended (.error timedOut) ∧
      s.rows.countP RowFate.isLost = 1 ∧
      Accounted job (processRange s.counters range (.error timedOut)).counters s.rows
        (classifiedIn job 1 oneEntry) := by
  have hrun : ∃ s, (lts job 1).exec init oneEntry = some s ∧ s.phase = .ended (.error timedOut) ∧
      s.rows = [.looked 1 1, .looked 1 0] := ⟨_, rfl, rfl, rfl⟩
  obtain ⟨s, hs, hended, hrows⟩ := hrun
  have hlookups : (classifiedIn job 1 oneEntry).length = 1 := rfl
  refine ⟨s, hs, hended, by rw [hrows]; rfl,
    (accounted_iff hs hended nofun range ?_ ?_).2 (.inr ?_)⟩
  · rw [hrows]
    decide
  · rw [hlookups]
    decide
  · rw [hrows]
    decide

/-- The row is lost, and `ERROR` is zero. -/
theorem not_accounted_three_entries :
    ∃ s, (lts job 1).exec init threeEntries = some s ∧ s.phase = .ended (.error timedOut) ∧
      s.rows = [.looked 3 2] ∧ s.rows.countP RowFate.isLost = 1 ∧
      (processRange s.counters range (.error timedOut)).counters.committed .error = 0 :=
  ⟨_, rfl, rfl, rfl, rfl, rfl⟩

end Sample

end ValidateRange

end Cdm
