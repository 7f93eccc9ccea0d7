import Cdm.Jobs.ReportRecords

/-!
# The discrepancy report

A report counts a record when its write has succeeded.  When a write fails, the file is given up:
the sink is then one that accepts everything and writes nothing, and the records behind are counted
all the same.  The buffered writer writes what it still holds when it is given up, so that even the
record whose write has failed can be complete in the file.
-/

namespace Cdm

open List

/-- The bytes of a text. -/
def utf8 (text : List Char) : Bytes := text.flatMap String.utf8EncodeChar

/-- Where a report goes. -/
inductive Sink
  /-- No report was configured. -/
  | disabled
  | file
  | buffer
  /-- The file failed. -/
  | broken
  deriving DecidableEq, Repr

/-- How a write to a file and the flush behind it end.  A write that fails never brings some of its
bytes into the file; the others it has written before, or writes when the writer is dropped. -/
inductive WriteOutcome
  | ok
  | failed (lost : ℕ)
  deriving DecidableEq, Repr

/-- Whether the bytes are accepted, and those of them that reach the output. -/
def Sink.writeAll (bytes : Bytes) : Sink → WriteOutcome → Bool × Bytes
  | file, .ok => (true, bytes)
  | file, .failed lost => (false, bytes.take (bytes.length - lost))
  | buffer, _ => (true, bytes)
  | disabled, _ => (true, [])
  | broken, _ => (true, [])

/-- What was handed to the sink: a record, or the header or the end of the report, and what of it is
in the output. -/
structure ReportWrite where
  record : Option DiscrepancyRecord
  text : List Char
  landed : Bytes
  deriving DecidableEq

/-- A record of which everything is in the output. -/
def ReportWrite.isComplete (write : ReportWrite) : Bool :=
  write.record.isSome && write.landed = utf8 write.text

/-- The format and what the lock guards, with all writes to the sink. -/
structure ReportState where
  format : ReportFormat
  sink : Sink
  records : ℕ
  finished : Bool
  writes : List ReportWrite
  deriving DecidableEq

/-- What is asked of a report, with the outcome of the write that it takes. -/
inductive ReportEvent
  | record (record : DiscrepancyRecord) (outcome : WriteOutcome)
  | finish (outcome : WriteOutcome)
  deriving DecidableEq

def ReportEvent.isRecord : ReportEvent → Bool
  | record _ _ => true
  | finish _ => false

namespace ReportState

/-- A report that records nothing. -/
def disabled : ReportState := ⟨.none, .disabled, 0, true, []⟩

/-- The header of a report of rows; it has been written when a report is there. -/
def preamble (format : ReportFormat) : List ReportWrite :=
  if format = .csv then [⟨none, csvHeader, utf8 csvHeader⟩] else []

/-- A report in a file. -/
def openFile (format : ReportFormat) : ReportState :=
  if format = .none then disabled else ⟨format, .file, 0, false, preamble format⟩

/-- A report that is kept in memory. -/
def inMemory (format : ReportFormat) : ReportState :=
  if format = .none then disabled else ⟨format, .buffer, 0, false, preamble format⟩

/-- Serialises and emits one record. -/
def record (s : ReportState) (record : DiscrepancyRecord) (outcome : WriteOutcome) : ReportState :=
  if s.sink = .disabled then s
  else
    let text := record.serialise s.format s.records
    let (accepted, landed) := s.sink.writeAll (utf8 text) outcome
    { s with
      records := if accepted then s.records + 1 else s.records
      sink := if accepted then s.sink else .broken
      writes := s.writes ++ [⟨some record, text, landed⟩] }

/-- What closes a report. -/
def tail (format : ReportFormat) (records : ℕ) : List Char :=
  match format with
  | .json => if records = 0 then ['[', ']', '\n'] else ['\n', ']', '\n']
  | .none | .ndjson | .csv => []

/-- Closes the report.  The error of a write that fails is returned and changes nothing. -/
def finish (s : ReportState) (outcome : WriteOutcome) : ReportState :=
  if s.finished then s
  else
    let text := tail s.format s.records
    let (_, landed) := s.sink.writeAll (utf8 text) outcome
    { s with
      finished := true
      writes := s.writes ++ [⟨none, text, landed⟩] }

def step (s : ReportState) : ReportEvent → ReportState
  | .record record outcome => s.record record outcome
  | .finish outcome => s.finish outcome

def run (s : ReportState) (events : List ReportEvent) : ReportState := events.foldl step s

/-- What the file or the buffer holds. -/
def output (s : ReportState) : Bytes := s.writes.flatMap ReportWrite.landed

/-- How many records are complete in the output. -/
def complete (s : ReportState) : ℕ := s.writes.countP ReportWrite.isComplete

/-- The count is that of the complete records. -/
def Counted (s : ReportState) : Prop := s.records = s.complete

instance (s : ReportState) : Decidable s.Counted := inferInstanceAs (Decidable (_ = _))

end ReportState

/-! ### Reading a report -/

/-- The records of a document. -/
def readJson (text : List Char) : Option (List DiscrepancyRecord) :=
  ((Json.parse text).bind jsonElements).bind fun elements =>
    elements.mapM DiscrepancyRecord.ofJson

/-- The records of the lines. -/
def readNdjson (text : List Char) : Option (List DiscrepancyRecord) :=
  (Text.lines text).mapM fun line => (Json.parse line).bind DiscrepancyRecord.ofJson

/-- The rows, the header among them. -/
def readCsv (text : List Char) : Option (List (List String)) :=
  (Csv.parse text).map fun rows => rows.map fun row => row.map String.ofList

/-- The output is the text of the records, in their order. -/
def ReadsBack (format : ReportFormat) (output : Bytes) (records : List DiscrepancyRecord) : Prop :=
  match format with
  | .none => output = []
  | .json => ∃ text, output = utf8 text ∧ readJson text = some records
  | .ndjson => ∃ text, output = utf8 text ∧ readNdjson text = some records
  | .csv => ∃ text, output = utf8 text ∧
      readCsv text = some (csvNames :: records.flatMap DiscrepancyRecord.csvFields)

namespace ReportState

/-- No write fails, and the report is closed at the end. -/
def written (records : List DiscrepancyRecord) : List ReportEvent :=
  records.map (.record · .ok) ++ [ReportEvent.finish .ok]

/-- The count is right after every event; and if no write fails, the output of the finished report
reads back, and finishing it once more changes nothing. -/
structure Intact (s : ReportState) (events : List ReportEvent) : Prop where
  counted : ∀ n, (s.run (events.take n)).Counted
  reads : ∀ records, events = written records → ReadsBack s.format (s.run events).output records
  finished : ∀ records, events = written records → ∀ outcome,
    (s.run events).finish outcome = s.run events

/-- A failed write loses a part of its record, and no record is reported behind it. -/
def Sound : List ReportEvent → Prop
  | [] => True
  | .record _ .ok :: events => Sound events
  | .record _ (.failed lost) :: events => 0 < lost ∧ events.all fun event => !event.isRecord
  | .finish _ :: events => Sound events

end ReportState

/-! ### Bytes -/

theorem utf8_append (a b : List Char) : utf8 (a ++ b) = utf8 a ++ utf8 b := flatMap_append

theorem utf8_ne_nil {text : List Char} (h : text ≠ []) : utf8 text ≠ [] := by
  obtain ⟨c, cs, rfl⟩ := exists_cons_of_ne_nil h
  exact append_ne_nil_of_left_ne_nil String.utf8EncodeChar_ne_nil _

/-! ### The count -/

namespace ReportState

variable {s : ReportState}

theorem complete_concat (writes : List ReportWrite) (write : ReportWrite) :
    (writes ++ [write]).countP ReportWrite.isComplete =
      writes.countP ReportWrite.isComplete + if write.isComplete then 1 else 0 := by
  rw [countP_append, countP_singleton]

/-- The end of the report is no record. -/
theorem Counted.finish (h : s.Counted) (outcome : WriteOutcome) : (s.finish outcome).Counted := by
  rw [ReportState.finish]
  split_ifs
  · exact h
  · rw [Counted, complete, complete_concat]
    exact h

theorem format_finish (outcome : WriteOutcome) : (s.finish outcome).format = s.format := by
  rw [ReportState.finish]
  split_ifs <;> rfl

theorem sink_finish (outcome : WriteOutcome) : (s.finish outcome).sink = s.sink := by
  rw [ReportState.finish]
  split_ifs <;> rfl

/-- A record keeps the count right exactly when it is accepted if all of it is in the output, and
not otherwise. -/
theorem counted_record_iff (hsink : s.sink ≠ .disabled) (hs : s.Counted)
    (record : DiscrepancyRecord) (outcome : WriteOutcome) {bytes : Bytes}
    (hbytes : bytes = utf8 (record.serialise s.format s.records)) :
    (s.record record outcome).Counted ↔
      ((s.sink.writeAll bytes outcome).1 = true ↔ (s.sink.writeAll bytes outcome).2 = bytes) := by
  rw [Counted] at hs
  rw [ReportState.record, if_neg hsink, Counted, complete, complete_concat, ReportWrite.isComplete]
  dsimp only
  rw [← complete, ← hs, Option.isSome_some, Bool.true_and, ← hbytes]
  simp only [decide_eq_true_eq]
  split_ifs with haccepted hlanded hlanded
  · exact iff_of_true rfl (iff_of_true haccepted hlanded)
  · exact iff_of_false (by omega) fun h => hlanded (h.1 haccepted)
  · exact iff_of_false (by omega) fun h => haccepted (h.2 hlanded)
  · exact iff_of_true rfl (iff_of_false haccepted hlanded)

/-- The state behind a record that the sink accepts. -/
theorem record_of_accepted (hsink : s.sink ≠ .disabled) (record : DiscrepancyRecord)
    (outcome : WriteOutcome)
    (h : (s.sink.writeAll (utf8 (record.serialise s.format s.records)) outcome).1 = true) :
    s.record record outcome =
      { s with
        records := s.records + 1
        writes := s.writes ++ [⟨some record, record.serialise s.format s.records,
          (s.sink.writeAll (utf8 (record.serialise s.format s.records)) outcome).2⟩] } := by
  rw [ReportState.record, if_neg hsink]
  dsimp only
  rw [if_pos h, if_pos h]

theorem run_cons (s : ReportState) (event : ReportEvent) (events : List ReportEvent) :
    s.run (event :: events) = (s.step event).run events := rfl

theorem run_append (s : ReportState) (a b : List ReportEvent) :
    s.run (a ++ b) = (s.run a).run b := foldl_append

/-- The count is right all along exactly when it is right now, and all along behind the next
event. -/
theorem forall_counted_cons_iff (s : ReportState) (event : ReportEvent)
    (events : List ReportEvent) :
    (∀ n, (s.run ((event :: events).take n)).Counted) ↔
      s.Counted ∧ ∀ n, ((s.step event).run (events.take n)).Counted := by
  constructor
  · exact fun h => ⟨h 0, fun n => h (n + 1)⟩
  · rintro ⟨hs, h⟩ n
    cases n with
    | zero => exact hs
    | succ n => exact h n

theorem counted_of_forall {events : List ReportEvent}
    (h : ∀ n, (s.run (events.take n)).Counted) : s.Counted := h 0

/-- Behind a failed write nothing may be recorded. -/
theorem forall_counted_broken_iff (hformat : s.format ≠ .none) (hsink : s.sink = .broken)
    (hs : s.Counted) (events : List ReportEvent) :
    (∀ n, (s.run (events.take n)).Counted) ↔ events.all fun event => !event.isRecord := by
  induction events generalizing s with
  | nil => exact iff_of_true (fun n => by rw [take_nil]; exact hs) rfl
  | cons event events ih =>
    rw [forall_counted_cons_iff, all_cons, Bool.and_eq_true]
    cases event with
    | record record outcome =>
      have hne := utf8_ne_nil (record.serialise_ne_nil hformat s.records)
      have hcounted := counted_record_iff (by rw [hsink]; nofun) hs record outcome rfl
      refine iff_of_false (fun h => ?_) (fun h => Bool.false_ne_true h.1)
      have hboth := hcounted.1 (counted_of_forall h.2)
      rw [hsink] at hboth
      exact hne (hboth.1 rfl).symm
    | finish outcome =>
      have hrest := ih ((format_finish outcome).trans_ne hformat)
        ((sink_finish outcome).trans hsink) (hs.finish outcome)
      exact ⟨fun h => ⟨rfl, hrest.1 h.2⟩, fun h => ⟨hs, hrest.2 h.2⟩⟩

/-- In a file the count is right all along exactly when the run is sound. -/
theorem forall_counted_file_iff (hformat : s.format ≠ .none) (hsink : s.sink = .file)
    (hs : s.Counted) (events : List ReportEvent) :
    (∀ n, (s.run (events.take n)).Counted) ↔ Sound events := by
  induction events generalizing s with
  | nil => exact iff_of_true (fun n => by rw [take_nil]; exact hs) trivial
  | cons event events ih =>
    rw [forall_counted_cons_iff]
    cases event with
    | record record outcome =>
      have hdisabled : s.sink ≠ .disabled := by
        rw [hsink]
        rintro ⟨⟩
      have hne := utf8_ne_nil (record.serialise_ne_nil hformat s.records)
      have hcounted := counted_record_iff hdisabled hs record outcome rfl
      rw [hsink] at hcounted
      cases outcome with
      | ok =>
        have hstep := record_of_accepted hdisabled record .ok (by rw [hsink]; rfl)
        have hrest := ih (s := s.record record .ok) (by rw [hstep]; exact hformat)
          (by rw [hstep]; exact hsink) (hcounted.2 ⟨fun _ => rfl, fun _ => rfl⟩)
        exact ⟨fun h => hrest.1 h.2, fun h => ⟨hs, hrest.2 h⟩⟩
      | failed lost =>
        have hbroken : (s.record record (.failed lost)).format ≠ .none ∧
            (s.record record (.failed lost)).sink = .broken := by
          rw [ReportState.record, if_neg hdisabled, hsink]
          exact ⟨hformat, rfl⟩
        have hlost : (s.record record (.failed lost)).Counted ↔ 0 < lost := by
          rw [hcounted]
          show (false = true ↔ List.take _ _ = _) ↔ _
          rw [take_eq_self_iff]
          have hpos := length_pos_iff.2 hne
          constructor
          · intro h
            by_contra hzero
            exact Bool.false_ne_true (h.2 (by omega))
          · exact fun h => ⟨by rintro ⟨⟩, fun hle => by omega⟩
        constructor
        · rintro ⟨-, h⟩
          have hnext := counted_of_forall h
          exact ⟨hlost.1 hnext, (forall_counted_broken_iff hbroken.1 hbroken.2 hnext events).1 h⟩
        · rintro ⟨hpos, hrest⟩
          have hnext := hlost.2 hpos
          exact ⟨hs, (forall_counted_broken_iff hbroken.1 hbroken.2 hnext events).2 hrest⟩
    | finish outcome =>
      have hrest := ih ((format_finish outcome).trans_ne hformat)
        ((sink_finish outcome).trans hsink) (hs.finish outcome)
      exact ⟨fun h => hrest.1 h.2, fun h => ⟨hs, hrest.2 h⟩⟩

/-- Memory takes everything. -/
theorem counted_run_buffer (hsink : s.sink = .buffer) (hs : s.Counted)
    (events : List ReportEvent) : (s.run events).Counted := by
  induction events generalizing s with
  | nil => exact hs
  | cons event events ih =>
    rw [run_cons]
    cases event with
    | record record outcome =>
      have hdisabled : s.sink ≠ .disabled := by
        rw [hsink]
        nofun
      have hcounted := counted_record_iff hdisabled hs record outcome rfl
      have hstep := record_of_accepted hdisabled record outcome (by rw [hsink]; rfl)
      rw [hsink] at hcounted
      refine ih (s := s.record record outcome) (by rw [hstep]; exact hsink) (hcounted.2 ?_)
      exact ⟨fun _ => rfl, fun _ => rfl⟩
    | finish outcome =>
      exact ih ((sink_finish outcome).trans hsink) (hs.finish outcome)

theorem run_disabled (events : List ReportEvent) : disabled.run events = disabled := by
  induction events with
  | nil => rfl
  | cons event events ih =>
    rw [run_cons]
    cases event with
    | record record outcome => exact ih
    | finish outcome => exact ih

/-! ### The output -/

/-- The texts of records, from the first or a later one on. -/
def texts (format : ReportFormat) : ℕ → List DiscrepancyRecord → List Char
  | _, [] => []
  | written, record :: records =>
    record.serialise format written ++ texts format (written + 1) records

/-- A sink that takes what is written and keeps it. -/
def Accepts (s : ReportState) : Prop := s.sink = .file ∨ s.sink = .buffer

theorem Accepts.ne_disabled (h : s.Accepts) : s.sink ≠ .disabled := by
  rcases h with h | h
  all_goals
    rw [h]
    nofun

theorem Accepts.writeAll (h : s.Accepts) (bytes : Bytes) :
    s.sink.writeAll bytes .ok = (true, bytes) := by
  rcases h with h | h
  all_goals
    rw [h]
    rfl

theorem Accepts.finish (h : s.Accepts) (hopen : s.finished = false) :
    s.finish .ok =
      { s with
        finished := true
        writes := s.writes ++
          [⟨none, tail s.format s.records, utf8 (tail s.format s.records)⟩] } := by
  rw [ReportState.finish, hopen, if_neg Bool.false_ne_true]
  dsimp only
  rw [h.writeAll]

/-- What records make of a report whose writes succeed. -/
structure Extends (s : ReportState) (records : List DiscrepancyRecord) (t : ReportState) :
    Prop where
  format_eq : t.format = s.format
  sink_eq : t.sink = s.sink
  finished_eq : t.finished = s.finished
  records_eq : t.records = s.records + records.length
  output_eq : t.output = s.output ++ utf8 (texts s.format s.records records)

theorem Accepts.extends_run (h : s.Accepts) (records : List DiscrepancyRecord) :
    Extends s records (s.run (records.map (.record · .ok))) := by
  induction records generalizing s with
  | nil => exact ⟨rfl, rfl, rfl, rfl, (append_nil _).symm⟩
  | cons record records ih =>
    have hstep := record_of_accepted h.ne_disabled record .ok (by rw [h.writeAll])
    rw [h.writeAll] at hstep
    have haccepts : (s.record record .ok).Accepts := by
      rw [hstep]
      exact h
    obtain ⟨hformat, hsink, hfinished, hrecords, houtput⟩ := ih haccepts
    rw [map_cons, run_cons]
    rw [hstep] at hformat hsink hfinished hrecords houtput
    refine ⟨?_, ?_, ?_, ?_, ?_⟩
    · rw [step, hstep, hformat]
    · rw [step, hstep, hsink]
    · rw [step, hstep, hfinished]
    · rw [step, hstep, hrecords, length_cons]
      exact Nat.succ_add_eq_add_succ _ _
    · rw [step, hstep, houtput, texts, utf8_append, ← append_assoc, output, output,
        flatMap_append, flatMap_singleton]

/-- The text of a report that has been finished. -/
def document (format : ReportFormat) (records : List DiscrepancyRecord) : List Char :=
  (if format = .csv then csvHeader else []) ++ texts format 0 records ++
    tail format records.length

theorem finish_of_finished (h : s.finished = true) (outcome : WriteOutcome) :
    s.finish outcome = s := if_pos h

/-- Records and the end of the report, with no write that fails. -/
theorem output_run_written {format : ReportFormat} {sink : Sink}
    (h : sink = .file ∨ sink = .buffer) (records : List DiscrepancyRecord) :
    (run ⟨format, sink, 0, false, preamble format⟩ (written records)).output =
        utf8 (document format records) ∧
      (run ⟨format, sink, 0, false, preamble format⟩ (written records)).finished = true := by
  have hstart : Accepts ⟨format, sink, 0, false, preamble format⟩ := h
  obtain ⟨hformat, hsink, hfinished, hrecords, houtput⟩ := hstart.extends_run records
  rw [written, run_append]
  generalize run ⟨format, sink, 0, false, preamble format⟩ (records.map (.record · .ok)) = t at *
  have haccepts : t.Accepts := by
    rw [Accepts, hsink]
    exact h
  have hlast : t.run [.finish .ok] = _ := haccepts.finish hfinished
  rw [hlast]
  refine ⟨?_, rfl⟩
  have hpreamble : output ⟨format, sink, 0, false, preamble format⟩ =
      utf8 (if format = .csv then csvHeader else []) := by
    rw [output, preamble]
    split_ifs <;> simp [utf8]
  rw [output, flatMap_append, flatMap_singleton, ← output, houtput, hpreamble, document,
    utf8_append, utf8_append, hformat, hrecords, Nat.zero_add]

/-! ### The documents read back -/

/-- The elements of an array behind the first one. -/
theorem printElements_toJson (record : DiscrepancyRecord) (records : List DiscrepancyRecord) :
    Json.printElements .pretty 1
        (Json.Values.ofList ((record :: records).map DiscrepancyRecord.toJson)) =
      Json.print .pretty 1 record.toJson ++ records.flatMap fun next =>
        [',', '\n', ' ', ' '] ++ Json.print .pretty 1 next.toJson := by
  induction records generalizing record with
  | nil =>
    rw [map_cons, map_nil, Json.Values.ofList, Json.Values.ofList, Json.printElements,
      flatMap_nil, append_nil]
  | cons next records ih =>
    have hne : Json.Values.ofList ((next :: records).map DiscrepancyRecord.toJson) ≠ .nil := by rintro ⟨⟩
    rw [map_cons, Json.Values.ofList, Json.printElements_cons _ _ _ hne, ih,
      flatMap_cons]
    rfl

theorem texts_json {written : ℕ} (h : written ≠ 0) (records : List DiscrepancyRecord) :
    texts .json written records = records.flatMap fun record =>
      [',', '\n', ' ', ' '] ++ Json.print .pretty 1 record.toJson := by
  induction records generalizing written with
  | nil => rfl
  | cons record records ih =>
    rw [texts, ih (Nat.succ_ne_zero written), DiscrepancyRecord.serialise, if_neg h,
      intercalate_lines_toJson, flatMap_cons]

/-- The document is the array of its records, and a line feed. -/
theorem document_json (records : List DiscrepancyRecord) :
    document .json records =
      Json.print .pretty 0 (jsonArray (records.map DiscrepancyRecord.toJson)) ++ ['\n'] := by
  cases records with
  | nil => rfl
  | cons record records =>
    have hne : Json.Values.ofList ((record :: records).map DiscrepancyRecord.toJson) ≠ .nil := by rintro ⟨⟩
    have hlength : (record :: records).length ≠ 0 := Nat.succ_ne_zero _
    rw [document, texts, texts_json Nat.one_ne_zero, DiscrepancyRecord.serialise, if_pos rfl,
      intercalate_lines_toJson, tail, if_neg hlength, jsonArray,
      Json.print_array _ _ hne, printElements_toJson, if_neg (by rintro ⟨⟩)]
    simp [Json.Layout.pretty]

theorem readJson_document (records : List DiscrepancyRecord) :
    readJson (document .json records) = some records := by
  have hspaces : ∀ c ∈ ['\n'], Json.isSpace c = true := all_eq_true.1 rfl
  rw [document_json, readJson, Json.parse_print Json.Layout.isSpace_pretty 0 _ hspaces,
    Option.bind_some, jsonElements_jsonArray, Option.bind_some]
  exact mapM_map_of_inverse DiscrepancyRecord.ofJson_toJson records

theorem texts_ndjson (written : ℕ) (records : List DiscrepancyRecord) :
    texts .ndjson written records =
      records.flatMap fun record => Json.print .compact 0 record.toJson ++ ['\n'] := by
  induction records generalizing written with
  | nil => rfl
  | cons record records ih =>
    rw [texts, ih, flatMap_cons]
    rfl

theorem lines_ndjson (records : List DiscrepancyRecord) :
    Text.lines (records.flatMap fun record => Json.print .compact 0 record.toJson ++ ['\n']) =
      records.map fun record => Json.print .compact 0 record.toJson := by
  induction records with
  | nil => rfl
  | cons record records ih =>
    have hline := not_mem_print_compact (c := '\n') (by decide) record
    have hreturn : (Json.print .compact 0 record.toJson).getLast? ≠ some '\r' := fun e =>
      not_mem_print_compact (by decide) record (mem_of_getLast? e)
    rw [flatMap_cons, append_assoc, singleton_append,
      Text.lines_append_newline hline, if_neg hreturn, ih, map_cons]

theorem readNdjson_document (records : List DiscrepancyRecord) :
    readNdjson (document .ndjson records) = some records := by
  have hdocument : document .ndjson records = texts .ndjson 0 records := by
    rw [document, tail, if_neg (by nofun), nil_append, append_nil]
  have hread : ∀ record : DiscrepancyRecord,
      (Json.parse (Json.print .compact 0 record.toJson)).bind DiscrepancyRecord.ofJson =
        some record := by
    intro record
    have hparse := Json.parse_print Json.Layout.isSpace_compact 0 record.toJson
      (show ∀ c ∈ [], Json.isSpace c = true from nofun)
    rw [append_nil] at hparse
    rw [hparse, Option.bind_some, record.ofJson_toJson]
  rw [hdocument, texts_ndjson, readNdjson, lines_ndjson]
  exact mapM_map_of_inverse hread records

theorem texts_csv (written : ℕ) (records : List DiscrepancyRecord) :
    texts .csv written records =
      (records.flatMap DiscrepancyRecord.csvFields).flatMap csvLine := by
  induction records generalizing written with
  | nil => rfl
  | cons record records ih =>
    rw [texts, ih, DiscrepancyRecord.serialise, record.csvRows_eq, flatMap_cons,
      flatMap_append]

theorem csvFields_ne_nil (record : DiscrepancyRecord) :
    ∀ row ∈ record.csvFields, row ≠ [] := by
  intro row hrow
  rw [DiscrepancyRecord.csvFields] at hrow
  split_ifs at hrow
  · rw [mem_singleton.1 hrow]
    exact cons_ne_nil _ _
  · obtain ⟨column, -, rfl⟩ := mem_map.1 hrow
    exact cons_ne_nil _ _

/-- Rows of texts are read back. -/
theorem readCsv_lines {rows : List (List String)} (h : ∀ row ∈ rows, row ≠ []) :
    readCsv (rows.flatMap csvLine) = some rows := by
  have hlines : rows.flatMap csvLine = (rows.map (List.map String.toList)).flatMap Csv.line := by
    rw [flatMap_map]
    rfl
  have hne : ∀ values ∈ rows.map (List.map String.toList), values ≠ [] := by
    intro values hvalues
    obtain ⟨row, hrow, rfl⟩ := mem_map.1 hvalues
    simpa using h row hrow
  rw [readCsv, hlines, Csv.parse_lines hne]
  simp [Function.comp_def]

theorem readCsv_document (records : List DiscrepancyRecord) :
    readCsv (document .csv records) =
      some (csvNames :: records.flatMap DiscrepancyRecord.csvFields) := by
  have hdocument : document .csv records =
      (csvNames :: records.flatMap DiscrepancyRecord.csvFields).flatMap csvLine := by
    rw [document, tail, if_pos rfl, texts_csv, csvHeader_eq, flatMap_cons, append_nil]
  rw [hdocument]
  refine readCsv_lines fun row hrow => ?_
  rcases mem_cons.1 hrow with rfl | hrow
  · exact cons_ne_nil _ _
  · obtain ⟨record, -, hrow⟩ := mem_flatMap.1 hrow
    exact csvFields_ne_nil record row hrow

/-- What a finished report holds. -/
theorem readsBack_document {format : ReportFormat} (h : format ≠ .none)
    (records : List DiscrepancyRecord) :
    ReadsBack format (utf8 (document format records)) records := by
  cases format with
  | none => exact absurd rfl h
  | json => exact ⟨_, rfl, readJson_document records⟩
  | ndjson => exact ⟨_, rfl, readNdjson_document records⟩
  | csv => exact ⟨_, rfl, readCsv_document records⟩

/-! ### Reports -/

/-- Of a report that is written, everything but the count. -/
theorem intact_of_counted {format : ReportFormat} (hformat : format ≠ .none) {sink : Sink}
    (hsink : sink = .file ∨ sink = .buffer) {events : List ReportEvent}
    (h : ∀ n, (run ⟨format, sink, 0, false, preamble format⟩ (events.take n)).Counted) :
    Intact ⟨format, sink, 0, false, preamble format⟩ events where
  counted := h
  reads records hevents := by
    rw [hevents, (output_run_written hsink records).1]
    exact readsBack_document hformat records
  finished records hevents outcome := by
    rw [hevents]
    exact finish_of_finished (output_run_written hsink records).2 outcome

theorem intact_disabled (events : List ReportEvent) : Intact disabled events where
  counted n := by
    rw [run_disabled]
    rfl
  reads _ _ := by
    rw [run_disabled]
    rfl
  finished _ _ outcome := by
    rw [run_disabled]
    exact finish_of_finished rfl outcome

theorem counted_preamble (format : ReportFormat) (sink : Sink) :
    Counted ⟨format, sink, 0, false, preamble format⟩ := by
  rw [Counted, complete, preamble]
  split_ifs <;> rfl

/-- **Report integrity.** A report in a file is intact exactly in sound runs, and one that no format
was chosen for, and one in memory, in all runs. -/
theorem intact_iff (format : ReportFormat) (events : List ReportEvent) :
    (Intact (openFile format) events ↔ format = .none ∨ Sound events) ∧
      Intact (inMemory format) events := by
  by_cases hformat : format = .none
  · subst hformat
    exact ⟨iff_of_true (intact_disabled events) (.inl rfl), intact_disabled events⟩
  · rw [openFile, inMemory, if_neg hformat, if_neg hformat]
    have hcounted := counted_preamble format
    have hfile := forall_counted_file_iff hformat rfl (hcounted .file) events
    refine ⟨⟨fun h => .inr (hfile.1 h.counted), ?_⟩, ?_⟩
    · rintro (h | h)
      · exact absurd h hformat
      · exact intact_of_counted hformat (.inl rfl) (hfile.2 h)
    · exact intact_of_counted hformat (.inr rfl) fun n =>
        counted_run_buffer rfl (hcounted .buffer) _

section Sample

/-- A row that is not in the target. -/
def absentRow : DiscrepancyRecord := ⟨⟨7⟩, ⟨"0", "9"⟩, "k, 1", .missing, true, []⟩

/-- The disk is full at the second row. -/
def fullDisk : List ReportEvent :=
  [.record absentRow .ok, .record absentRow (.failed 3), .record absentRow .ok]

/-- Two records are counted, and one is complete. -/
theorem not_intact :
    ((openFile .csv).run fullDisk).records = 2 ∧ ((openFile .csv).run fullDisk).complete = 1 ∧
      ¬ Intact (openFile .csv) fullDisk := by
  have hrecords : ((openFile .csv).run fullDisk).records = 2 := by decide
  have hcomplete : ((openFile .csv).run fullDisk).complete = 1 := by decide
  refine ⟨hrecords, hcomplete, fun h => ?_⟩
  have hcounted : ((openFile .csv).run fullDisk).Counted := h.counted 3
  rw [Counted, hrecords, hcomplete] at hcounted
  exact absurd hcounted (by decide)

end Sample

end ReportState

end Cdm
