import PactumCodex.Events.Provenance

/-!
# Instructions and the lines that belong to them

A transaction may run several instructions, and each of them may call further
programs.  Every program prints `Program log: Instruction: …` first and its
data after that, so the lines of a transaction fall into segments.

`parse_logs` has five variables for the whole transaction.  An instruction line
overwrites one of them, also with an instruction it does not know, and no line
ever resets the other four.

## Strategy

The variables are looked at one by one.  Lines that do not write a variable leave
it as it was (`foldl_keeps`), and of those that write it the last one counts
(`foldl_sets`), so the event depends on the last writers only.  If the last segment
writes every field again that an earlier one wrote, the event is that of the last
segment alone (`parseLogs_last_segment`); otherwise some field stems from another
segment, which is the other direction.
-/

namespace PactumCodex

/-! ## Instruction lines -/

/-- The instruction that a log line names, if it is one of the five. -/
def namedInstruction (log : String) : Option InstructionType :=
  (stripPrefix "Program log: Instruction: " log).bind fun instr =>
    InstructionType.fromStr (trim instr)

/-- The last of the five instructions that the log lines name. -/
def lastNamed (logs : List String) : Option InstructionType :=
  (logs.filterMap namedInstruction).getLast?

section Last

variable {crates : Crates} {signature : String} {slot : UInt64}

/-- An event is returned exactly if the last instruction line is recognised. -/
theorem parseLogs_isSome_iff {logs : List String} :
    (∃ event, parseLogs crates signature slot logs = some event) ↔ Recognised logs := by
  rw [← Option.isSome_iff_exists, ← @instruction_isSome_iff crates logs]
  unfold parseLogs
  rw [Option.isSome_map]

/-- The variable `instruction` holds the last recognised one, if it holds any. -/
theorem lastNamed_of_scan {logs : List String} {instruction : InstructionType}
    (h : (logs.foldl (scanLine crates) LogScan.start).instruction = some instruction) :
    lastNamed logs = some instruction := by
  unfold lastNamed
  induction logs using List.reverseRecOn with
  | nil => simp [LogScan.start] at h
  | append_singleton logs log ih =>
      rw [List.foldl_append, List.foldl_cons, List.foldl_nil] at h
      rw [List.filterMap_append]
      cases hinstr : stripPrefix "Program log: Instruction: " log with
      | some instr =>
          have hnamed : namedInstruction log = some instruction := by
            simpa [namedInstruction, scanLine, hinstr] using h
          simp [hnamed]
      | none =>
          have hkeeps : writesField crates .instruction log = false := by
            rw [writesField_instruction, hinstr]
            rfl
          have hnamed : namedInstruction log = none := by
            rw [namedInstruction, hinstr]
            rfl
          rw [scanLine_instruction hkeeps] at h
          simpa [hnamed] using ih h

theorem lastNamed_of_parseLogs {logs : List String} {event : ParsedEvent}
    (h : parseLogs crates signature slot logs = some event) :
    lastNamed logs = some event.instruction := by
  unfold parseLogs at h
  obtain ⟨instruction, hinstruction, rfl⟩ := Option.map_eq_some_iff.mp h
  exact lastNamed_of_scan hinstruction

/-- **The last recognised instruction.**  For log lines of which one names a recognised
instruction, `parse_logs` returns an event with the last recognised one exactly if no further
instruction line comes after it: the last instruction line of all is recognised. -/
theorem last_recognised_reported_iff {logs : List String}
    (_h : ∃ log ∈ logs, (namedInstruction log).isSome) :
    (∃ event, parseLogs crates signature slot logs = some event ∧
      lastNamed logs = some event.instruction) ↔ Recognised logs := by
  rw [← @parseLogs_isSome_iff crates signature slot logs]
  constructor
  · rintro ⟨event, hevent, -⟩
    exact ⟨event, hevent⟩
  · rintro ⟨event, hevent⟩
    exact ⟨event, hevent, lastNamed_of_parseLogs hevent⟩

end Last

/-- A signature whose instruction is the only one. -/
def signLogs : List String :=
  ["Program log: Instruction: SignAgreement", "Program log: agreement_pda=A",
    "Program log: signer=" ++ aliceKey]

/-- The last signature: the program also calls another one, which prints a name of its own. -/
def mintLogs : List String :=
  signLogs ++ ["Program CoREENxT6tW1HoK8ypY1SxRMZTcVPm7R94rH4PZNhX7d invoke [2]",
    "Program log: Instruction: CreateV1"]

theorem last_recognised_reported_sign :
    (∃ log ∈ signLogs, (namedInstruction log).isSome) ∧
      ((∃ event, parseLogs sampleCrates "tx" 0 signLogs = some event ∧
        lastNamed signLogs = some event.instruction) ↔ Recognised signLogs) :=
  ⟨⟨"Program log: Instruction: SignAgreement", by simp [signLogs], by decide +kernel⟩,
    last_recognised_reported_iff
      ⟨"Program log: Instruction: SignAgreement", by simp [signLogs], by decide +kernel⟩⟩

theorem instruction_lost_to_call :
    ¬ ∀ (crates : Crates) (signature : String) (slot : UInt64) (logs : List String),
      (∃ log ∈ logs, (namedInstruction log).isSome) →
        ∃ event, parseLogs crates signature slot logs = some event ∧
          lastNamed logs = some event.instruction := by
  intro hclaim
  obtain ⟨event, hevent, -⟩ := hclaim sampleCrates "tx" 0 mintLogs
    ⟨"Program log: Instruction: SignAgreement", by simp [mintLogs, signLogs], by decide +kernel⟩
  have hnone : parseLogs sampleCrates "tx" 0 mintLogs = none := by decide +kernel
  rw [hnone] at hevent
  cases hevent

/-! ## Segments -/

/-- The lines of one instruction: the line that names it, and the data lines after it. -/
structure LogSegment where
  instr : String
  data : List String
  data_silent : ∀ log ∈ data, stripPrefix "Program log: Instruction: " log = none

/-- The log lines of a segment. -/
def LogSegment.lines (segment : LogSegment) : List String :=
  ("Program log: Instruction: " ++ segment.instr) :: segment.data

/-- The log lines of a transaction. -/
def linesOf (segments : List LogSegment) : List String := segments.flatMap LogSegment.lines

/-- Some line of the segment writes the variable. -/
def LogSegment.writes (crates : Crates) (field : LogField) (segment : LogSegment) : Bool :=
  segment.lines.any (writesField crates field)

/-- The position of the segment whose line wrote the variable last. -/
def lastWriter (crates : Crates) (field : LogField) (segments : List LogSegment) : Option ℕ :=
  (segments.zipIdx.filter fun entry => entry.1.writes crates field).getLast?.map Prod.snd

/-- If `parse_logs` returns an event, the segment of its instruction alone gives the same event,
and every field that any line wrote was written last in that segment. -/
def StemsFromOwnSegment (crates : Crates) (signature : String) (slot : UInt64)
    (segments : List LogSegment) : Prop :=
  ∀ event, parseLogs crates signature slot (linesOf segments) = some event →
    ∃ own, lastWriter crates .instruction segments = some own ∧
      (∃ segment, segments[own]? = some segment ∧
        parseLogs crates signature slot segment.lines = some event) ∧
      ∀ field writer, lastWriter crates field segments = some writer → writer = own

/-- If the last segment names a recognised instruction, it writes every field again that an
earlier segment wrote. -/
def LastSegmentComplete (crates : Crates) (segments : List LogSegment) : Prop :=
  ∀ earlier last, segments = earlier ++ [last] →
    (InstructionType.fromStr (trim last.instr)).isSome →
      ∀ field, (∃ segment ∈ earlier, segment.writes crates field) → last.writes crates field

section Segments

variable {crates : Crates} {signature : String} {slot : UInt64}

theorem stripPrefix_append (start rest : String) :
    stripPrefix start (start ++ rest) = some rest := by
  unfold stripPrefix
  rw [if_pos (by rw [String.toList_append]; exact List.prefix_append _ _), String.toList_append,
    ← String.length_toList, List.drop_left, String.ofList_toList]

theorem linesOf_append (segments : List LogSegment) (segment : LogSegment) :
    linesOf (segments ++ [segment]) = linesOf segments ++ segment.lines := by
  simp [linesOf]

theorem lastWriter_append (field : LogField) (segments : List LogSegment) (segment : LogSegment) :
    lastWriter crates field (segments ++ [segment]) =
      if segment.writes crates field then some segments.length
      else lastWriter crates field segments := by
  unfold lastWriter
  rw [List.zipIdx_append, List.filter_append]
  split <;> simp [*]

/-- Every segment names its instruction. -/
theorem LogSegment.writes_instruction (segment : LogSegment) :
    segment.writes crates .instruction := by
  unfold LogSegment.writes LogSegment.lines
  rw [List.any_cons, writesField_instruction, stripPrefix_append]
  rfl

theorem lastWriter_instruction (segments : List LogSegment) (segment : LogSegment) :
    lastWriter crates .instruction (segments ++ [segment]) = some segments.length := by
  rw [lastWriter_append, if_pos segment.writes_instruction]

/-- No segment wrote the variable exactly if it has no last writer. -/
theorem lastWriter_eq_none_iff {field : LogField} {segments : List LogSegment} :
    lastWriter crates field segments = none ↔
      ¬ ∃ segment ∈ segments, segment.writes crates field := by
  induction segments using List.reverseRecOn with
  | nil => simp [lastWriter]
  | append_singleton segments segment ih =>
      rw [lastWriter_append]
      cases hwrites : segment.writes crates field with
      | true => simp [hwrites]
      | false => simp [hwrites, ih]

theorem lastWriter_lt {field : LogField} {segments : List LogSegment} {writer : ℕ}
    (h : lastWriter crates field segments = some writer) : writer < segments.length := by
  induction segments using List.reverseRecOn with
  | nil => simp [lastWriter] at h
  | append_singleton segments segment ih =>
      rw [lastWriter_append] at h
      rw [List.length_append, List.length_singleton]
      split at h
      · cases h
        omega
      · have hlt := ih h
        omega

/-- The instruction of the last segment is the one that counts. -/
theorem recognised_append_iff {earlier : List LogSegment} {last : LogSegment} :
    Recognised (linesOf (earlier ++ [last])) ↔
      (InstructionType.fromStr (trim last.instr)).isSome := by
  have hdata : last.data.filterMap (stripPrefix "Program log: Instruction: ") = [] :=
    List.filterMap_eq_nil_iff.mpr last.data_silent
  have hlines : last.lines.filterMap (stripPrefix "Program log: Instruction: ") = [last.instr] := by
    rw [LogSegment.lines, List.filterMap_cons, stripPrefix_append, hdata]
  unfold Recognised
  rw [linesOf_append, List.filterMap_append, hlines, List.getLast?_concat]
  simp

/-! ## The variables over a list of lines -/

theorem LogScan.ext_agreeOn {a b : LogScan} (h : ∀ field, a.AgreeOn b field) : a = b := by
  obtain ⟨instruction, agreementPda, creator, signer, parties⟩ := a
  rw [LogScan.mk.injEq]
  exact ⟨h .instruction, h .agreementPda, h .creator, h .signer, h .parties⟩

/-- One line: whether it writes the variable or not, it forgets no agreement. -/
theorem scanLine_agreeOn {field : LogField} {log : String} {scan scan' : LogScan}
    (h : scan.AgreeOn scan' field) :
    (scanLine crates scan log).AgreeOn (scanLine crates scan' log) field := by
  cases hwrites : writesField crates field log with
  | true => exact scanLine_sets scan scan' hwrites
  | false => exact ((scanLine_keeps scan hwrites).trans h).trans (scanLine_keeps scan' hwrites).symm

theorem foldl_agreeOn {field : LogField} {lines : List String} {scan scan' : LogScan}
    (h : scan.AgreeOn scan' field) :
    (lines.foldl (scanLine crates) scan).AgreeOn (lines.foldl (scanLine crates) scan') field := by
  induction lines generalizing scan scan' with
  | nil => exact h
  | cons log lines ih => exact ih (scanLine_agreeOn h)

/-- Lines that do not write the variable leave it as it was. -/
theorem foldl_keeps {field : LogField} {lines : List String} (scan : LogScan)
    (h : lines.any (writesField crates field) = false) :
    (lines.foldl (scanLine crates) scan).AgreeOn scan field := by
  induction lines generalizing scan with
  | nil => cases field <;> rfl
  | cons log lines ih =>
      rw [List.any_cons, Bool.or_eq_false_iff] at h
      exact (ih _ h.2).trans (scanLine_keeps scan h.1)

/-- Lines of which one writes the variable determine its value. -/
theorem foldl_sets {field : LogField} {lines : List String} (scan scan' : LogScan)
    (h : lines.any (writesField crates field) = true) :
    (lines.foldl (scanLine crates) scan).AgreeOn (lines.foldl (scanLine crates) scan') field := by
  induction lines generalizing scan scan' with
  | nil => simp at h
  | cons log lines ih =>
      rw [List.any_cons, Bool.or_eq_true] at h
      rw [List.foldl_cons, List.foldl_cons]
      rcases h with hlog | hlines
      · exact foldl_agreeOn (scanLine_sets scan scan' hlog)
      · exact ih _ _ hlines

theorem linesOf_keeps {field : LogField} {segments : List LogSegment} (scan : LogScan)
    (h : ¬ ∃ segment ∈ segments, segment.writes crates field) :
    ((linesOf segments).foldl (scanLine crates) scan).AgreeOn scan field := by
  apply foldl_keeps
  rw [linesOf, List.any_flatMap, List.any_eq_false]
  intro segment hsegment hwrites
  exact h ⟨segment, hsegment, hwrites⟩

/-- A last segment that writes every field again makes the event alone. -/
theorem parseLogs_last_segment {earlier : List LogSegment} {last : LogSegment}
    (h : ∀ field, (∃ segment ∈ earlier, segment.writes crates field) → last.writes crates field) :
    parseLogs crates signature slot (linesOf (earlier ++ [last])) =
      parseLogs crates signature slot last.lines := by
  have hscan : (linesOf (earlier ++ [last])).foldl (scanLine crates) LogScan.start =
      last.lines.foldl (scanLine crates) LogScan.start := by
    rw [linesOf_append, List.foldl_append]
    apply LogScan.ext_agreeOn
    intro field
    by_cases hwrites : last.writes crates field
    · exact foldl_sets _ _ hwrites
    · exact foldl_agreeOn (linesOf_keeps _ fun hearlier => hwrites (h field hearlier))
  unfold parseLogs
  rw [hscan]

/-- **Whose data an event carries.**  For every list of segments, the event returned by
`parse_logs` carries only data of the segment of its instruction exactly if the last segment, if
its instruction is recognised, writes every field again that an earlier one wrote. -/
theorem stemsFromOwnSegment_iff {segments : List LogSegment} :
    StemsFromOwnSegment crates signature slot segments ↔ LastSegmentComplete crates segments := by
  constructor
  · rintro hstems earlier last rfl hrecognised field hearlier
    obtain ⟨event, hevent⟩ := (@parseLogs_isSome_iff crates signature slot _).mpr
      (recognised_append_iff.mpr hrecognised)
    obtain ⟨own, hown, -, hfields⟩ := hstems event hevent
    rw [lastWriter_instruction, Option.some.injEq] at hown
    by_contra hsilent
    -- an earlier segment wrote the field last, but the event reports the last one
    have hsome : lastWriter crates field earlier ≠ none := fun hnone =>
      lastWriter_eq_none_iff.mp hnone hearlier
    obtain ⟨writer, hwriter⟩ := Option.ne_none_iff_exists'.mp hsome
    have hlast : lastWriter crates field (earlier ++ [last]) = some writer := by
      rw [lastWriter_append, if_neg hsilent, hwriter]
    have hlt := lastWriter_lt hwriter
    have heq := hfields field writer hlast
    omega
  · intro hcomplete event hevent
    rcases List.eq_nil_or_concat segments with rfl | ⟨earlier, last, rfl⟩
    · cases hevent
    · rw [List.concat_eq_append] at hevent hcomplete ⊢
      have hrecognised := recognised_append_iff.mp (parseLogs_isSome_iff.mp ⟨event, hevent⟩)
      have hagain := hcomplete earlier last rfl hrecognised
      refine ⟨earlier.length, lastWriter_instruction earlier last, ⟨last, by simp, ?_⟩, ?_⟩
      · rw [← parseLogs_last_segment hagain, hevent]
      · intro field writer hwriter
        rw [lastWriter_append] at hwriter
        split at hwriter
        · exact (Option.some.inj hwriter).symm
        · rename_i hsilent
          have hearlier : ∃ segment ∈ earlier, segment.writes crates field := by
            by_contra hnone
            rw [lastWriter_eq_none_iff.mpr hnone] at hwriter
            cases hwriter
          exact absurd (hagain field hearlier) hsilent

end Segments

/-- One transaction creates an agreement, and cancels another one without data lines. -/
def createThenCancel : List LogSegment :=
  [⟨"CreateAgreement", ["Program log: agreement_pda=A", "Program log: creator=" ++ bobKey],
      by decide +kernel⟩,
    ⟨"CancelAgreement", [], by simp⟩]

theorem event_mixes_segments :
    ¬ ∀ (crates : Crates) (signature : String) (slot : UInt64) (segments : List LogSegment),
      StemsFromOwnSegment crates signature slot segments := by
  intro hclaim
  have hevent : parseLogs sampleCrates "tx" 0 (linesOf createThenCancel) =
      some ⟨.cancelAgreement, "A", some bobKey, none, []⟩ := by decide +kernel
  obtain ⟨own, hown, -, hfields⟩ := hclaim sampleCrates "tx" 0 createThenCancel _ hevent
  have hcreate : lastWriter sampleCrates .agreementPda createThenCancel = some 0 := by
    decide +kernel
  have hcancel : lastWriter sampleCrates .instruction createThenCancel = some 1 := by decide +kernel
  have heq := hfields .agreementPda 0 hcreate
  rw [hcancel, ← heq] at hown
  cases hown

end PactumCodex
