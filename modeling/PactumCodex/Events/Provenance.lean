import PactumCodex.Replay

/-!
# Whose log lines make an event

The logs of a transaction are printed by all the programs it invokes.  The
runtime marks their frames: `Program <id> invoke [n]` opens one, and
`Program <id> success` or `Program <id> failed: …` closes it.  `emitted` says
which program printed each line, and `traceLogs` follows `parse_logs` and
remembers which program's line wrote each of its variables last.

`parse_logs` itself does not look at frames, so a variable is written by any
program's line; what counts is only which line comes last.

* `scanLine_sets` and `scanLine_keeps`: a line determines the variables that it
  writes (`writesField`) and leaves the others alone, so that the last line that
  writes a variable supplies its value (`source_supplies`, `event_supplied`);
* `source_iff`: no variable comes from another program exactly if every foreign
  line that writes one is overwritten by a line of the program;
* `events_genuine_iff` puts both together for the event that is returned.
-/

namespace PactumCodex

/-! ## Frames -/

/-- What a log line says about frames. -/
inductive FrameEvent : Type
  | invoke (program : String)
  | leave (program : String)
  | other
  deriving DecidableEq

/-- Messages of programs start with `Program log: `; they never open or close a frame. -/
def frameEvent (line : String) : FrameEvent :=
  if startsWith "Program log: " line then .other
  else
    match stripPrefix "Program " line with
    | none => .other
    | some rest =>
        let program := String.ofList (rest.toList.takeWhile (· ≠ ' '))
        let tail := String.ofList (rest.toList.dropWhile (· ≠ ' '))
        if startsWith " invoke [" tail then .invoke program
        else if tail = " success" ∨ startsWith " failed: " tail then .leave program
        else .other

/-- The open frames after a line, innermost first. -/
def advanceFrames (frames : List String) (line : String) : List String :=
  match frameEvent line with
  | .invoke program => program :: frames
  | .leave program => if frames.head? = some program then frames.tail else frames
  | .other => frames

/-- Every line with the program in whose frame it was printed, if any. -/
def emitted : List String → List String → List (Option String × String)
  | _, [] => []
  | frames, line :: lines => (frames.head?, line) :: emitted (advanceFrames frames line) lines

/-! ## Variables -/

/-- The variables of `parse_logs`. -/
inductive LogField : Type
  | instruction
  | agreementPda
  | creator
  | signer
  | parties
  deriving DecidableEq

/-- The fields that a JSON object has. -/
def LogData.has (data : LogData) : LogField → Bool
  | .instruction => false
  | .agreementPda => data.agreementPda.isSome
  | .creator => data.creator.isSome
  | .signer => data.signer.isSome
  | .parties => data.parties.isSome

/-- The JSON part of the loop body writes the variable. -/
def jsonWrites (crates : Crates) (field : LogField) (log : String) : Bool :=
  startsWith "Program log: \x7b" log &&
    (crates.parseLogData (trimStartMatches "Program log: " log)).any (·.has field)

/-- The key=value part of the loop body writes the variable. -/
def keyValueWrites (field : LogField) (log : String) : Bool :=
  match stripPrefix "Program log: " log with
  | none => false
  | some kv =>
      if startsWith "agreement_pda=" kv then field = .agreementPda
      else if startsWith "creator=" kv then field = .creator
      else if startsWith "signer=" kv then field = .signer
      else false

/-- The loop body of `parse_logs` writes the variable. -/
def writesField (crates : Crates) (field : LogField) (log : String) : Bool :=
  match stripPrefix "Program log: Instruction: " log with
  | some _ => field = .instruction
  | none => jsonWrites crates field log || keyValueWrites field log

/-- Two states of the loop have the same value of the variable. -/
def LogScan.AgreeOn (a b : LogScan) : LogField → Prop
  | .instruction => a.instruction = b.instruction
  | .agreementPda => a.agreementPda = b.agreementPda
  | .creator => a.creator = b.creator
  | .signer => a.signer = b.signer
  | .parties => a.parties = b.parties

theorem scanJson_keeps {crates : Crates} {field : LogField} {log : String} (scan : LogScan)
    (h : jsonWrites crates field log = false) : (scanJson crates scan log).AgreeOn scan field := by
  unfold scanJson
  unfold jsonWrites at h
  split
  · rename_i hbrace
    rw [hbrace, Bool.true_and] at h
    cases hdata : crates.parseLogData (trimStartMatches "Program log: " log) with
    | none => cases field <;> rfl
    | some data =>
        rw [hdata, Option.any_some] at h
        cases field <;> simp_all [LogScan.AgreeOn, LogData.has]
  · cases field <;> rfl

theorem scanKeyValue_keeps {field : LogField} {log : String} (scan : LogScan)
    (h : keyValueWrites field log = false) : (scanKeyValue scan log).AgreeOn scan field := by
  unfold scanKeyValue
  unfold keyValueWrites at h
  split
  · cases field <;> rfl
  · rename_i kv hkv
    simp only [hkv] at h
    split
    · cases field <;> simp_all [LogScan.AgreeOn]
    · split
      · cases field <;> simp_all [LogScan.AgreeOn]
      · split
        · cases field <;> simp_all [LogScan.AgreeOn]
        · cases field <;> rfl

theorem LogScan.AgreeOn.trans {a b c : LogScan} {field : LogField} (h₁ : a.AgreeOn b field)
    (h₂ : b.AgreeOn c field) : a.AgreeOn c field := by
  cases field <;> exact Eq.trans h₁ h₂

/-- A line that does not write a variable leaves it as it was. -/
theorem scanLine_keeps {crates : Crates} {field : LogField} {log : String} (scan : LogScan)
    (h : writesField crates field log = false) : (scanLine crates scan log).AgreeOn scan field := by
  unfold scanLine
  unfold writesField at h
  split
  · rename_i instr hinstr
    simp only [hinstr] at h
    cases field <;> simp_all [LogScan.AgreeOn]
  · rename_i hinstr
    simp only [hinstr, Bool.or_eq_false_iff] at h
    exact (scanKeyValue_keeps _ h.2).trans (scanJson_keeps _ h.1)

theorem scanJson_sets {crates : Crates} {field : LogField} {log : String} (scan scan' : LogScan)
    (h : jsonWrites crates field log = true) :
    (scanJson crates scan log).AgreeOn (scanJson crates scan' log) field := by
  unfold jsonWrites at h
  rw [Bool.and_eq_true, Option.any_eq_true] at h
  obtain ⟨hbrace, data, hdata, hfield⟩ := h
  unfold scanJson
  rw [if_pos hbrace, if_pos hbrace, hdata]
  cases field with
  | instruction => simp [LogData.has] at hfield
  | agreementPda =>
      obtain ⟨value, hvalue⟩ := Option.isSome_iff_exists.mp hfield
      simp [LogScan.AgreeOn, hvalue]
  | creator =>
      obtain ⟨value, hvalue⟩ := Option.isSome_iff_exists.mp hfield
      simp [LogScan.AgreeOn, hvalue]
  | signer =>
      obtain ⟨value, hvalue⟩ := Option.isSome_iff_exists.mp hfield
      simp [LogScan.AgreeOn, hvalue]
  | parties =>
      obtain ⟨value, hvalue⟩ := Option.isSome_iff_exists.mp hfield
      simp [LogScan.AgreeOn, hvalue]

theorem scanKeyValue_sets {field : LogField} {log : String} (scan scan' : LogScan)
    (h : keyValueWrites field log = true) :
    (scanKeyValue scan log).AgreeOn (scanKeyValue scan' log) field := by
  unfold keyValueWrites at h
  unfold scanKeyValue
  cases hkv : stripPrefix "Program log: " log with
  | none => simp [hkv] at h
  | some kv =>
      simp only [hkv] at h ⊢
      split at h
      · simp [*, LogScan.AgreeOn, of_decide_eq_true h]
      · split at h
        · simp [*, LogScan.AgreeOn, of_decide_eq_true h]
        · split at h
          · simp [*, LogScan.AgreeOn, of_decide_eq_true h]
          · simp at h

theorem LogScan.AgreeOn.symm {a b : LogScan} {field : LogField} (h : a.AgreeOn b field) :
    b.AgreeOn a field := by
  cases field <;> exact Eq.symm h

/-- A line that writes a variable determines its value. -/
theorem scanLine_sets {crates : Crates} {field : LogField} {log : String} (scan scan' : LogScan)
    (h : writesField crates field log = true) :
    (scanLine crates scan log).AgreeOn (scanLine crates scan' log) field := by
  unfold scanLine
  unfold writesField at h
  cases hinstr : stripPrefix "Program log: Instruction: " log with
  | some instr =>
      simp only [hinstr] at h
      rw [of_decide_eq_true h]
      rfl
  | none =>
      simp only [hinstr] at h
      cases hkv : keyValueWrites field log with
      | true => exact scanKeyValue_sets _ _ hkv
      | false =>
          rw [hkv, Bool.or_false] at h
          have hjson := scanJson_sets scan scan' h
          exact ((scanKeyValue_keeps _ hkv).trans hjson).trans (scanKeyValue_keeps _ hkv).symm

/-! ## Provenance -/

/-- The state of the loop, and for each variable the program whose line wrote it last. -/
structure LogTrace where
  scan : LogScan
  source : LogField → Option (Option String)

/-- The loop body, with provenance. -/
def traceLine (crates : Crates) (trace : LogTrace) (line : Option String × String) : LogTrace where
  scan := scanLine crates trace.scan line.2
  source field := if writesField crates field line.2 then some line.1 else trace.source field

/-- The loop, with provenance. -/
def traceLogs (crates : Crates) (lines : List (Option String × String)) : LogTrace :=
  lines.foldl (traceLine crates) ⟨LogScan.start, fun _ => none⟩

/-- The event shows what the variable holds in a state of the loop; without an agreement it shows
the signature. -/
def ParsedEvent.Shows (event : ParsedEvent) (signature : String) (scan : LogScan) : LogField → Prop
  | .instruction => scan.instruction = some event.instruction
  | .agreementPda => event.agreementPda = scan.agreementPda.getD signature
  | .creator => event.creator = scan.creator
  | .signer => event.signer = scan.signer
  | .parties => event.parties = scan.parties

/-- The event shows what the line alone would write to the variable. -/
def ParsedEvent.SuppliedBy (event : ParsedEvent) (crates : Crates) (signature : String)
    (field : LogField) (log : String) : Prop :=
  writesField crates field log ∧ event.Shows signature (scanLine crates LogScan.start log) field

/-- If `parse_logs` returns an event, the instruction line was printed by the program, and so
was every line that supplied what the event shows. -/
def Genuine (crates : Crates) (programId signature : String) (slot : UInt64) (logs : List String) :
    Prop :=
  ∀ event, parseLogs crates signature slot logs = some event →
    (traceLogs crates (emitted [] logs)).source .instruction = some (some programId) ∧
      ∀ field emitter, (traceLogs crates (emitted [] logs)).source field = some emitter →
        emitter = some programId ∧ ∃ log, (some programId, log) ∈ emitted [] logs ∧
          event.SuppliedBy crates signature field log

/-- The last instruction line names one of the five instructions. -/
def Recognised (logs : List String) : Prop :=
  ∃ instr, (logs.filterMap (stripPrefix "Program log: Instruction: ")).getLast? = some instr ∧
    (InstructionType.fromStr (trim instr)).isSome

/-- Every line of another program that writes the variable is followed by a line of the program
itself that writes it again. -/
def Overwritten (crates : Crates) (programId : String) (field : LogField)
    (lines : List (Option String × String)) : Prop :=
  ∀ before emitter log after, lines = before ++ (emitter, log) :: after →
    writesField crates field log → emitter ≠ some programId →
      ∃ line ∈ after, line.1 = some programId ∧ writesField crates field line.2

section Trace

variable {crates : Crates} {programId : String}

theorem emitted_map_snd (frames logs : List String) :
    (emitted frames logs).map Prod.snd = logs := by
  induction logs generalizing frames with
  | nil => rfl
  | cons log logs ih => rw [emitted, List.map_cons, ih]

theorem foldl_traceLine_scan (lines : List (Option String × String)) (trace : LogTrace) :
    (lines.foldl (traceLine crates) trace).scan =
      (lines.map Prod.snd).foldl (scanLine crates) trace.scan := by
  induction lines generalizing trace with
  | nil => rfl
  | cons line lines ih => exact ih (traceLine crates trace line)

/-- Following provenance does not change what `parse_logs` computes. -/
theorem traceLogs_scan (logs : List String) :
    (traceLogs crates (emitted [] logs)).scan = logs.foldl (scanLine crates) LogScan.start := by
  rw [traceLogs, foldl_traceLine_scan, emitted_map_snd]

theorem traceLogs_append (lines : List (Option String × String)) (line : Option String × String) :
    traceLogs crates (lines ++ [line]) = traceLine crates (traceLogs crates lines) line := by
  rw [traceLogs, List.foldl_append]
  rfl

theorem overwritten_append_iff {field : LogField} {lines : List (Option String × String)}
    {emitter : Option String} {log : String} :
    Overwritten crates programId field (lines ++ [(emitter, log)]) ↔
      if writesField crates field log then emitter = some programId
      else Overwritten crates programId field lines := by
  split
  · -- the last line writes the field: nothing comes after it
    rename_i hwrites
    constructor
    · intro h
      by_contra hforeign
      obtain ⟨line, hmem, -⟩ := h lines emitter log [] rfl hwrites hforeign
      simp at hmem
    · intro hown before emitter' log' after hlines hwrites' hforeign
      rcases List.eq_nil_or_concat after with rfl | ⟨after, last, rfl⟩
      · have hlast := (List.append_inj' hlines rfl).2
        rw [List.cons.injEq, Prod.mk.injEq] at hlast
        exact absurd (hlast.1.1 ▸ hown) hforeign
      · have hsplit : lines ++ [(emitter, log)] =
          (before ++ (emitter', log') :: after) ++ [last] := by
          simpa using hlines
        have hlast := (List.append_inj' hsplit rfl).2
        rw [List.cons.injEq] at hlast
        refine ⟨last, by simp, ?_⟩
        rw [← hlast.1]
        exact ⟨hown, hwrites⟩
  · -- the last line neither writes the field nor overwrites it
    rename_i hkeeps
    constructor
    · intro h before emitter' log' after hlines hwrites hforeign
      obtain ⟨line, hmem, hown, hline⟩ := h before emitter' log' (after ++ [(emitter, log)])
        (by simp [hlines]) hwrites hforeign
      rcases List.mem_append.mp hmem with hmem | hmem
      · exact ⟨line, hmem, hown, hline⟩
      · rw [List.mem_singleton.mp hmem] at hline
        exact absurd hline hkeeps
    · intro h before emitter' log' after hlines hwrites hforeign
      rcases List.eq_nil_or_concat after with rfl | ⟨after, last, rfl⟩
      · have hlast := (List.append_inj' hlines rfl).2
        rw [List.cons.injEq, Prod.mk.injEq] at hlast
        exact absurd (hlast.1.2 ▸ hwrites) hkeeps
      · have hsplit : lines ++ [(emitter, log)] =
          (before ++ (emitter', log') :: after) ++ [last] := by
          simpa using hlines
        obtain ⟨line, hmem, hline⟩ :=
          h before emitter' log' after (List.append_inj' hsplit rfl).1 hwrites hforeign
        exact ⟨line, by simp [hmem], hline⟩

/-- The variable comes from the program itself, or from nowhere, exactly if all foreign lines
that write it are overwritten. -/
theorem source_iff {field : LogField} {lines : List (Option String × String)} :
    (∀ emitter, (traceLogs crates lines).source field = some emitter → emitter = some programId) ↔
      Overwritten crates programId field lines := by
  induction lines using List.reverseRecOn with
  | nil => simp [traceLogs, Overwritten]
  | append_singleton lines line ih =>
      rw [overwritten_append_iff, traceLogs_append]
      simp only [traceLine]
      split
      · simp
      · exact ih

/-- Every variable has the value that a line of its source wrote. -/
theorem source_supplies {field : LogField} {lines : List (Option String × String)}
    {emitter : Option String} (h : (traceLogs crates lines).source field = some emitter) :
    ∃ log, (emitter, log) ∈ lines ∧ writesField crates field log ∧
      (traceLogs crates lines).scan.AgreeOn (scanLine crates LogScan.start log) field := by
  induction lines using List.reverseRecOn with
  | nil => simp [traceLogs] at h
  | append_singleton lines line ih =>
      rw [traceLogs_append] at h ⊢
      by_cases hwrites : writesField crates field line.2 = true
      · simp only [traceLine, hwrites, if_true, Option.some.injEq] at h
        subst h
        exact ⟨line.2, by simp, hwrites, scanLine_sets _ _ hwrites⟩
      · simp only [traceLine, hwrites] at h
        obtain ⟨log, hmem, hlog, hagree⟩ := ih h
        have hkeeps := scanLine_keeps (traceLogs crates lines).scan (by simpa using hwrites)
        exact ⟨log, List.mem_append_left _ hmem, hlog, hkeeps.trans hagree⟩

/-- The event shows the variables after the last line. -/
theorem parseLogs_shows {signature : String} {slot : UInt64} {logs : List String}
    {event : ParsedEvent} (h : parseLogs crates signature slot logs = some event)
    (field : LogField) :
    event.Shows signature (logs.foldl (scanLine crates) LogScan.start) field := by
  obtain ⟨instruction, hinstruction, rfl⟩ := Option.map_eq_some_iff.mp h
  cases field with
  | instruction => exact hinstruction
  | _ => rfl

theorem ParsedEvent.Shows.of_agreeOn {event : ParsedEvent} {signature : String} {a b : LogScan}
    {field : LogField} (h : event.Shows signature a field) (hagree : a.AgreeOn b field) :
    event.Shows signature b field := by
  cases field with
  | instruction => exact (Eq.symm hagree).trans h
  | agreementPda => exact h.trans (congrArg (·.getD signature) hagree)
  | _ => exact h.trans hagree

/-- What an event shows is supplied by a line of the source. -/
theorem event_supplied {signature : String} {slot : UInt64} {logs : List String}
    {event : ParsedEvent} (h : parseLogs crates signature slot logs = some event)
    {field : LogField} {emitter : Option String}
    (hsource : (traceLogs crates (emitted [] logs)).source field = some emitter) :
    ∃ log, (emitter, log) ∈ emitted [] logs ∧ event.SuppliedBy crates signature field log := by
  obtain ⟨log, hmem, hwrites, hagree⟩ := source_supplies hsource
  rw [traceLogs_scan] at hagree
  exact ⟨log, hmem, hwrites, (parseLogs_shows h field).of_agreeOn hagree⟩

/-- Only instruction lines write the instruction. -/
theorem writesField_instruction {log : String} :
    writesField crates .instruction log =
      (stripPrefix "Program log: Instruction: " log).isSome := by
  unfold writesField
  cases hinstr : stripPrefix "Program log: Instruction: " log with
  | some instr => rfl
  | none =>
      have hjson : jsonWrites crates .instruction log = false := by
        unfold jsonWrites
        cases crates.parseLogData (trimStartMatches "Program log: " log) <;> simp [LogData.has]
      have hkv : keyValueWrites .instruction log = false := by
        unfold keyValueWrites
        cases stripPrefix "Program log: " log <;> simp
      simp [hjson, hkv]

theorem scanLine_instruction {log : String} {scan : LogScan}
    (h : writesField crates .instruction log = false) :
    (scanLine crates scan log).instruction = scan.instruction :=
  scanLine_keeps scan h

/-- An instruction is recognised by the last line that names one. -/
theorem instruction_isSome_iff {logs : List String} :
    (logs.foldl (scanLine crates) LogScan.start).instruction.isSome ↔ Recognised logs := by
  unfold Recognised
  induction logs using List.reverseRecOn with
  | nil => simp [LogScan.start]
  | append_singleton logs log ih =>
      rw [List.foldl_append, List.foldl_cons, List.foldl_nil, List.filterMap_append]
      cases hinstr : stripPrefix "Program log: Instruction: " log with
      | some instr => simp [scanLine, hinstr]
      | none =>
          have hkeeps : writesField crates .instruction log = false := by
            rw [writesField_instruction, hinstr]
            rfl
          rw [scanLine_instruction hkeeps, ih]
          simp [hinstr]

/-- A recognised instruction has a source. -/
theorem source_instruction_isSome {lines : List (Option String × String)}
    (h : (traceLogs crates lines).scan.instruction.isSome) :
    ((traceLogs crates lines).source .instruction).isSome := by
  induction lines using List.reverseRecOn with
  | nil => simp [traceLogs, LogScan.start] at h
  | append_singleton lines line ih =>
      rw [traceLogs_append] at h ⊢
      by_cases hwrites : writesField crates .instruction line.2 = true
      · simp [traceLine, hwrites]
      · rw [traceLine, scanLine_instruction (by simpa using hwrites)] at h
        simp only [traceLine, hwrites]
        exact ih h

end Trace

/-- **Whose lines make an event.**  For every list of log lines, what an event returned by
`parse_logs` shows is supplied by lines of the program alone exactly if no instruction is
recognised, or every line of another program that writes a variable is followed by one of the
program itself that writes it again. -/
theorem events_genuine_iff {crates : Crates} {programId signature : String} {slot : UInt64}
    {logs : List String} :
    Genuine crates programId signature slot logs ↔
      (Recognised logs → ∀ field, Overwritten crates programId field (emitted [] logs)) := by
  constructor
  · intro hgenuine hrecognised field
    have hsome : (logs.foldl (scanLine crates) LogScan.start).instruction.isSome :=
      instruction_isSome_iff.mpr hrecognised
    obtain ⟨instruction, hinstruction⟩ := Option.isSome_iff_exists.mp hsome
    have hevent : ∃ event, parseLogs crates signature slot logs = some event := by
      simp [parseLogs, hinstruction]
    obtain ⟨event, hevent⟩ := hevent
    have hown := (hgenuine event hevent).2 field
    exact source_iff.mp fun emitter hemitter => (hown emitter hemitter).1
  · intro hoverwritten event hevent
    have hsome : (logs.foldl (scanLine crates) LogScan.start).instruction.isSome := by
      unfold parseLogs at hevent
      obtain ⟨instruction, hinstruction, -⟩ := Option.map_eq_some_iff.mp hevent
      rw [hinstruction]
      rfl
    have hsources := hoverwritten (instruction_isSome_iff.mp hsome)
    constructor
    · rw [← traceLogs_scan] at hsome
      obtain ⟨emitter, hemitter⟩ := Option.isSome_iff_exists.mp (source_instruction_isSome hsome)
      rw [hemitter, source_iff.mpr (hsources .instruction) emitter hemitter]
    · intro field emitter hemitter
      obtain rfl := source_iff.mpr (hsources field) emitter hemitter
      exact ⟨rfl, event_supplied hevent hemitter⟩

/-! ## A forged cancellation -/

/-- Another program prints the lines of a cancellation; the program itself is invoked after it. -/
def forgedLogs : List String :=
  ["Program " ++ aliceKey ++ " invoke [1]", "Program log: Instruction: CancelAgreement",
    "Program log: agreement_pda=A", "Program " ++ aliceKey ++ " success",
    "Program " ++ bobKey ++ " invoke [1]", "Program " ++ bobKey ++ " success"]

theorem foreign_lines_make_event :
    ¬ ∀ (crates : Crates) (programId signature : String) (slot : UInt64) (logs : List String),
      Genuine crates programId signature slot logs := by
  intro hclaim
  have hevent : parseLogs sampleCrates "tx" 0 forgedLogs =
      some ⟨.cancelAgreement, "A", none, none, []⟩ := by decide +kernel
  have hsource : (traceLogs sampleCrates (emitted [] forgedLogs)).source .instruction =
      some (some aliceKey) := by decide +kernel
  have hgenuine := (hclaim sampleCrates bobKey "tx" 0 forgedLogs _ hevent).1
  rw [hsource] at hgenuine
  revert hgenuine
  decide

end PactumCodex
